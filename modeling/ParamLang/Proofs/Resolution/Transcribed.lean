import ParamLang.Resolution
import ParamLang.Proofs.Result
import ParamLang.Proofs.Transcription

/-! Resolution with another sigil. References are cut out of a transcribed text where they stand in
the text itself, so resolving the one in a transcribed store is resolving the other. -/
namespace ParamLang.Transcription

variable {m m' : Marks} (T : Transcription m m')

section references

variable (sigil : Char) (t : Text)

lemma name?_text :
    Segment.name? (T.text t) = (Segment.name? t).map (Prod.map T.text T.text) := by
  have htake : (T.text t).takeWhile isNameChar = T.text (t.takeWhile isNameChar) := by
    simp [text, List.takeWhile_map, Function.comp_def, T.isNameChar_char]
  have hdrop : (T.text t).dropWhile isNameChar = T.text (t.dropWhile isNameChar) := by
    simp [text, List.dropWhile_map, Function.comp_def, T.isNameChar_char]
  simp only [Segment.name?, htake, hdrop]
  by_cases h : t.takeWhile isNameChar = [] <;> simp [h, text]

lemma nameBefore?_text (closer : Char) : Segment.nameBefore? (T.char closer) (T.text t) =
    (Segment.nameBefore? closer t).map (Prod.map T.text T.text) := by
  simp only [Segment.nameBefore?, name?_text]
  generalize Segment.name? t = read
  obtain _ | ⟨name, _ | ⟨c, rest⟩⟩ := read
  · rfl
  · rfl
  · simp only [Option.map_some, Prod.map, text_cons, T.char.injective.eq_iff]
    split <;> rfl

lemma delimitedName?_text : Segment.delimitedName? (T.char sigil) (T.text t) =
    (Segment.delimitedName? sigil t).map (Prod.map T.text T.text) := by
  cases t with
  | nil => rfl
  | cons c t =>
    simp only [Segment.delimitedName?, text_cons, T.char.injective.eq_iff, nameBefore?_text]
    split <;> rfl

lemma reference?_text : Segment.reference? (T.char sigil) (T.text t) =
    (Segment.reference? sigil t).map (Prod.map id (Prod.map T.text T.text)) := by
  match t with
  | [] => rfl
  | [a] => rfl
  | a :: b :: t =>
    have hbraces := T.nameBefore?_text t '}'
    rw [T.rightBrace] at hbraces
    simp only [Segment.reference?, text_cons, ne_eq, T.char.injective.eq_iff, char_eq_leftBrace,
      delimitedName?_text, name?_text, hbraces]
    split
    · rfl
    · split
      · cases Segment.delimitedName? sigil t with
        | some read => rfl
        | none => cases Segment.name? t <;> rfl
      · split
        · cases Segment.nameBefore? '}' t <;> rfl
        · rfl

end references

def segment : Segment → Segment
  | .literal t => .literal (T.text t)
  | .reference form name => .reference form (T.text name)

lemma pushLiteral_segments (c : Char) (segments : List Segment) :
    Segment.pushLiteral (T.char c) (segments.map T.segment) =
      (Segment.pushLiteral c segments).map T.segment := by
  match segments with
  | [] => rfl
  | .literal t :: rest => rfl
  | .reference form name :: rest => rfl

lemma ofText_text (sigil : Char) (t : Text) :
    Segment.ofText (T.char sigil) (T.text t) = (Segment.ofText sigil t).map T.segment := by
  fun_induction Segment.ofText sigil t with
  | case1 => simp
  | case2 c t form name rest h _ ih =>
    have h' := (T.reference?_text sigil (c :: t)).trans (congrArg _ h)
    rw [Segment.ofText_of_reference h', List.map_cons, ← ih]
    rfl
  | case3 c t h ih =>
    have h' := (T.reference?_text sigil (c :: t)).trans (congrArg _ h)
    have hliteral : Segment.ofText (T.char sigil) (T.char c :: T.text t) = _ :=
      Segment.ofText_of_literal h'
    rw [text_cons, hliteral, ← pushLiteral_segments, ← ih]

section tables

variable {α β : Type} (value : α → β) (store : Table α) (name : Text)

/-- A table under transcribed names, with each value replaced. -/
def table : Table β where
  rows := store.rows.map fun row => (T.text row.1, value row.2)
  unique := by
    have hnames : (store.rows.map fun row => (T.text row.1, value row.2)).map Prod.fst =
        (store.rows.map Prod.fst).map T.text := by simp
    rw [hnames]
    exact store.unique.map T.text_injective

lemma find?_table :
    (T.table value store).find? (T.text name) = (store.find? name).map value := by
  obtain ⟨rows, unique⟩ := store
  simp only [Table.find?, table]
  clear unique
  induction rows with
  | nil => rfl
  | cons row rows ih =>
    obtain ⟨other, a⟩ := row
    by_cases h : name = other
    · simp [h]
    · have h' : T.text name ≠ T.text other := fun heq => h (T.text_injective heq)
      simp [List.lookup_cons, beq_eq_false_iff_ne.mpr h, beq_eq_false_iff_ne.mpr h', ih]

lemma erase_table :
    (T.table value store).erase (T.text name) = T.table value (store.erase name) := by
  have hkept (row : Text × α) : (T.text row.1 != T.text name) = (row.1 != name) := by
    rw [Bool.eq_iff_iff]
    simp [T.text_injective.eq_iff]
  simp only [Table.erase, table, List.filter_map, Function.comp_def, hkept]

lemma put_table (a : α) :
    (T.table value store).put (T.text name) (value a) = T.table value (store.put name a) := by
  have hrows : ((T.table value store).erase (T.text name)).rows = _ :=
    congrArg Table.rows (T.erase_table value store name)
  simp only [Table.put, hrows]
  simp [table]

end tables

section resolution

/-- A first step and then the rest, both of them transcribed. -/
lemma result_bind {α β : Type} {first : Except Fault α} {next : α → Except Fault β} {f : α → α}
    {g : β → β} {first' : Except Fault α} {next' : α → Except Fault β}
    (hfirst : first' = T.result f first) (hnext : ∀ a, next' (f a) = T.result g (next a)) :
    first' >>= next' = T.result g (first >>= next) := by
  subst hfirst
  cases first with
  | error e => rfl
  | ok a => exact hnext a

def resolver (r : Resolver) : Resolver :=
  { r with bindings := T.table T.text r.bindings, sigil := T.char r.sigil }

def active (entered : Resolver.Active) : Resolver.Active := T.table id entered

def resolved (r : Resolved) : Resolved := ⟨T.text r.text, r.changed⟩

def rebuilt (r : Resolver.Rebuilt) : Resolver.Rebuilt := ⟨T.resolved r.resolved, T.active r.active⟩

lemma rebuilt_prepend (t : Text) (changed : Bool) (r : Resolver.Rebuilt) :
    (T.rebuilt r).prepend (T.text t) changed = T.rebuilt (r.prepend t changed) := by
  simp [rebuilt, resolved, Resolver.Rebuilt.prepend]

lemma write_name (sigil : Char) (name : Text) (form : ReferenceForm) :
    form.write (T.char sigil) (T.text name) = T.text (form.write sigil name) := by
  cases form <;> simp [ReferenceForm.write, T.leftBrace, T.rightBrace]

lemma isCycle_active (entered : Resolver.Active) (name : Text) (depth : Nat) :
    Resolver.isCycle (T.active entered) (T.text name) depth =
      Resolver.isCycle entered name depth := by
  simp only [Resolver.isCycle, active, find?_table, Option.map_id_fun, id_eq]

lemma rebuild_segments (r : Resolver)
    {deeper deeper' : Text → Resolver.Active → Except Fault Resolver.Rebuilt}
    (hdeeper : ∀ t entered, deeper' (T.text t) (T.active entered) =
      T.result T.rebuilt (deeper t entered))
    (depth : Nat) (segments : List Segment) (entered : Resolver.Active) :
    (T.resolver r).rebuild deeper' depth (segments.map T.segment) (T.active entered) =
      T.result T.rebuilt (r.rebuild deeper depth segments entered) := by
  have hundefined : (T.resolver r).undefined = r.undefined := rfl
  induction segments generalizing entered with
  | nil => rfl
  | cons s rest ih =>
    cases s with
    | literal t =>
      refine T.result_bind (ih entered) fun tail => ?_
      exact congrArg Except.ok (T.rebuilt_prepend t false tail)
    | reference form name =>
      have hfind : (T.resolver r).bindings.find? (T.text name) =
          (r.bindings.find? name).map T.text :=
        T.find?_table T.text r.bindings name
      cases hname : r.bindings.find? name with
      | none =>
        rw [hname] at hfind
        simp only [List.map_cons, segment, Resolver.rebuild, hfind, hname, Option.map_none,
          hundefined]
        refine T.result_bind (ih entered) fun tail => ?_
        cases r.undefined with
        | keep =>
          have hkept := T.rebuilt_prepend (form.write r.sigil name) false tail
          rw [← T.write_name] at hkept
          exact congrArg Except.ok hkept
        | empty => exact congrArg Except.ok (T.rebuilt_prepend [] true tail)
      | some value =>
        rw [hname] at hfind
        simp only [List.map_cons, segment, Resolver.rebuild, hfind, hname, Option.map_some,
          isCycle_active]
        cases Resolver.isCycle entered name depth with
        | true => rfl
        | false =>
          have hput : (T.active entered).put (T.text name) depth =
              T.active (entered.put name depth) := T.put_table id entered name depth
          have hexpanded := hdeeper value (entered.put name depth)
          rw [← hput] at hexpanded
          refine T.result_bind hexpanded fun expanded => ?_
          have herase : (T.rebuilt expanded).active.erase (T.text name) =
              T.active (expanded.active.erase name) := T.erase_table id expanded.active name
          rw [herase]
          refine T.result_bind (ih _) fun tail => ?_
          exact congrArg Except.ok (T.rebuilt_prepend expanded.resolved.text true tail)

lemma resolveAt_text (r : Resolver) (levels : Nat) (t : Text) (entered : Resolver.Active) :
    (T.resolver r).resolveAt levels (T.text t) (T.active entered) =
      T.result T.rebuilt (r.resolveAt levels t entered) := by
  induction levels generalizing t entered with
  | zero => rfl
  | succ levels ih =>
    have hsegments : Segment.ofText (T.resolver r).sigil (T.text t) = _ := T.ofText_text r.sigil t
    simp only [Resolver.resolveAt, hsegments]
    refine T.result_bind (T.rebuild_segments r ih _ _ entered) fun built => ?_
    have hchanged : (T.rebuilt built).resolved.changed = built.resolved.changed := rfl
    rw [hchanged]
    cases built.resolved.changed with
    | false => rfl
    | true => exact T.result_bind (ih built.resolved.text built.active) fun again => rfl

end resolution

/-- Which characters are the marks does not matter. Under a transcription, scanning the transcribed
fragment gives the transcribed entries or the same fault, and resolving a transcribed text in a
transcribed store gives the transcribed text or the same fault. -/
theorem scan_and_resolve {m m' : Marks} (T : Transcription m m') (t : Text) :
    scan m' (T.text t) = T.result (List.map T.entry) (scan m t) ∧
      ∀ (bindings : Table Text) (undefined : UndefinedPolicy) (limit : Nat),
        (⟨T.table T.text bindings, m'.sigil, undefined, limit⟩ : Resolver).resolve (T.text t) =
          T.result T.resolved ((⟨bindings, m.sigil, undefined, limit⟩ : Resolver).resolve t) := by
  refine ⟨T.scan_text t, fun bindings undefined limit => ?_⟩
  rw [← T.sigil]
  exact T.result_bind (T.resolveAt_text ⟨bindings, m.sigil, undefined, limit⟩ (limit + 1) t ∅)
    fun built => rfl

lemma apply_swap (p : Char → Bool) {a b : Char} (h : p a = p b) (c : Char) :
    p (Equiv.swap a b c) = p c := by
  rw [Equiv.swap_apply_def]
  split_ifs with ha hb
  · rw [ha, h]
  · rw [hb, h]
  · rfl

/-- Parentheses, a colon, a circumflex and an at sign. -/
def round : Marks where
  opener := '('
  closer := ')'
  separator := ':'
  escape := '^'
  sigil := '@'
  usable := List.all_eq_true.mp (by decide)
  distinct := by decide

/-- Each standard mark is exchanged with the round mark of its role. -/
def toRound : Transcription .standard round where
  char := (Equiv.swap '[' '(').trans ((Equiv.swap ']' ')').trans ((Equiv.swap '=' ':').trans
    ((Equiv.swap '\\' '^').trans (Equiv.swap '$' '@'))))
  opener := by decide
  closer := by decide
  separator := by decide
  escape := by decide
  sigil := by decide
  isBlank_char c := by simp (disch := decide) only [Equiv.trans_apply, apply_swap Text.isBlank]
  isNameChar_char c := by simp (disch := decide) only [Equiv.trans_apply, apply_swap isNameChar]
  leftBrace := by decide
  rightBrace := by decide

/-- A bracketed value is read with round marks as it is with the standard ones, and a variable that
refers to itself is found out. -/
theorem scan_and_resolve_round :
    scan round ['a', ':', '(', '@', '@', 'b', ')'] = .ok [.pair ['a'] ['@', '@', 'b']] ∧
      (⟨.ofList [(['b'], ['@', '@', 'b'])], '@', .keep, 9⟩ : Resolver).resolve
        ['a', ':', '(', '@', '@', 'b', ')'] = .error (.variableCycle ['b']) := by
  let t : Text := ['a', '=', '[', '$', '$', 'b', ']']
  let r : Resolver := ⟨.ofList [(['b'], ['$', '$', 'b'])], '$', .keep, 9⟩
  have ht : toRound.text t = ['a', ':', '(', '@', '@', 'b', ')'] := by decide
  have hstore : toRound.table toRound.text r.bindings = .ofList [(['b'], ['@', '@', 'b'])] := by
    decide
  obtain ⟨hscan, hresolve⟩ := toRound.scan_and_resolve t
  have hentries : scan .standard t = .ok [.pair ['a'] ['$', '$', 'b']] := by cbv
  have hcycle : r.resolve t = .error (.variableCycle ['b']) := by cbv
  rw [ht, hentries] at hscan
  specialize hresolve r.bindings .keep 9
  rw [ht, hstore] at hresolve
  refine ⟨hscan.trans ?_, hresolve.trans ?_⟩
  · decide
  · exact (congrArg (toRound.result toRound.resolved) hcycle).trans (by decide)

end ParamLang.Transcription
