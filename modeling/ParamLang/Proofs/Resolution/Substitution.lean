import ParamLang.Proofs.Plain

/-! Resolution as recursive substitution. Where no sigil stands outside the references and every
variable referred to is bound, a rebuilt text holds no sigil, so that resolving it again adds
nothing, and a text takes as many levels as it is high. A cycle is met before the levels run out
wherever the limit allows one level for each variable. Whatever the variables, a text that leads to
a cycle is not resolved. -/
namespace ParamLang.Resolver

/-- The variables that the references of a text lead to, directly or through values. -/
inductive Reaches (r : Resolver) (text : Text) : Text → Prop
  | direct (form : ReferenceForm) {name : Text}
      (mem : .reference form name ∈ Segment.ofText r.sigil text) : Reaches r text name
  | through (form : ReferenceForm) {name value other : Text} (reached : Reaches r text name)
      (bound : r.bindings.find? name = some value)
      (mem : .reference form other ∈ Segment.ofText r.sigil value) : Reaches r text other

/-- Whether all is in order with a segment: a literal holds no sigil, and a reference is to a bound
variable. -/
def inOrder (r : Resolver) : Segment → Bool
  | .literal text => !text.contains r.sigil
  | .reference _ name => r.bindings.contains name

/-- Whether every sigil of a text belongs to a reference to a bound variable. -/
def isTidy (r : Resolver) (text : Text) : Bool := (Segment.ofText r.sigil text).all r.inOrder

/-- A tidy text that reaches tidy values alone. -/
def Closed (r : Resolver) (text : Text) : Prop :=
  r.isTidy text = true ∧ ∀ name value, r.Reaches text name →
    r.bindings.find? name = some value → r.isTidy value = true

def Cyclic (r : Resolver) (text : Text) : Prop :=
  ∃ name value, r.Reaches text name ∧ r.bindings.find? name = some value ∧ r.Reaches value name

/-- Replaces every reference by its value, in which the references are replaced likewise. The
height is that of the segments: zero without a reference, and otherwise one more than the greatest
height of a value referred to. -/
inductive Substitutes (r : Resolver) : List Segment → Nat → Text → Prop
  | nil : Substitutes r [] 0 []
  | literal (text : Text) {rest : List Segment} {height : Nat} {out : Text}
      (tail : Substitutes r rest height out) :
      Substitutes r (.literal text :: rest) height (text ++ out)
  | reference (form : ReferenceForm) {name value : Text} {rest : List Segment}
      {inner height : Nat} {text out : Text} (bound : r.bindings.find? name = some value)
      (first : Substitutes r (Segment.ofText r.sigil value) inner text)
      (tail : Substitutes r rest height out) :
      Substitutes r (.reference form name :: rest) (max (inner + 1) height) (text ++ out)

variable {r : Resolver} {deeper : Text → Except Fault Resolved} {active : Active}
  {text name other value out : Text} {form : ReferenceForm} {segments : List Segment}
  {levels height : Nat} {built : Resolved}

lemma Reaches.after (h : r.Reaches text name) (hname : r.bindings.find? name = some value)
    (hother : r.Reaches value other) : r.Reaches text other := by
  induction hother with
  | direct form mem => exact h.through form hname mem
  | through form _ bound mem ih => exact ih.through form bound mem

lemma sigil_not_mem_literal {t : Text} (h : r.isTidy text = true)
    (hmem : .literal t ∈ Segment.ofText r.sigil text) : r.sigil ∉ t := by
  simpa [inOrder] using List.all_eq_true.mp h _ hmem

lemma exists_value (h : r.isTidy text = true)
    (hmem : .reference form name ∈ Segment.ofText r.sigil text) :
    ∃ value, r.bindings.find? name = some value :=
  Option.isSome_iff_exists.mp (List.all_eq_true.mp h _ hmem)

lemma Closed.of_reaches (h : r.Closed text) (hname : r.Reaches text name)
    (hvalue : r.bindings.find? name = some value) : r.Closed value :=
  ⟨h.2 name value hname hvalue, fun _ _ hother => h.2 _ _ (hname.after hvalue hother)⟩

lemma Closed.exists_closed (h : r.Closed text)
    (hmem : .reference form name ∈ Segment.ofText r.sigil text) :
    ∃ value, r.bindings.find? name = some value ∧ r.Closed value := by
  obtain ⟨value, hvalue⟩ := exists_value h.1 hmem
  exact ⟨value, hvalue, h.of_reaches (.direct form hmem) hvalue⟩

/-- All that a closed text reaches is bound. -/
lemma Closed.bound (h : r.Closed text) (hname : r.Reaches text name) :
    ∃ value, r.bindings.find? name = some value := by
  cases hname with
  | direct _ mem => exact exists_value h.1 mem
  | through _ reached bound mem => exact exists_value (h.2 _ _ reached bound) mem

/-- Whatever is reached, a text is closed if all values are tidy. -/
lemma closed_of_rows (h : r.isTidy text = true)
    (hrows : r.bindings.rows.all (fun row => r.isTidy row.2) = true) : r.Closed text :=
  ⟨h, fun _ _ _ hvalue => List.all_eq_true.mp hrows _ (Table.mem_rows_of_find? hvalue)⟩

lemma Cyclic.of_value (hname : r.Reaches text name) (hvalue : r.bindings.find? name = some value)
    (h : r.Cyclic value) : r.Cyclic text := by
  obtain ⟨other, inner, hother, hinner, hback⟩ := h
  exact ⟨other, inner, hname.after hvalue hother, hinner, hback⟩

lemma uncheckedAt_of_not_mem (h : r.sigil ∉ text) (levels : Nat) :
    r.uncheckedAt (levels + 1) text = .ok ⟨text, false⟩ :=
  uncheckedAt_of_not_hasWork (hasWork_of_not_hasReferences (hasReferences_of_not_mem h)) levels

/-- A text rebuilt from values without a sigil has no sigil left. -/
lemma sigil_not_mem_fill (h : r.Closed text)
    (hmem : ∀ s ∈ segments, s ∈ Segment.ofText r.sigil text)
    (hdeeper : ∀ value out, r.Closed value → deeper value = .ok out → r.sigil ∉ out.text)
    (hf : r.fill deeper segments = .ok built) : r.sigil ∉ built.text := by
  induction segments generalizing built with
  | nil =>
    obtain rfl := Except.ok.inj hf
    simp
  | cons s rest ih =>
    obtain ⟨hs, hmem⟩ := List.forall_mem_cons.mp hmem
    obtain ⟨first, hfirst, tail, htail, rfl⟩ := fill_cons_eq_ok_iff.mp hf
    have hfirst' : r.sigil ∉ first.text := by
      cases s with
      | literal t =>
        obtain rfl := Except.ok.inj hfirst
        exact sigil_not_mem_literal h.1 hs
      | reference form name =>
        obtain ⟨value, hvalue, hclosed⟩ := h.exists_closed hs
        rw [piece_bound hvalue, bind_eq_ok_iff] at hfirst
        obtain ⟨o, ho, heq⟩ := hfirst
        obtain rfl := Except.ok.inj heq
        exact hdeeper value o hclosed ho
    simp [Resolved.append, hfirst', ih hmem htail]

lemma sigil_not_mem_uncheckedAt (h : r.Closed text)
    (hu : r.uncheckedAt levels text = .ok built) : r.sigil ∉ built.text := by
  induction levels generalizing text built with
  | zero => simp [uncheckedAt] at hu
  | succ levels ih =>
    obtain ⟨rebuilt, hf, hend⟩ := uncheckedAt_succ_eq_ok_iff.mp hu
    have hnot := sigil_not_mem_fill h (fun s hs => hs) (fun _ _ hv ho => ih hv ho) hf
    obtain ⟨hc, rfl⟩ | ⟨_, again, hagain, rfl⟩ := hend
    · rwa [eq_of_fill_unchanged hf hc] at hnot
    · have hsame := uncheckedAt_mono r.limit levels.le_succ hagain
      rw [uncheckedAt_of_not_mem hnot] at hsame
      obtain rfl := Except.ok.inj hsame
      exact hnot

/-- A rebuilding that changes a closed text has expanded a value, with a level for it. -/
lemma levels_pos_of_changed (h : r.Closed text)
    (hf : r.fill (r.uncheckedAt levels) (Segment.ofText r.sigil text) = .ok built)
    (hc : built.changed = true) : 0 < levels := by
  obtain ⟨s, hs, hreplaced⟩ := List.any_eq_true.mp ((fill_changed hf).symm.trans hc)
  obtain ⟨p, hp⟩ := piece_of_fill hf hs
  cases s with
  | literal t => simp [replaces] at hreplaced
  | reference form name =>
    obtain ⟨value, hvalue, _⟩ := h.exists_closed hs
    rw [piece_bound hvalue, bind_eq_ok_iff] at hp
    obtain ⟨o, ho, _⟩ := hp
    cases levels with
    | zero => simp [uncheckedAt] at ho
    | succ levels => exact levels.succ_pos

/-- The second pass over a closed text adds nothing, and takes no level that the first one did not
take. -/
lemma uncheckedAt_succ_of_closed (h : r.Closed text) (levels : Nat) :
    r.uncheckedAt (levels + 1) text =
      r.fill (r.uncheckedAt levels) (Segment.ofText r.sigil text) := by
  cases hf : r.fill (r.uncheckedAt levels) (Segment.ofText r.sigil text) with
  | error e => simp only [uncheckedAt, hf, error_bind]
  | ok built =>
    refine uncheckedAt_succ_eq_ok_iff.mpr ⟨built, hf, ?_⟩
    cases hc : built.changed with
    | false => exact .inl ⟨rfl, eq_of_fill_unchanged hf hc⟩
    | true =>
      have hnot := sigil_not_mem_fill h (fun s hs => hs)
        (fun _ _ hv ho => sigil_not_mem_uncheckedAt hv ho) hf
      obtain ⟨fewer, rfl⟩ := Nat.exists_eq_succ_of_ne_zero (levels_pos_of_changed h hf hc).ne'
      exact .inr ⟨rfl, _, uncheckedAt_of_not_mem hnot fewer, by rw [← hc]⟩

/-- What is left of resolution once the second pass is gone: each segment takes one level more than
the value it refers to. -/
lemma fill_of_substitutes (hsub : r.Substitutes segments height out) (h : r.Closed text)
    (hmem : ∀ s ∈ segments, s ∈ Segment.ofText r.sigil text) (levels : Nat) :
    r.fill (r.uncheckedAt levels) segments =
      if height ≤ levels then .ok ⟨out, segments.any Segment.isReference⟩
      else .error (.nestingTooDeep r.limit) := by
  induction hsub generalizing text levels with
  | nil => simp [fill]
  | @literal t rest height out _ ih =>
    have hrest := ih h (List.forall_mem_cons.mp hmem).2 levels
    simp only [fill, piece, ok_bind, hrest]
    split
    · simp [Resolved.append, Segment.isReference]
    · rfl
  | @reference form name value rest inner height t out bound _ _ ihvalue ih =>
    obtain ⟨hs, hmem⟩ := List.forall_mem_cons.mp hmem
    have hrest := ih h hmem levels
    have hclosed := h.of_reaches (.direct form hs) bound
    have hvalue : r.uncheckedAt levels value =
        if inner + 1 ≤ levels then .ok ⟨t, hasReferences r.sigil value⟩
        else .error (.nestingTooDeep r.limit) := by
      cases levels with
      | zero => simp [uncheckedAt]
      | succ levels =>
        rw [uncheckedAt_succ_of_closed hclosed, ihvalue hclosed (fun s hs => hs)]
        simp [hasReferences]
    simp only [fill, piece_bound bound, hvalue, hrest, Nat.max_le]
    by_cases hinner : inner + 1 ≤ levels <;> by_cases hheight : height ≤ levels <;>
      simp [hinner, hheight, Resolved.append, Segment.isReference]

lemma uncheckedAt_of_substitutes (h : r.Closed text)
    (hsub : r.Substitutes (Segment.ofText r.sigil text) height out) (levels : Nat) :
    r.uncheckedAt (levels + 1) text =
      if height ≤ levels then .ok ⟨out, hasReferences r.sigil text⟩
      else .error (.nestingTooDeep r.limit) := by
  rw [uncheckedAt_succ_of_closed h, fill_of_substitutes hsub h (fun s hs => hs), hasReferences]

lemma endsIn_of_substitutes (h : r.Closed text)
    (hsub : r.Substitutes (Segment.ofText r.sigil text) height out) :
    r.EndsIn (height + 1) text :=
  ⟨_, (uncheckedAt_of_substitutes h hsub height).trans (if_pos (Nat.le_refl height))⟩

/-- To resolve a text, every value that it reaches must be resolved. -/
lemma Reaches.needs (h : r.Reaches text name) (hvalue : r.bindings.find? name = some value) :
    r.Needs text value := by
  induction h generalizing value with
  | direct _ mem => exact needs_value mem hvalue
  | through _ _ bound mem ih => exact (ih bound).trans (needs_value mem hvalue)

lemma Cyclic.not_endsIn (h : r.Cyclic text) (levels : Nat) : ¬r.EndsIn levels text := by
  obtain ⟨name, value, hname, hvalue, hback⟩ := h
  exact (hname.needs hvalue).not_endsIn (not_endsIn_of_needs_self (hback.needs hvalue)) levels

/-- The segments of a text are substituted once the values they refer to are. -/
lemma exists_substitutes_segments (h : r.Closed text)
    (hmem : ∀ s ∈ segments, s ∈ Segment.ofText r.sigil text)
    (hvalues : ∀ name value, r.Reaches text name → r.bindings.find? name = some value →
      ∃ height out, r.Substitutes (Segment.ofText r.sigil value) height out) :
    ∃ height out, r.Substitutes segments height out := by
  induction segments with
  | nil => exact ⟨0, [], .nil⟩
  | cons s rest ih =>
    obtain ⟨hs, hmem⟩ := List.forall_mem_cons.mp hmem
    obtain ⟨height, out, hrest⟩ := ih hmem
    cases s with
    | literal t => exact ⟨height, t ++ out, hrest.literal t⟩
    | reference form name =>
      obtain ⟨value, hvalue, _⟩ := h.exists_closed hs
      obtain ⟨inner, t, hfirst⟩ := hvalues name value (.direct form hs) hvalue
      exact ⟨max (inner + 1) height, t ++ out, .reference form hvalue hfirst hrest⟩

/-- A value that is reached without a cycle does not reach its own variable again, so the variables
that are left run out. -/
lemma exists_substitutes (left : List Text) (h : r.Closed text) (hacyclic : ¬r.Cyclic text)
    (hleft : ∀ name, r.Reaches text name → name ∈ left) :
    ∃ height out, r.Substitutes (Segment.ofText r.sigil text) height out := by
  induction hn : left.length using Nat.strongRecOn generalizing left text with
  | ind n ih =>
    refine exists_substitutes_segments h (fun s hs => hs) fun name value hname hvalue => ?_
    have hmem := hleft name hname
    have hfewer : (left.erase name).length < n := by
      rw [List.length_erase_of_mem hmem, ← hn]
      exact Nat.pred_lt (List.length_pos_of_mem hmem).ne'
    refine ih _ hfewer _ (h.of_reaches hname hvalue)
      (fun hc => hacyclic (hc.of_value hname hvalue)) (fun other hother => ?_) rfl
    have hne : other ≠ name := by
      rintro rfl
      exact hacyclic ⟨other, value, hname, hvalue, hother⟩
    exact (List.mem_erase_of_ne hne).mpr (hleft other (hname.after hvalue hother))

/-- Each variable that is being expanded is another one of the bound variables. -/
lemma Open.length_le (h : Open r active levels text) :
    active.names.length ≤ r.bindings.names.length := by
  refine (List.Nodup.subperm active.unique fun name hname => ?_).length_le
  obtain ⟨entered, hentered⟩ :=
    Option.isSome_iff_exists.mp ((active.contains_iff_mem_names name).mpr hname)
  obtain ⟨_, value, hvalue, _⟩ := h name entered hentered
  exact (r.bindings.contains_iff_mem_names name).mp (Option.isSome_of_eq_some hvalue)

/-- A rebuilding that runs out of levels does so in a value whose variable was not being
expanded. -/
lemma exists_value_of_tooDeep {limit : Nat} (hl : levels ≤ r.limit)
    (hopen : Open r active (levels + 1) text)
    (hmem : ∀ s ∈ segments, s ∈ Segment.ofText r.sigil text)
    (he : r.rebuild (r.resolveAt levels) (r.limit - levels) segments active =
      .error (.nestingTooDeep limit)) :
    ∃ form name value, .reference form name ∈ Segment.ofText r.sigil text ∧
      r.bindings.find? name = some value ∧ active.find? name = none ∧
      r.resolveAt levels value (active.put name (r.limit - levels)) =
        .error (.nestingTooDeep limit) := by
  induction segments with
  | nil => simp [rebuild] at he
  | cons s rest ih =>
    obtain ⟨hs, hmem⟩ := List.forall_mem_cons.mp hmem
    have hrest := ih hmem
    cases s with
    | literal t =>
      obtain he | ⟨tail, _, he⟩ := bind_eq_error_iff.mp he
      · exact hrest he
      · simp at he
    | reference form name =>
      cases hname : r.bindings.find? name with
      | none =>
        simp only [rebuild, hname] at he
        obtain he | ⟨tail, _, he⟩ := bind_eq_error_iff.mp he
        · exact hrest he
        · cases hu : r.undefined <;> simp [hu] at he
      | some value =>
        simp only [rebuild, hname, isCycle_eq_isSome hopen] at he
        cases hfound : active.find? name with
        | some entered => simp [hfound] at he
        | none =>
          simp only [hfound, Option.isSome_none, Bool.false_eq_true, if_false] at he
          obtain he | ⟨expanded, hexpanded, he⟩ := bind_eq_error_iff.mp he
          · exact ⟨form, name, value, hs, hname, hfound, he⟩
          · have hput := (hopen.deeper (needs_value hs hname)).put hl hname
            have hactive := (hexpanded ▸ resolveAt_agrees (by omega) hput).of_ok.2
            rw [hactive, Table.erase_put _ hfound] at he
            obtain he | ⟨tail, _, he⟩ := bind_eq_error_iff.mp he
            · exact hrest he
            · simp at he

/-- Every level that is used up is one more variable being expanded. Only the first pass over a
text can run out of levels, since the second one adds nothing. -/
lemma levels_le_of_tooDeep {limit : Nat} (hl : levels ≤ r.limit + 1)
    (hopen : Open r active levels text) (h : r.Closed text)
    (he : r.resolveAt levels text active = .error (.nestingTooDeep limit)) :
    levels + active.names.length ≤ r.bindings.names.length := by
  induction levels generalizing text active with
  | zero =>
    rw [Nat.zero_add]
    exact hopen.length_le
  | succ levels ih =>
    have hl : levels ≤ r.limit := by omega
    have hagrees := rebuild_agrees hl (fun _ _ h => resolveAt_agrees (by omega) h) hopen
      fun s hs => hs
    have hfill := uncheckedAt_succ_of_closed h levels
    cases hbuilt : r.rebuild (r.resolveAt levels) (r.limit - levels)
        (Segment.ofText r.sigil text) active with
    | ok built =>
      -- a rebuilding that succeeds is already the whole, with the check as without it
      rw [hbuilt] at hagrees
      have hwhole := resolveAt_agrees (by omega) hopen
      rw [he, hfill, hagrees.of_ok.1] at hwhole
      cases hwhole
    | error e =>
      obtain rfl : e = .nestingTooDeep limit := by
        simpa [resolveAt, hbuilt] using he
      obtain ⟨form, name, value, hs, hname, hfound, hvalue⟩ :=
        exists_value_of_tooDeep hl hopen (fun s hs => hs) hbuilt
      have hput := (hopen.deeper (needs_value hs hname)).put hl hname
      have hfewer := ih (by omega) hput (h.of_reaches (.direct form hs) hname) hvalue
      rw [Table.names_put _ hfound, List.length_append, List.length_singleton] at hfewer
      omega

lemma Cyclic.fault (h : r.Cyclic text) :
    r.resolve text = .error (.nestingTooDeep r.limit) ∨
      ∃ name, r.resolve text = .error (.variableCycle name) := by
  obtain ⟨out, _, hu⟩ | ⟨hr, _⟩ | ⟨name, _, _, hr, _⟩ := resolve_cases r text
  · exact absurd ⟨out, hu⟩ (h.not_endsIn _)
  · exact .inl hr
  · exact .inr ⟨name, hr⟩

lemma exists_cycle_of_cyclic (h : r.Closed text) (hcyclic : r.Cyclic text)
    (hlimit : r.bindings.names.length ≤ r.limit) :
    ∃ name, r.resolve text = .error (.variableCycle name) := by
  obtain hr | hcycle := hcyclic.fault
  · obtain he | ⟨built, _, he⟩ := bind_eq_error_iff.mp hr
    · have hle := levels_le_of_tooDeep (Nat.le_refl _) open_empty h he
      omega
    · simp at he
  · exact hcycle

/-- Resolution is recursive substitution. A text without a cycle has a height, and is resolved just
when the limit is not below it. A text with a cycle is found out where the limit allows one level
for each variable. -/
theorem resolve_substitutes {r : Resolver} {text : Text} (h : r.Closed text) :
    (¬r.Cyclic text ↔ ∃ height out, r.Substitutes (Segment.ofText r.sigil text) height out) ∧
    (∀ height out, r.Substitutes (Segment.ofText r.sigil text) height out →
      r.resolve text =
        if height ≤ r.limit then .ok ⟨out, hasReferences r.sigil text⟩
        else .error (.nestingTooDeep r.limit)) ∧
    (r.Cyclic text → r.bindings.names.length ≤ r.limit →
      ∃ name, r.resolve text = .error (.variableCycle name)) := by
  refine ⟨⟨fun hacyclic => ?_, ?_⟩, fun height out hsub => ?_, exists_cycle_of_cyclic h⟩
  · refine exists_substitutes r.bindings.names h hacyclic fun name hname => ?_
    obtain ⟨value, hvalue⟩ := h.bound hname
    exact (r.bindings.contains_iff_mem_names name).mp (Option.isSome_of_eq_some hvalue)
  · rintro ⟨height, out, hsub⟩ hcyclic
    exact hcyclic.not_endsIn _ (endsIn_of_substitutes h hsub)
  · rw [resolve_of_endsIn (endsIn_of_substitutes h hsub)]
    exact uncheckedAt_of_substitutes h hsub r.limit

/-- A variable used twice on the way adds to the height once, and the limit decides at the height
itself. Two variables that refer to each other are a cycle under a limit of two. -/
theorem resolve_substitutes_doubled :
    let r (limit : Nat) : Resolver :=
      ⟨.ofList [(['a'], ['$', '{', 'b', '}', '-', '$', '{', 'b', '}']), (['b'], ['d'])], '$', .keep,
        limit⟩
    let twins : Resolver :=
      ⟨.ofList [(['a'], ['$', '$', 'b']), (['b'], ['$', '$', 'a'])], '$', .keep, 2⟩
    let text : Text := ['x', '$', '$', 'a']
    let out : Text := ['x', 'd', '-', 'd']
    (∀ limit, (r limit).Closed text ∧
      (r limit).Substitutes (Segment.ofText (r limit).sigil text) 2 out) ∧
    (r 2).resolve text = .ok ⟨out, true⟩ ∧ (r 1).resolve text = .error (.nestingTooDeep 1) ∧
    twins.Closed text ∧ twins.Cyclic text ∧
      ∃ name, twins.resolve text = .error (.variableCycle name) := by
  intro r twins text out
  have htext : Segment.ofText '$' text = [.literal ['x'], .reference .plain ['a']] := by cbv
  have hclosed (limit : Nat) : (r limit).Closed text := closed_of_rows (by cbv) (by cbv)
  have hsub (limit : Nat) : (r limit).Substitutes (Segment.ofText (r limit).sigil text) 2 out := by
    have ha : (r limit).bindings.find? ['a'] =
        some ['$', '{', 'b', '}', '-', '$', '{', 'b', '}'] := by cbv
    have hb : (r limit).bindings.find? ['b'] = some ['d'] := by cbv
    have hb' : (r limit).Substitutes (Segment.ofText '$' ['d']) 0 ['d'] := by
      rw [show Segment.ofText '$' ['d'] = [.literal ['d']] by cbv]
      exact (Substitutes.nil.literal ['d'] :)
    have hlast := Substitutes.reference .braced hb hb' .nil
    have ha' : (r limit).Substitutes
        (Segment.ofText '$' ['$', '{', 'b', '}', '-', '$', '{', 'b', '}']) 1 ['d', '-', 'd'] := by
      rw [show Segment.ofText '$' ['$', '{', 'b', '}', '-', '$', '{', 'b', '}'] =
        [.reference .braced ['b'], .literal ['-'], .reference .braced ['b']] by cbv]
      exact (Substitutes.reference .braced hb hb' (hlast.literal ['-']) :)
    exact htext ▸ ((Substitutes.reference .plain ha ha' .nil).literal ['x'] :)
  have hresolve (limit : Nat) : (r limit).resolve text =
      if 2 ≤ limit then .ok ⟨out, true⟩ else .error (.nestingTooDeep limit) := by
    have hchanged : hasReferences '$' text = true := by cbv
    exact hchanged ▸ (resolve_substitutes (hclosed limit)).2.1 2 out (hsub limit)
  have htwins : twins.Closed text := closed_of_rows (by cbv) (by cbv)
  have hcyclic : twins.Cyclic text := by
    have ha : twins.bindings.find? ['a'] = some ['$', '$', 'b'] := by cbv
    have hb : twins.bindings.find? ['b'] = some ['$', '$', 'a'] := by cbv
    have hvalueA : Segment.ofText '$' ['$', '$', 'b'] = [.reference .plain ['b']] := by cbv
    have hvalueB : Segment.ofText '$' ['$', '$', 'a'] = [.reference .plain ['a']] := by cbv
    have hname : twins.Reaches text ['a'] :=
      .direct .plain (htext ▸ List.mem_cons_of_mem _ (List.mem_cons_self ..))
    have hother : twins.Reaches ['$', '$', 'b'] ['b'] :=
      .direct .plain (hvalueA ▸ List.mem_cons_self ..)
    exact ⟨['a'], ['$', '$', 'b'], hname, ha,
      hother.through .plain hb (hvalueB ▸ List.mem_cons_self ..)⟩
  exact ⟨fun limit => ⟨hclosed limit, hsub limit⟩, hresolve 2, hresolve 1, htwins, hcyclic,
    (resolve_substitutes htwins).2.2 hcyclic (by cbv)⟩

/-- A text that leads to a cycle of variables is not resolved, whatever else its variables hold.
Either a variable is reported or the levels run out first, and what is reported is bound. -/
theorem resolve_of_cyclic (r : Resolver) (text : Text) :
    (r.Cyclic text → r.resolve text = .error (.nestingTooDeep r.limit) ∨
      ∃ name, r.resolve text = .error (.variableCycle name)) ∧
    ∀ name, r.resolve text = .error (.variableCycle name) →
      ∃ value, r.bindings.find? name = some value :=
  ⟨Cyclic.fault, fun _ => exists_value_of_cycle⟩

/-- One variable refers to itself. Another one comes to do so once a stray sigil is put before its
name, and is the one reported. -/
theorem resolve_of_cyclic_seam :
    let r (limit : Nat) : Resolver :=
      ⟨.ofList [(['p'], ['$']), (['e'], ['$', '$', 'p', '$', 'e']), (['c'], ['$', '$', 'c'])], '$',
        .keep, limit⟩
    let text : Text := ['$', '$', 'e', '$', '$', 'c']
    (∀ limit, (r limit).Cyclic text ∧
      ((r limit).resolve text = .error (.nestingTooDeep limit) ∨
        ∃ name, (r limit).resolve text = .error (.variableCycle name))) ∧
    (r 1).resolve text = .error (.nestingTooDeep 1) ∧
    (r 2).resolve text = .error (.variableCycle ['e']) ∧
      ∃ value, (r 2).bindings.find? ['e'] = some value := by
  intro r text
  have htext : Segment.ofText '$' text = [.reference .plain ['e'], .reference .plain ['c']] := by cbv
  have hvalue : Segment.ofText '$' ['$', '$', 'c'] = [.reference .plain ['c']] := by cbv
  have hcyclic (limit : Nat) : (r limit).Cyclic text := by
    have hc : (r limit).bindings.find? ['c'] = some ['$', '$', 'c'] := by cbv
    have hname : (r limit).Reaches text ['c'] :=
      .direct .plain (htext ▸ List.mem_cons_of_mem _ (List.mem_cons_self ..))
    exact ⟨['c'], ['$', '$', 'c'], hname, hc, .direct .plain (hvalue ▸ List.mem_cons_self ..)⟩
  have hseam : (r 2).resolve text = .error (.variableCycle ['e']) := by cbv
  exact ⟨fun limit => ⟨hcyclic limit, (resolve_of_cyclic (r limit) text).1 (hcyclic limit)⟩, by cbv,
    hseam, (resolve_of_cyclic (r 2) text).2 ['e'] hseam⟩

end ParamLang.Resolver
