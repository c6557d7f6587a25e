import ParamLang.Proofs.Grouping

/-! Entries that are pulled out of a fragment one at a time. A reader takes no more tokens than it
needs for the next entry and keeps the literal that it read too far. Its items are the entries that
the whole fragment is assembled into, and at every moment they are in step with the tokens read. -/
namespace ParamLang

/-- An entry, or the fault that ends the reading. -/
abbrev Item := Except Misread Entry

/-- What a run gives out item by item. -/
def EntryRun.items (run : EntryRun) : List Item :=
  run.entries.map .ok ++ (run.misread.map .error).toList

/-- Where a reader stands between two items: at the beginning of an entry, after a literal that is
part of the next one, or at the end of the reading. -/
inductive Stage
  | fresh
  | named (name : Text)
  | ended
  deriving DecidableEq, Repr

/-- The tokens that are read but not given out as part of an entry. -/
def Stage.pending : Stage → List Token
  | fresh => []
  | named name => [.literal name]
  | ended => []

structure EntryReader where
  stage : Stage
  cursor : Cursor

namespace EntryReader

def ofText (fragment : Text) : EntryReader := ⟨.fresh, .start fragment⟩

/-- The next item, if there is one, and the reader after it. -/
abbrev Pulled := Option Item × EntryReader

def fail (misread : Misread) (c : Cursor) : Pulled := (some (.error misread), ⟨.ended, c⟩)

/-- A value without a name, known as such when the reading stands at `position`. -/
def giveValue (policy : IsolatedPolicy) (value : Text) (position : Nat) (after : EntryReader) :
    Pulled :=
  match policy with
  | .allowed => (some (.ok (.value value)), after)
  | .forbidden => fail ⟨.isolatedValue, position - 1⟩ after.cursor

def pullValue (m : Marks) (name : Text) (c : Cursor) : Pulled :=
  match Cursor.step m c with
  | .token (.literal value) after => (some (.ok (.pair name value)), ⟨.fresh, after⟩)
  | .token .separator after => fail ⟨.danglingSeparator, after.position - 1⟩ after
  | .done position => fail ⟨.danglingSeparator, position - 1⟩ c
  | .broken misread => fail misread c

def pullNamed (policy : IsolatedPolicy) (m : Marks) (name : Text) (c : Cursor) : Pulled :=
  match Cursor.step m c with
  | .token (.literal next) after => giveValue policy name after.position ⟨.named next, after⟩
  | .token .separator after => pullValue m name after
  | .done position => giveValue policy name position ⟨.ended, c⟩
  | .broken misread => fail misread c

def pullFresh (policy : IsolatedPolicy) (m : Marks) (c : Cursor) : Pulled :=
  match Cursor.step m c with
  | .token (.literal name) after => pullNamed policy m name after
  | .token .separator after => fail ⟨.misplacedSeparator, after.position - 1⟩ after
  | .done _ => (none, ⟨.ended, c⟩)
  | .broken misread => fail misread c

def pull (policy : IsolatedPolicy) (m : Marks) (r : EntryReader) : Pulled :=
  match r.stage with
  | .fresh => pullFresh policy m r.cursor
  | .named name => pullNamed policy m name r.cursor
  | .ended => (none, r)

/-- Items pulled one after the other. -/
inductive Yields (policy : IsolatedPolicy) (m : Marks) :
    EntryReader → List Item → EntryReader → Prop
  | stop (r : EntryReader) : Yields policy m r [] r
  | pull {r mid last : EntryReader} {item : Item} {items : List Item}
      (hpull : r.pull policy m = (some item, mid)) (rest : Yields policy m mid items last) :
      Yields policy m r (item :: items) last

/-- The items pulled from a reader until there is none. -/
def Ends (policy : IsolatedPolicy) (m : Marks) (r : EntryReader) (items : List Item) : Prop :=
  ∃ last, Yields policy m r items last ∧ ∃ ended, last.pull policy m = (none, ended) ∧
    ended.stage = .ended

variable {policy : IsolatedPolicy} {m : Marks} {r mid last : EntryReader} {item : Item}
  {items : List Item} {misread : Misread} {c : Cursor} {name value : Text} {position : Nat}

lemma Ends.none {ended : EntryReader} (h : r.pull policy m = (none, ended))
    (hended : ended.stage = .ended) : Ends policy m r [] :=
  ⟨r, .stop r, ended, h, hended⟩

lemma Ends.cons (h : r.pull policy m = (some item, mid)) (hmid : Ends policy m mid items) :
    Ends policy m r (item :: items) := by
  obtain ⟨last, hyields, hlast⟩ := hmid
  exact ⟨last, .pull h hyields, hlast⟩

lemma ends_of_fail (h : r.pull policy m = fail misread c) : Ends policy m r [.error misread] :=
  .cons h (.none rfl rfl)

lemma ends_of_giveValue {after : EntryReader} (run : EntryRun)
    (h : r.pull policy m = giveValue policy value position after)
    (hafter : Ends policy m after run.items) :
    Ends policy m r (EntryRun.isolated policy value position run).items := by
  cases policy with
  | allowed => exact .cons h hafter
  | forbidden => exact ends_of_fail h

lemma ends_of_pullValue (hr : r.pull policy m = pullValue m name c)
    (hfresh : ∀ after : Cursor, after.rest.length < c.rest.length →
      Ends policy m ⟨.fresh, after⟩ (EntryRun.ofTokens policy (TokenRun.ofCursor m after)).items)
    (p q : Nat) : Ends policy m r (EntryRun.ofTokens policy
      (((TokenRun.ofCursor m c).push .separator q).push (.literal name) p)).items := by
  cases hstep : Cursor.step m c with
  | token token after =>
    rw [TokenRun.ofCursor_of_token hstep]
    cases token with
    | literal value =>
      simp only [pullValue, hstep] at hr
      exact .cons hr (hfresh after (Cursor.step_rest_length hstep))
    | separator =>
      simp only [pullValue, hstep] at hr
      exact ends_of_fail hr
  | done position =>
    simp only [pullValue, hstep] at hr
    rw [TokenRun.ofCursor_of_done hstep]
    exact ends_of_fail hr
  | broken misread =>
    simp only [pullValue, hstep] at hr
    rw [TokenRun.ofCursor_of_broken hstep]
    exact ends_of_fail hr

/-- Pulling from the middle of a fragment gives what the rest of its tokens is assembled into. -/
lemma ends_ofCursor (policy : IsolatedPolicy) (m : Marks) (c : Cursor) :
    (∀ r : EntryReader, r.pull policy m = pullFresh policy m c →
      Ends policy m r (EntryRun.ofTokens policy (TokenRun.ofCursor m c)).items) ∧
    (∀ (r : EntryReader) (name : Text) (p : Nat), r.pull policy m = pullNamed policy m name c →
      Ends policy m r (EntryRun.ofTokens policy
        ((TokenRun.ofCursor m c).push (.literal name) p)).items) := by
  induction hlength : c.rest.length using Nat.strong_induction_on generalizing c with
  | _ length ih =>
  subst hlength
  refine ⟨fun r hr => ?_, fun r name p hr => ?_⟩
  · cases hstep : Cursor.step m c with
    | token token after =>
      have hafter := ih _ (Cursor.step_rest_length hstep) after rfl
      rw [TokenRun.ofCursor_of_token hstep]
      cases token with
      | literal name =>
        simp only [pullFresh, hstep] at hr
        exact hafter.2 r name after.position hr
      | separator =>
        simp only [pullFresh, hstep] at hr
        exact ends_of_fail hr
    | done position =>
      simp only [pullFresh, hstep] at hr
      rw [TokenRun.ofCursor_of_done hstep]
      exact .none hr rfl
    | broken misread =>
      simp only [pullFresh, hstep] at hr
      rw [TokenRun.ofCursor_of_broken hstep]
      exact ends_of_fail hr
  · cases hstep : Cursor.step m c with
    | token token after =>
      have hafter := ih _ (Cursor.step_rest_length hstep) after rfl
      rw [TokenRun.ofCursor_of_token hstep]
      cases token with
      | literal next =>
        simp only [pullNamed, hstep] at hr
        exact ends_of_giveValue _ hr (hafter.2 ⟨.named next, after⟩ next after.position rfl)
      | separator =>
        simp only [pullNamed, hstep] at hr
        refine ends_of_pullValue hr (fun next hnext => ?_) p after.position
        have hlength := hnext.trans (Cursor.step_rest_length hstep)
        exact (ih _ hlength next rfl).1 ⟨.fresh, next⟩ rfl
    | done position =>
      simp only [pullNamed, hstep] at hr
      rw [TokenRun.ofCursor_of_done hstep]
      exact ends_of_giveValue ⟨[], none⟩ hr (.none rfl rfl)
    | broken misread =>
      simp only [pullNamed, hstep] at hr
      rw [TokenRun.ofCursor_of_broken hstep]
      exact ends_of_fail hr

/-- Pulling item by item gives the entries that the whole fragment is assembled into, and then its
fault, if it has one. -/
lemma ends_ofText (policy : IsolatedPolicy) (m : Marks) (t : Text) :
    Ends policy m (ofText t) (EntryRun.ofText policy m t).items :=
  (ends_ofCursor policy m (.start t)).1 (ofText t) rfl

end EntryReader

namespace Cursor

/-- The tokens read on the way from one cursor to another. -/
inductive Reads (m : Marks) : Cursor → List Token → Cursor → Prop
  | stop (c : Cursor) : Reads m c [] c
  | token {c mid after : Cursor} {token : Token} {tokens : List Token}
      (hstep : step m c = .token token mid) (rest : Reads m mid tokens after) :
      Reads m c (token :: tokens) after

variable {m : Marks} {c mid after : Cursor} {token : Token} {tokens tokens' : List Token}

lemma Reads.append (h : Reads m c tokens mid) (h' : Reads m mid tokens' after) :
    Reads m c (tokens ++ tokens') after := by
  induction h with
  | stop c => exact h'
  | token hstep rest ih => exact .token hstep (ih h')

lemma Reads.single (h : step m c = .token token after) : Reads m c [token] after :=
  .token h (.stop after)

end Cursor

/-- Entries that tokens begin with, each of them a whole group of the tokens. -/
def BeginsWith (tokens : List Token) (es : List Entry) : Prop :=
  ∃ rest, tokens = es.flatMap Entry.tokens ++ rest ∧ Parted es rest

namespace EntryReader

variable {policy : IsolatedPolicy} {m : Marks} {r mid last : EntryReader} {item : Item}
  {items : List Item} {misread : Misread} {c : Cursor} {name value : Text} {position : Nat}
  {es : List Entry} {tokens : List Token}

/-- What a pull does with the tokens that it reads, those that were pending in front of them. -/
inductive Takes : List Token → Pulled → Prop
  | entry (e : Entry) (after : EntryReader) (hfresh : after.stage = .fresh → ∀ v, e ≠ .value v) :
      Takes (e.tokens ++ after.stage.pending) (some (.ok e), after)
  | fault (tokens : List Token) (misread : Misread) (c : Cursor) : Takes tokens (fail misread c)
  | done {after : EntryReader} (h : after.stage = .ended) : Takes [] (none, after)

lemma takes_giveValue (policy : IsolatedPolicy) (value : Text) (position : Nat)
    (after : EntryReader) (hfresh : after.stage ≠ .fresh) :
    Takes (.literal value :: after.stage.pending) (giveValue policy value position after) := by
  cases policy with
  | allowed => exact .entry (.value value) after fun h => absurd h hfresh
  | forbidden => exact .fault _ _ _

lemma giveValue_cursor (policy : IsolatedPolicy) (value : Text) (position : Nat)
    (after : EntryReader) : (giveValue policy value position after).2.cursor = after.cursor := by
  cases policy <;> rfl

lemma pullValue_takes (m : Marks) (name : Text) (c : Cursor) :
    ∃ tokens, Cursor.Reads m c tokens (pullValue m name c).2.cursor ∧
      Takes (.literal name :: .separator :: tokens) (pullValue m name c) := by
  unfold pullValue
  split
  · rename_i value after hstep
    exact ⟨_, .single hstep, .entry (.pair name value) ⟨.fresh, after⟩ (by simp)⟩
  · rename_i after hstep
    exact ⟨_, .single hstep, .fault _ _ _⟩
  · exact ⟨_, .stop c, .fault _ _ _⟩
  · exact ⟨_, .stop c, .fault _ _ _⟩

lemma pullNamed_takes (policy : IsolatedPolicy) (m : Marks) (name : Text) (c : Cursor) :
    ∃ tokens, Cursor.Reads m c tokens (pullNamed policy m name c).2.cursor ∧
      Takes (.literal name :: tokens) (pullNamed policy m name c) := by
  unfold pullNamed
  split
  · rename_i next after hstep
    refine ⟨[.literal next], ?_, takes_giveValue policy name _ ⟨.named next, after⟩ (by simp)⟩
    rw [giveValue_cursor]
    exact .single hstep
  · rename_i after hstep
    obtain ⟨tokens, hreads, htakes⟩ := pullValue_takes m name after
    exact ⟨_, .token hstep hreads, htakes⟩
  · rename_i position hstep
    refine ⟨[], ?_, takes_giveValue policy name position ⟨.ended, c⟩ (by simp)⟩
    rw [giveValue_cursor]
    exact .stop c
  · exact ⟨_, .stop c, .fault _ _ _⟩

/-- A pull reads some tokens and takes them, after those that were pending, for its item. -/
lemma pull_takes (policy : IsolatedPolicy) (m : Marks) (r : EntryReader) :
    ∃ tokens, Cursor.Reads m r.cursor tokens (r.pull policy m).2.cursor ∧
      Takes (r.stage.pending ++ tokens) (r.pull policy m) := by
  obtain ⟨stage, c⟩ := r
  cases stage with
  | fresh =>
    simp only [pull, pullFresh, Stage.pending]
    split
    · rename_i name after hstep
      obtain ⟨tokens, hreads, htakes⟩ := pullNamed_takes policy m name after
      exact ⟨_, .token hstep hreads, htakes⟩
    · rename_i after hstep
      exact ⟨_, .single hstep, .fault _ _ _⟩
    · exact ⟨_, .stop c, .done rfl⟩
    · exact ⟨_, .stop c, .fault _ _ _⟩
  | named name => exact pullNamed_takes policy m name c
  | ended => exact ⟨[], .stop c, .done rfl⟩

/-- Entries that a reader has given out, beside all the tokens that it has read. A reader at the
beginning of an entry has just completed a pair, so no separator can change the entries before. -/
def InStep (es : List Entry) (tokens : List Token) (stage : Stage) : Prop :=
  tokens = es.flatMap Entry.tokens ++ stage.pending ∧
    (stage = .fresh → ∀ v, es.getLast? ≠ some (.value v))

lemma InStep.beginsWith {stage : Stage} (h : InStep es tokens stage) : BeginsWith tokens es := by
  refine ⟨stage.pending, h.1, ?_⟩
  cases stage with
  | fresh => exact parted_nil es
  | named name => exact parted_literal es name []
  | ended => exact parted_nil es

/-- Further tokens may follow, whatever they are. -/
lemma InStep.beginsWith_append {stage : Stage} (h : InStep es tokens stage)
    (hstage : stage ≠ .ended) (more : List Token) : BeginsWith (tokens ++ more) es := by
  refine ⟨stage.pending ++ more, by rw [h.1, List.append_assoc], ?_⟩
  cases stage with
  | fresh => exact fun _ => h.2 rfl
  | named name => exact parted_literal es name more
  | ended => exact absurd rfl hstage

/-- Entries as the items that they are given out as, and a fault after them if there is one. -/
def ItemsOf (es : List Entry) (items : List Item) : Prop :=
  items = es.map .ok ∨ ∃ misread, items = es.map .ok ++ [.error misread]

lemma Yields.of_ended (h : Yields policy m r items last) (hended : r.stage = .ended) :
    items = [] ∧ last = r := by
  cases h with
  | stop r => exact ⟨rfl, rfl⟩
  | pull hpull rest => simp [EntryReader.pull, hended] at hpull

/-- Reading on keeps the entries in step with the tokens, and a fault ends the reading. -/
lemma Yields.beginsWith {start : Cursor} (h : Yields policy m r items last)
    (hreads : Cursor.Reads m start tokens r.cursor) (hstep : InStep es tokens r.stage) :
    ∃ more tokens', ItemsOf more items ∧ Cursor.Reads m start tokens' last.cursor ∧
      BeginsWith tokens' (es ++ more) := by
  induction h generalizing es tokens with
  | stop r => exact ⟨[], tokens, .inl rfl, hreads, by simpa using hstep.beginsWith⟩
  | @pull r mid last item items hpull rest ih =>
    obtain ⟨read, hread, htakes⟩ := pull_takes policy m r
    rw [hpull] at hread htakes
    have hreads' := hreads.append hread
    generalize htaken : r.stage.pending ++ read = taken at htakes
    cases htakes with
    | entry e mid hfresh =>
      have hmid : InStep (es ++ [e]) (tokens ++ read) mid.stage := by
        refine ⟨?_, fun h v => by simpa using hfresh h v⟩
        rw [hstep.1, List.append_assoc, htaken]
        simp
      obtain ⟨more, tokens', hitems, hlast, hbegins⟩ := ih hreads' hmid
      refine ⟨e :: more, tokens', ?_, hlast, by simpa using hbegins⟩
      obtain rfl | ⟨misread, rfl⟩ := hitems
      · exact .inl rfl
      · exact .inr ⟨misread, rfl⟩
    | fault taken misread c =>
      have hstage : r.stage ≠ .ended := by
        intro h
        simp [EntryReader.pull, h] at hpull
      obtain ⟨rfl, rfl⟩ := rest.of_ended rfl
      exact ⟨[], tokens ++ read, .inr ⟨misread, rfl⟩, hreads',
        by simpa using hstep.beginsWith_append hstage read⟩

lemma Yields.ofText_beginsWith {t : Text} (h : Yields policy m (ofText t) items last) :
    ∃ es tokens, ItemsOf es items ∧ Cursor.Reads m (.start t) tokens last.cursor ∧
      BeginsWith tokens es := by
  have hstep : InStep [] [] Stage.fresh := ⟨rfl, by simp⟩
  simpa using h.beginsWith (.stop (.start t)) hstep

end EntryReader

/-- Scanning accepts just the fragments whose tokens are those of entries and blames the first
fault of any other. Where values without a name are forbidden, it accepts those with pairs alone.
Pulled one at a time under either policy, the items are the entries of the fragment and then its
fault, if it has one, and the entries are at every moment those that the tokens read begin with. -/
theorem entries_grammar (m : Marks) (t : Text) :
    (∀ tokens, (TokenRun.ofText m t).Gives tokens →
      (∀ es, scan m t = .ok es ↔ tokens = es.flatMap Entry.tokens) ∧
      (∀ kind, (∃ position, scan m t = .error (Misread.fault ⟨kind, position⟩ t)) ↔
        GroupFault tokens kind) ∧
      ((∃ es : List Entry, tokens = es.flatMap Entry.tokens) ∨ ∃ kind, GroupFault tokens kind)) ∧
    (∀ es, EntryRun.ofText .forbidden m t = ⟨es, none⟩ ↔
      scan m t = .ok es ∧ ∀ e ∈ es, ∃ name v, e = .pair name v) ∧
    ∀ policy, EntryReader.Ends policy m (.ofText t) (EntryRun.ofText policy m t).items ∧
      ∀ items last, EntryReader.Yields policy m (.ofText t) items last →
        ∃ es tokens, EntryReader.ItemsOf es items ∧ Cursor.Reads m (.start t) tokens last.cursor ∧
          BeginsWith tokens es := by
  refine ⟨fun tokens hrun => ⟨?_, ?_, groups_or_fault tokens⟩, ?_, fun policy => ⟨?_, ?_⟩⟩
  · exact fun es => scan_eq_ok_iff_of_gives hrun
  · exact fun kind => scan_eq_error_iff_of_gives hrun
  · exact fun es => ofText_forbidden_iff
  · exact EntryReader.ends_ofText policy m t
  · exact fun items last h => h.ofText_beginsWith

/-- A value, and then a name with two separators after it. The value is given out when the name has
been read, before the fault is met. -/
theorem entries_grammar_doubled :
    let t : Text := ['a', ' ', 'b', '=', '=', 'c']
    let tokens : List Token :=
      [.literal ['a'], .literal ['b'], .separator, .separator, .literal ['c']]
    let mid : EntryReader := ⟨.named ['b'], ⟨3, ['=', '=', 'c']⟩⟩
    (TokenRun.ofText .standard t).Gives tokens ∧
      (∃ position, scan .standard t = .error (Misread.fault ⟨.danglingSeparator, position⟩ t)) ∧
      EntryReader.Yields .allowed .standard (.ofText t) [.ok (.value ['a'])] mid ∧
      ∃ es read, EntryReader.ItemsOf es [.ok (.value ['a'])] ∧
        Cursor.Reads .standard (.start t) read mid.cursor ∧ BeginsWith read es := by
  intro t tokens mid
  have hgives : (TokenRun.ofText .standard t).Gives tokens := ⟨by cbv, 6, by cbv⟩
  have hyields : EntryReader.Yields .allowed .standard (.ofText t) [.ok (.value ['a'])] mid :=
    .pull (by cbv) (.stop mid)
  have hfault : GroupFault tokens .danglingSeparator :=
    @GroupFault.dangling [.value ['a']] ['b'] [.separator, .literal ['c']] (by simp)
  obtain ⟨hscan, -, hpulling⟩ := entries_grammar .standard t
  exact ⟨hgives, ((hscan tokens hgives).2.1 _).mpr hfault, hyields,
    (hpulling .allowed).2 _ mid hyields⟩

end ParamLang
