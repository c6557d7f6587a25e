import ParamLang.Proofs.Registry.Moment
import ParamLang.Proofs.Registry.Structure

/-! What a failure leaves behind. Nothing is taken back, but the entry that fails has done nothing
yet, unless it is a reset or has brought in other entries. -/
namespace ParamLang

namespace Outcome

/-- The memory is as it was before, and nothing was dumped. -/
def NoEffect (m : Memory) (o : Outcome) : Prop := o.memory = m ∧ o.dumped = []

variable {α : Type} {act : α → Memory → Outcome} {fault : Fault}

lemma andThen_congr {o : Outcome} {next next' : Memory → Outcome}
    (h : next o.memory = next' o.memory) : o.andThen next = o.andThen next' := by
  cases hfault : o.fault <;> simp [andThen, hfault, h]

/-- A list that is not gone through to its end is left at one element, with those before it done. -/
lemma each_failure {as : List α} {m : Memory} (h : (each act as m).fault = some fault) :
    ∃ before a after, as = before ++ a :: after ∧ (each act before m).fault = none ∧
      (act a (each act before m).memory).fault = some fault ∧
        each act as m = (each act before m).andThen (act a) := by
  induction as generalizing m with
  | nil => simp [each, unchanged] at h
  | cons a as ih =>
    cases hfirst : (act a m).fault with
    | some first =>
      have heach : each act (a :: as) m = act a m := by simp [each, andThen, hfirst]
      refine ⟨[], a, as, rfl, rfl, heach ▸ h, heach.trans ?_⟩
      rw [each, unchanged_andThen]
    | none =>
      have heach (bs : List α) : each act (a :: bs) m = (act a m).andThen (each act bs) := rfl
      have hrest : (each act as (act a m).memory).fault = some fault := by
        simpa [heach, andThen, hfirst] using h
      obtain ⟨before, b, after, rfl, hbefore, hb, hsplit⟩ := ih hrest
      refine ⟨a :: before, b, after, rfl, ?_, ?_, ?_⟩
      · simpa [heach, andThen, hfirst] using hbefore
      · simpa [heach, andThen, hfirst] using hb
      · simp [heach, andThen, hfirst, hsplit, hbefore]

end Outcome

namespace Moment

def IsReset (now : Moment) : Prop :=
  ∃ name operand, now.entry = .pair name operand ∧
    Interpret.HasRole now.settings now.memory name (.directive .reset)

/-- Other entries are interpreted in the place of the entry, for which a level has to be left. -/
def BringsIn (now : Moment) : Prop :=
  now.levels ≠ 0 ∧ ∃ nested,
    Interpret.Brings now.settings now.chain now.memory now.entry nested

lemma noEffect_of_own {now : Moment} {o : Outcome} {fault : Fault}
    (h : Interpret.Own now.settings now.memory now.entry o) (hfault : o.fault = some fault)
    (hreset : ¬now.IsReset) : o.NoEffect now.memory := by
  generalize hentry : now.entry = e at h
  cases h with
  | failed => exact ⟨rfl, rfl⟩
  | unanswered => exact ⟨rfl, rfl⟩
  | reset hrole hoperand hnames => exact absurd ⟨_, _, hentry, hrole⟩ hreset
  | dumped hrole => simp [Interpret.dump, Outcome.noted] at hfault
  | _ => simp [Outcome.unchanged, Outcome.noted] at hfault

/-- An entry that fails has no effect, but for resets and what entries that are brought in do. -/
lemma noEffect_of_fault {now : Moment} {fault : Fault} (h : now.outcome.fault = some fault)
    (hreset : ¬now.IsReset) (hbrings : ¬now.BringsIn) : now.outcome.NoEffect now.memory := by
  obtain ⟨hlevel, hnested⟩ | hown := Interpret.entry_accounts now.settings
    (Interpret.deeperAt now.settings now.levels) now.chain now.entry now.memory
  · refine absurd ⟨?_, hnested⟩ hbrings
    intro hzero
    simp [hzero, Interpret.deeperAt] at hlevel
  · exact noEffect_of_own hown h hreset

end Moment

namespace Registry

variable {r : Registry}

/-- What the entries of a fragment do, up to one of them. -/
def upTo (r : Registry) (before : List Entry) : Outcome :=
  Interpret.entries r.settings r.settings.maxDepth [] before r.memory

/-- The moment at which the next entry comes up. -/
def momentAfter (r : Registry) (before : List Entry) (e : Entry) : Moment :=
  ⟨r.settings, r.settings.maxDepth, [], e, (r.upTo before).memory⟩

/-- A parse that fails at an entry, with all entries before it done. All that is left besides is
what the entry does, which is nothing unless it is a reset or brings in others. -/
structure FailsAt (r : Registry) (before : List Entry) (e : Entry) (fault : Fault)
    (o : Outcome) : Prop where
  before_done : (r.upTo before).fault = none
  fails : (r.momentAfter before e).outcome.fault = some fault
  outcome_eq : o = (r.upTo before).andThen fun _ => (r.momentAfter before e).outcome
  noEffect : ¬(r.momentAfter before e).IsReset → ¬(r.momentAfter before e).BringsIn →
    (r.momentAfter before e).outcome.NoEffect (r.upTo before).memory

lemma exists_failsAt {text : Text} {es : List Entry} {fault : Fault}
    (hscan : scan r.settings.marks text = .ok es) (h : (r.parse text).fault = some fault) :
    ∃ before e after, es = before ++ e :: after ∧ r.FailsAt before e fault (r.parse text) := by
  rw [parse_of_scan hscan, Interpret.entries_eq_each] at h ⊢
  obtain ⟨before, e, after, rfl, hbefore, he, hsplit⟩ := Outcome.each_failure h
  rw [← Interpret.entries_eq_each] at hbefore he
  refine ⟨before, e, after, rfl, hbefore, he, ?_, Moment.noEffect_of_fault he⟩
  rw [hsplit, ← Interpret.entries_eq_each]
  exact Outcome.andThen_congr rfl

/-- A definition or an alias that fails leaves the registry as it is. -/
lemma perform_of_fault {operation : Operation} {fault : Fault}
    (hnames : operation.definition?.isSome ∨ ∃ existing name, operation = .addAlias existing name)
    (h : (r.perform operation).outcome.fault = some fault) :
    r.perform operation = ⟨r, .failed r.memory fault⟩ := by
  obtain ⟨result, hresult⟩ : ∃ result, r.perform operation = r.changed result := by
    obtain hdefinition | ⟨existing, name, rfl⟩ := hnames
    · obtain ⟨⟨name, cell⟩, hcell⟩ := Option.isSome_iff_exists.mp hdefinition
      exact ⟨_, perform_of_definition? hcell⟩
    · exact ⟨_, rfl⟩
  rw [hresult] at h ⊢
  cases result with
  | ok m => simp [Outcome.unchanged] at h
  | error cause =>
    obtain rfl : cause = fault := by simpa [Outcome.failed] using h
    rfl

/-- A parse of a fragment that cannot be read does nothing. Any other parse that fails does so at
one entry, with those before it done. An entry that fails has had no effect, be it an assignment, a
binding, a value that is taken as it is, or a condition or an inclusion that has not come to the
entries it brings in. Neither has a definition or an alias that fails. -/
theorem parse_failure (r : Registry) :
    (∀ text fault, scan r.settings.marks text = .error fault →
      r.parse text = .failed r.memory fault) ∧
    (∀ text es fault, scan r.settings.marks text = .ok es → (r.parse text).fault = some fault →
      ∃ before e after, es = before ++ e :: after ∧ r.FailsAt before e fault (r.parse text)) ∧
    ∀ operation fault,
      (operation.definition?.isSome ∨ ∃ existing name, operation = .addAlias existing name) →
      (r.perform operation).outcome.fault = some fault →
      r.perform operation = ⟨r, .failed r.memory fault⟩ :=
  ⟨fun _ _ => parse_of_misread, fun _ _ _ => exists_failsAt, fun _ _ => perform_of_fault⟩

/-- An open bracket, an inclusion that nothing answers between two assignments, and an alias that is
a directive's name. -/
theorem parse_failure_inclusion :
    let r := new.performAll [.define ['x']]
    let es : List Entry := [.pair ['x'] ['1'], .pair ['i', 'n', 'c', 'l', 'u', 'd', 'e'] ['f'],
      .pair ['x'] ['2']]
    let text : Text := ['x', '=', '1', ' ', 'i', 'n', 'c', 'l', 'u', 'd', 'e', '=', 'f', ' ', 'x',
      '=', '2']
    let missing : Fault := .inclusionFailed ['f'] .noIncluder
    let reserved : Operation := .addAlias ['x'] ['d', 'u', 'm', 'p']
    (r.parse ['x', '=', '1', ' ', 'x', '=', '['] =
        .failed r.memory (.misread .unterminatedBracket 6 ['['])) ∧
      (scan .standard text = .ok es ∧ (r.parse text).fault = some missing ∧
        ∃ before e after, es = before ++ e :: after ∧
          r.FailsAt before e missing (r.parse text)) ∧
      r.perform reserved = ⟨r, .failed r.memory (.reservedName ['d', 'u', 'm', 'p'])⟩ := by
  intro r es text missing reserved
  obtain ⟨hmisread, hfails, hunnamed⟩ := parse_failure r
  have hopen : scan r.settings.marks ['x', '=', '1', ' ', 'x', '=', '['] =
      .error (.misread .unterminatedBracket 6 ['[']) := by cbv
  have hscan : scan .standard text = .ok es := by cbv
  have hfault : (r.parse text).fault = some missing := by cbv
  have hreserved : (r.perform reserved).outcome.fault =
      some (.reservedName ['d', 'u', 'm', 'p']) := by cbv
  exact ⟨hmisread _ _ hopen, ⟨hscan, hfault, hfails text es missing hscan hfault⟩,
    hunnamed reserved _ (.inr ⟨['x'], ['d', 'u', 'm', 'p'], rfl⟩) hreserved⟩

end Registry

end ParamLang
