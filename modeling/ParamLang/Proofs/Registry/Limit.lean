import ParamLang.Registry.Operation
import ParamLang.Proofs.Resolution.Limit

/-! The depth limit of a registry. Interpretations under a lower and a higher limit do the same
until the lower limit ends the first one. Only a dump goes on after a text in it was nested too
deep, and what it writes is all that may differ. -/
namespace ParamLang

def Event.isDump : Event → Bool
  | .dumped _ _ => true
  | _ => false

namespace Outcome

/-- What happened, save for dumps. -/
def undumped (o : Outcome) : List Event := o.events.filter fun e => !e.isDump

/-- Outcomes that differ at most in what they dump. -/
structure SameButDumps (low high : Outcome) : Prop where
  memory : high.memory = low.memory
  fault : high.fault = low.fault
  undumped : high.undumped = low.undumped

/-- The outcomes of one interpretation under a lower and a higher limit: the lower limit cuts the
first one off, or they are the same but for dumps. -/
inductive CutOff (low high : Outcome) : Prop
  | atLimit (limit : Nat) (hfault : low.fault = some (.nestingTooDeep limit))
  | same (hsame : low.SameButDumps high)

variable {α : Type} {low high : Outcome} {m : Memory} {next next' : Memory → Outcome}

lemma CutOff.refl (o : Outcome) : o.CutOff o := .same ⟨rfl, rfl, rfl⟩

lemma CutOff.failed (m : Memory) (limit : Nat) (high : Outcome) :
    (failed m (.nestingTooDeep limit)).CutOff high := .atLimit limit rfl

lemma undumped_andThen_none (h : low.fault = none) :
    (low.andThen next).undumped = low.undumped ++ (next low.memory).undumped := by
  simp [andThen, undumped, h]

lemma SameButDumps.andThen (h : low.SameButDumps high)
    (hnext : (next low.memory).SameButDumps (next' low.memory)) :
    (low.andThen next).SameButDumps (high.andThen next') := by
  have hhigh := h.fault
  cases hlow : low.fault with
  | some fault =>
    rw [hlow] at hhigh
    simpa [Outcome.andThen, hlow, hhigh] using h
  | none =>
    rw [hlow] at hhigh
    refine ⟨?_, ?_, ?_⟩
    · simpa [Outcome.andThen, hlow, hhigh, h.memory] using hnext.memory
    · simpa [Outcome.andThen, hlow, hhigh, h.memory] using hnext.fault
    · rw [undumped_andThen_none hlow, undumped_andThen_none hhigh, h.memory, h.undumped,
        hnext.undumped]

lemma CutOff.andThen (h : low.CutOff high) (hnext : ∀ m, (next m).CutOff (next' m)) :
    (low.andThen next).CutOff (high.andThen next') := by
  cases h with
  | atLimit limit hfault => exact .atLimit limit (by simp [Outcome.andThen, hfault])
  | same hsame =>
    cases hlow : low.fault with
    | some fault =>
      have hhigh := hsame.fault.trans hlow
      exact .same (by simpa [Outcome.andThen, hlow, hhigh] using hsame)
    | none =>
      cases hnext low.memory with
      | atLimit limit hfault => exact .atLimit limit (by simp [Outcome.andThen, hlow, hfault])
      | same hrest => exact .same (hsame.andThen hrest)

lemma attempt_cutOff {result result' : Except Fault α} {next next' : α → Outcome}
    (h : Resolver.CutOff result result') (hnext : ∀ a, (next a).CutOff (next' a)) :
    (attempt m result next).CutOff (attempt m result' next') := by
  cases h with
  | atLimit limit => exact .failed m limit _
  | same =>
    cases result with
    | error fault => exact .refl _
    | ok a => exact hnext a

lemma each_cutOff {act act' : α → Memory → Outcome} (hact : ∀ a m, (act a m).CutOff (act' a m))
    (as : List α) (m : Memory) : (each act as m).CutOff (each act' as m) := by
  induction as generalizing m with
  | nil => exact .refl _
  | cons a as ih => exact (hact a m).andThen ih

end Outcome

namespace Settings

/-- The same settings with more levels. -/
def deepen (s : Settings) (more : Nat) : Settings := { s with maxDepth := s.maxDepth + more }

lemma resolver_cutOff (s : Settings) (more : Nat) (m : Memory) (undefined : UndefinedPolicy)
    (text : Text) : Resolver.CutOff ((s.resolver m undefined).resolve text)
      (((s.deepen more).resolver m undefined).resolve text) :=
  Resolver.resolve_cutOff (s.resolver m undefined) more text

lemma resolve_cutOff (s : Settings) (more : Nat) (m : Memory) (text : Text) :
    Resolver.CutOff (s.resolve m text) ((s.deepen more).resolve m text) :=
  s.resolver_cutOff more m .keep text

end Settings

namespace Interpret

open Outcome

/-- What runs entries one level deeper under a lower limit, if a level is left, is cut off before
what runs them under a higher limit. -/
inductive DeeperCutOff : Option Deeper → Option Deeper → Prop
  | noLevel (deeper' : Option Deeper) : DeeperCutOff none deeper'
  | level {run run' : Deeper} (h : ∀ chain es m, (run chain es m).CutOff (run' chain es m)) :
      DeeperCutOff (some run) (some run')

variable {s : Settings} {more : Nat} {deeper deeper' : Option Deeper} {run run' : Deeper}

lemma fragment_cutOff (h : DeeperCutOff deeper deeper') (chain : List Text) (text : Text)
    (m : Memory) :
    (fragment s deeper chain text m).CutOff (fragment (s.deepen more) deeper' chain text m) := by
  cases h with
  | noLevel => exact .failed m _ _
  | level h => exact attempt_cutOff (.same _) fun es => h chain es m

lemma bindVariable_cutOff (s : Settings) (more : Nat) (name value : Text) (m : Memory) :
    (bindVariable s name value m).CutOff (bindVariable (s.deepen more) name value m) := by
  unfold bindVariable
  split
  · exact .refl _
  · split
    · exact .refl _
    · exact attempt_cutOff (s.resolve_cutOff more m value) fun resolved => .refl _

lemma isolated_cutOff (h : DeeperCutOff deeper deeper') (chain : List Text) (value : Text)
    (m : Memory) :
    (isolated s deeper chain value m).CutOff (isolated (s.deepen more) deeper' chain value m) := by
  refine attempt_cutOff (s.resolve_cutOff more m value) fun resolved => ?_
  split
  · exact fragment_cutOff h chain resolved.text m
  · exact .refl _

lemma condition_cutOff (h : DeeperCutOff deeper deeper') (chain : List Text) (operand : Text)
    (m : Memory) : (condition s deeper chain operand m).CutOff
      (condition (s.deepen more) deeper' chain operand m) := by
  refine attempt_cutOff (.same _) fun operands => ?_
  refine attempt_cutOff (s.resolver_cutOff more m .empty operands.test) fun test => ?_
  split
  · exact fragment_cutOff h chain operands.thenBranch m
  · cases operands.elseBranch with
    | some branch => exact fragment_cutOff h chain branch m
    | none => exact .refl _

lemma splice_cutOff (h : ∀ chain es m, (run chain es m).CutOff (run' chain es m))
    (chain : List Text) (included : Included) (m : Memory) :
    (splice run chain included m).CutOff (splice run' chain included m) :=
  ((CutOff.refl _).andThen (h _ included.entries)).andThen fun _ => .refl _

lemma inclusion_cutOff (h : DeeperCutOff deeper deeper') (chain : List Text) (operand : Text)
    (m : Memory) : (inclusion s deeper chain operand m).CutOff
      (inclusion (s.deepen more) deeper' chain operand m) := by
  cases h with
  | noLevel => exact .failed m _ _
  | level h =>
    refine attempt_cutOff (.same _) fun operands => attempt_cutOff (.same _) fun names => ?_
    simp only [Settings.deepen]
    cases s.includer with
    | none => exact .refl _
    | some includer =>
      refine (CutOff.refl _).andThen fun m => ?_
      split
      · exact .refl _
      · exact splice_cutOff h chain _ m

lemma dump_undumped (s : Settings) (operand : Text) (m : Memory) :
    (dump s operand m).undumped = [] := by
  apply List.filter_eq_nil_iff.mpr
  intro e he
  obtain ⟨line, _, rfl⟩ := List.mem_map.mp he
  simp [Event.isDump]

/-- A dump takes a text that is nested too deep as it is written, so only its lines may differ. -/
lemma dump_cutOff (s : Settings) (more : Nat) (operand : Text) (m : Memory) :
    (dump s operand m).CutOff (dump (s.deepen more) operand m) :=
  .same ⟨rfl, rfl, (dump_undumped _ operand m).trans (dump_undumped s operand m).symm⟩

lemma directive_cutOff (h : DeeperCutOff deeper deeper') (chain : List Text) (operand : Text)
    (m : Memory) (d : Directive) : (directive s deeper chain operand m d).CutOff
      (directive (s.deepen more) deeper' chain operand m d) := by
  cases d with
  | condition => exact condition_cutOff h chain operand m
  | inclusion =>
    exact attempt_cutOff (s.resolve_cutOff more m operand) fun o => inclusion_cutOff h chain o.text m
  | reset => exact attempt_cutOff (s.resolve_cutOff more m operand) fun o => .refl _
  | dump => exact dump_cutOff s more operand m

lemma pair_cutOff (h : DeeperCutOff deeper deeper') (chain : List Text) (name value : Text)
    (m : Memory) : (pair s deeper chain name value m).CutOff
      (pair (s.deepen more) deeper' chain name value m) := by
  refine attempt_cutOff (s.resolve_cutOff more m name) fun resolved => ?_
  simp only [Settings.deepen]
  cases s.marks.variableOf? resolved.text with
  | some v => exact bindVariable_cutOff s more v value m
  | none =>
    cases Directive.find? resolved.text with
    | some d => exact directive_cutOff h chain value m d
    | none => exact attempt_cutOff (s.resolve_cutOff more m value) fun v => .refl _

lemma entry_cutOff (h : DeeperCutOff deeper deeper') (chain : List Text) (e : Entry) (m : Memory) :
    (entry s deeper chain e m).CutOff (entry (s.deepen more) deeper' chain e m) := by
  cases e with
  | value value => exact isolated_cutOff h chain value m
  | pair name value => exact pair_cutOff h chain name value m

/-- With as many levels more as the limit is higher, entries at the same depth keep step. -/
lemma entries_cutOff (s : Settings) (more levels : Nat) (chain : List Text) (es : List Entry)
    (m : Memory) : (entries s levels chain es m).CutOff
      (entries (s.deepen more) (levels + more) chain es m) := by
  induction levels generalizing chain es m with
  | zero =>
    -- Below the lower limit no level is left, whatever is left below the higher one.
    cases more with
    | zero => exact each_cutOff (entry_cutOff (.noLevel _) chain) es m
    | succ more =>
      rw [Nat.zero_add]
      exact each_cutOff (entry_cutOff (.noLevel _) chain) es m
  | succ levels ih =>
    rw [Nat.succ_add]
    exact each_cutOff (entry_cutOff (.level ih) chain) es m

end Interpret

lemma Registry.parse_cutOff (r : Registry) (more : Nat) (text : Text) :
    (r.parse text).CutOff (Registry.parse ⟨r.settings.deepen more, r.memory⟩ text) :=
  Outcome.attempt_cutOff (.same _) fun es =>
    Interpret.entries_cutOff r.settings more r.settings.maxDepth [] es r.memory

/-- The depth limit only ever cuts off: an answer that does not blame it stands under every higher
limit. This holds of a text that is resolved, and of a parse save for what it dumps. -/
theorem answer_eq_of_limit_le :
    (∀ (r : Resolver) (text : Text) (limit : Nat), r.limit ≤ limit →
      (∀ reached, r.resolve text ≠ .error (.nestingTooDeep reached)) →
      ({ r with limit } : Resolver).resolve text = r.resolve text) ∧
    (∀ (r : Registry) (text : Text) (depth : Nat), r.settings.maxDepth ≤ depth →
      (∀ reached, (r.parse text).fault ≠ some (.nestingTooDeep reached)) →
      (r.parse text).SameButDumps ((r.perform (.limitDepth depth)).registry.parse text)) := by
  constructor
  · intro r text limit hle h
    exact Resolver.resolve_eq_of_limit_le hle h
  · intro r text depth hle h
    obtain ⟨more, rfl⟩ := Nat.exists_eq_add_of_le hle
    cases r.parse_cutOff more text with
    | atLimit limit hfault => exact absurd hfault (h limit)
    | same hsame => exact hsame

/-- A text that the limit is just enough for, and a dump of one that it is not enough for. -/
theorem answer_eq_of_limit_le_dump :
    let bindings : Table Text := .ofList [(['v'], ['$', '$', 'w']), (['w'], ['x'])]
    let resolver : Resolver := ⟨bindings, '$', .keep, 1⟩
    let r : Registry := ⟨{ Settings.standard with maxDepth := 1 }, { Memory.empty with bindings }⟩
    let text : Text := ['$', 'n', '=', '$', '$', 'w', ' ', 'd', 'u', 'm', 'p', '=', '$', '$', 'v']
    let deep := (r.perform (.limitDepth 4)).registry
    (resolver.resolve ['$', '$', 'w'] = .ok ⟨['x'], true⟩ ∧
      ({ resolver with limit := 4 } : Resolver).resolve ['$', '$', 'w'] = .ok ⟨['x'], true⟩) ∧
    ((r.parse text).fault = none ∧ (r.parse text).SameButDumps (deep.parse text)) ∧
    ((r.parse text).dumped = [(['$', '$', 'v'], Dump.undefinedText)] ∧
      (deep.parse text).dumped = [(['x'], Dump.undefinedText)]) := by
  intro bindings resolver r text deep
  have hresolved : resolver.resolve ['$', '$', 'w'] = .ok ⟨['x'], true⟩ := by cbv
  have hfault : (r.parse text).fault = none := by cbv
  have hdumped : (r.parse text).dumped = [(['$', '$', 'v'], Dump.undefinedText)] := by cbv
  have hdeep : (deep.parse text).dumped = [(['x'], Dump.undefinedText)] := by cbv
  have hhigher := answer_eq_of_limit_le.1 resolver ['$', '$', 'w'] 4 (by decide) (by simp [hresolved])
  have hsame := answer_eq_of_limit_le.2 r text 4 (by decide) (by simp [hfault])
  exact ⟨⟨hresolved, hhigher.trans hresolved⟩, ⟨hfault, hsame⟩, hdumped, hdeep⟩

end ParamLang
