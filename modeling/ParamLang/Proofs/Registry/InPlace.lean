import ParamLang.Proofs.Operands
import ParamLang.Proofs.Registry.Depth

/-! Interpretation in place. Included entries do what the text does that they were scanned from, and
an expanded value what the text does that it expands to, each one level deeper. -/
namespace ParamLang

/-- The answers do not depend on the sources that are being included. -/
def Includer.IgnoresChain (includer : Includer) : Prop :=
  ∀ request chain, includer { request with chain } = includer request

namespace Outcome

/-- The outcome without the events around inclusions. -/
def effects (o : Outcome) : Outcome := { o with events := o.events.filter fun e => !e.isInclusion }

variable {α : Type} {m : Memory} {next next' : Memory → Outcome}

lemma effects_andThen (o : Outcome) (next : Memory → Outcome) :
    (o.andThen next).effects = o.effects.andThen fun m => (next m).effects := by
  obtain ⟨memory, events, fault⟩ := o
  cases fault <;> simp [andThen, effects]

/-- An event of an inclusion leaves no trace among the effects. -/
lemma effects_noted_andThen {event : Event} (h : event.isInclusion = true) (m : Memory)
    (next : Memory → Outcome) : ((noted [event] m).andThen next).effects = (next m).effects := by
  simp [effects, andThen, noted, h]

lemma effects_requested (request : InclusionRequest) (m : Memory) (next : Memory → Outcome) :
    ((noted [.requested request] m).andThen next).effects = (next m).effects :=
  effects_noted_andThen rfl m next

lemma effects_andThen_noted {event : Event} (h : event.isInclusion = true) (o : Outcome) :
    (o.andThen (noted [event])).effects = o.effects := by
  have hnoted (m : Memory) : (noted [event] m).effects = unchanged m := by
    simp [effects, noted, unchanged, h]
  simp only [effects_andThen, hnoted]
  exact andThen_unchanged _

lemma effects_attempt_congr {result : Except Fault α} {next next' : α → Outcome}
    (h : ∀ a, (next a).effects = (next' a).effects) :
    (attempt m result next).effects = (attempt m result next').effects := by
  cases result with
  | error fault => rfl
  | ok a => exact h a

lemma effects_each_congr {act act' : α → Memory → Outcome}
    (h : ∀ a m, (act a m).effects = (act' a m).effects) (as : List α) (m : Memory) :
    (each act as m).effects = (each act' as m).effects := by
  induction as generalizing m with
  | nil => rfl
  | cons a as ih => simp only [each, effects_andThen, h, ih]

/-- Dumped lines are effects. -/
lemma dumped_effects (o : Outcome) : o.effects.dumped = o.dumped := by
  simp only [dumped, effects, List.filterMap_filter]
  congr
  funext e
  cases e <;> rfl

end Outcome

namespace Interpret

open Outcome

variable {s : Settings} {deeper : Option Deeper} {run : Deeper} {m : Memory}

/-- What runs entries one level deeper has the same effects under every chain. -/
def EffectsIgnoreChain (deeper : Option Deeper) : Prop :=
  ∀ run ∈ deeper, ∀ chain chain' es m, (run chain es m).effects = (run chain' es m).effects

lemma splice_effects (run : Deeper) (chain : List Text) (included : Included) (m : Memory) :
    (splice run chain included m).effects =
      (run (chain ++ [included.source]) included.entries m).effects := by
  rw [splice, effects_andThen_noted rfl, effects_noted_andThen rfl]

lemma fragment_effects (h : EffectsIgnoreChain deeper) (chain chain' : List Text) (text : Text)
    (m : Memory) :
    (fragment s deeper chain text m).effects = (fragment s deeper chain' text m).effects := by
  cases deeper with
  | none => rfl
  | some run => exact effects_attempt_congr fun es => h run rfl chain chain' es m

lemma answered_effects (h : EffectsIgnoreChain (some run)) (chain chain' : List Text) (file : Text)
    (answer : Except InclusionFault Included) (m : Memory) :
    (answered run chain file m answer).effects = (answered run chain' file m answer).effects := by
  cases answer with
  | error cause => rfl
  | ok included =>
    simp only [answered, splice_effects]
    exact h run rfl _ _ included.entries m

lemma inclusion_effects (hincluder : ∀ includer ∈ s.includer, includer.IgnoresChain)
    (h : EffectsIgnoreChain deeper) (chain chain' : List Text) (operand : Text) (m : Memory) :
    (inclusion s deeper chain operand m).effects =
      (inclusion s deeper chain' operand m).effects := by
  cases deeper with
  | none => rfl
  | some run =>
    rw [inclusion_eq, inclusion_eq]
    refine effects_attempt_congr fun operands => effects_attempt_congr fun names => ?_
    cases hsome : s.includer with
    | none => rfl
    | some includer =>
      have hanswer : includer (operands.request names s.marks chain) =
          includer (operands.request names s.marks chain') :=
        hincluder includer hsome (operands.request names s.marks chain') chain
      simp only [effects_requested, hanswer]
      exact answered_effects h chain chain' _ _ m

lemma entry_effects (hincluder : ∀ includer ∈ s.includer, includer.IgnoresChain)
    (h : EffectsIgnoreChain deeper) (chain chain' : List Text) (e : Entry) (m : Memory) :
    (entry s deeper chain e m).effects = (entry s deeper chain' e m).effects := by
  cases entry_form s e m with
  | own o hquiet heq => rw [heq, heq]
  | fragment text heq =>
    rw [heq, heq]
    exact fragment_effects h chain chain' text m
  | inclusion operand heq =>
    rw [heq, heq]
    exact inclusion_effects hincluder h chain chain' operand m

/-- Where the includer ignores the chain, the chain shows in requests alone. -/
lemma entries_effects (hincluder : ∀ includer ∈ s.includer, includer.IgnoresChain) (levels : Nat)
    (chain chain' : List Text) (es : List Entry) (m : Memory) :
    (entries s levels chain es m).effects = (entries s levels chain' es m).effects := by
  induction levels generalizing chain chain' es m with
  | zero =>
    exact effects_each_congr (entry_effects hincluder (by simp [EffectsIgnoreChain]) _ _) es m
  | succ levels ih =>
    have hdeeper : EffectsIgnoreChain (some (entries s levels)) := by
      rintro run ⟨⟩
      exact ih
    exact effects_each_congr (entry_effects hincluder hdeeper _ _) es m

/-- The entry that includes a file, with nothing to replace in the operand, asks for the file. -/
lemma entry_inclusion {file : Text}
    (hwork : (s.resolver m .keep).hasWork (s.marks.quote file) = false)
    (deeper : Option Deeper) (chain : List Text) :
    entry s deeper chain (.pair Directive.inclusion.name (s.marks.quote file)) m =
      inclusion s deeper chain (s.marks.quote file) m := by
  have hresolved : s.resolve m (s.marks.quote file) = .ok ⟨s.marks.quote file, false⟩ :=
    Resolver.resolve_of_not_hasWork hwork
  rw [entry, pair_of_hasRole (hasRole_directive s m .inclusion)]
  simp only [inRole, directive, hresolved, attempt]

/-- The entries of a source have the effects of the text that they are scanned from. -/
lemma inclusion_quote_effects {file source text : Text} {es : List Entry} {includer : Includer}
    {chain : List Text} (hsome : s.includer = some includer) (hignores : includer.IgnoresChain)
    (hscan : scan s.marks text = .ok es)
    (hanswer : includer ⟨file, none, none, none, s.marks, chain⟩ = .ok ⟨source, es⟩)
    (levels : Nat) :
    (inclusion s (deeperAt s levels) chain (s.marks.quote file) m).effects =
      (fragment s (deeperAt s levels) chain text m).effects := by
  have hall : ∀ includer ∈ s.includer, includer.IgnoresChain := by
    rw [hsome]
    rintro _ ⟨⟩
    exact hignores
  cases levels with
  | zero => rfl
  | succ levels =>
    simp only [deeperAt, inclusion_eq, InclusionOperands.read_quote, attempt, remap, hsome,
      InclusionOperands.request, hanswer, fragment, hscan, effects_requested, answered,
      splice_effects]
    exact entries_effects hall levels _ _ es m

/-- An expanded value is the fragment it expands to. -/
lemma entry_expanded {value : Text} {resolved : Resolved}
    (hwork : (s.resolver m .keep).hasWork value = true)
    (hresolved : s.resolve m value = .ok resolved) (deeper : Option Deeper) (chain : List Text) :
    entry s deeper chain (.value value) m = fragment s deeper chain resolved.text m := by
  have hchanged : resolved.changed = true :=
    (Resolver.uncheckedAt_changed (Resolver.resolve_eq_ok_iff.mp hresolved)).trans hwork
  rw [entry, isolated, hresolved, attempt, if_pos hchanged]

end Interpret

namespace Registry

open Interpret

/-- Including a source and expanding a value do what the text does one level deeper: the entries of
the one have the effects of the text they are scanned from, and the other has its very outcome. -/
theorem brought_in_place (r : Registry) (depth : Nat) (chain : List Text) {text : Text}
    {es : List Entry} (hscan : scan r.settings.marks text = .ok es) :
    let inPlace := fragmentAt r.settings (depth + 1) chain text r.memory
    (∀ (includer : Includer) (file source : Text), r.settings.includer = some includer →
      includer.IgnoresChain →
      includer ⟨file, none, none, none, r.settings.marks, chain⟩ = .ok ⟨source, es⟩ →
      (r.settings.resolver r.memory .keep).hasWork (r.settings.marks.quote file) = false →
      let included := entryAt r.settings depth chain
        (.pair Directive.inclusion.name (r.settings.marks.quote file)) r.memory
      included.effects = inPlace.effects ∧ r.visible included = r.visible inPlace) ∧
    ∀ value resolved, (r.settings.resolver r.memory .keep).hasWork value = true →
      r.resolve value = .ok resolved → resolved.text = text →
      entryAt r.settings depth chain (.value value) r.memory = inPlace := by
  intro inPlace
  refine ⟨fun includer file source hsome hignores hanswer hwork => ?_,
    fun value resolved hwork hresolved htext => ?_⟩
  · intro included
    have heffects : included.effects = inPlace.effects := by
      simp only [included, inPlace, entryAt, entry_inclusion hwork, fragmentAt_succ]
      exact inclusion_quote_effects hsome hignores hscan hanswer _
    have hdumped : included.dumped = inPlace.dumped := by
      rw [← Outcome.dumped_effects, heffects, Outcome.dumped_effects]
    exact ⟨heffects, congrArg r.settings.sink.visible hdumped⟩
  · rw [entryAt, entry_expanded hwork hresolved, htext]
    exact (fragmentAt_succ _ _ _ _ _).symm

/-- A source that includes itself up to the limit, and a variable that holds what is in it. -/
theorem brought_in_place_limit :
    let text : Text := ['a', '=', '1', ' ', 'i', 'n', 'c', 'l', 'u', 'd', 'e', '=', 'f']
    let es : List Entry := [.pair ['a'] ['1'], .pair Directive.inclusion.name ['f']]
    let includer : Includer := fun _ => .ok ⟨['/', 'f'], es⟩
    let r : Registry := ⟨{ Settings.standard with maxDepth := 3, includer := some includer },
      ⟨[.mandatory], .ofList [(['a'], 0)], .ofList [(['v'], text)], some []⟩⟩
    let inPlace := fragmentAt r.settings 2 [] text r.memory
    let entry : Entry := .pair Directive.inclusion.name ['[', 'f', ']']
    let included := entryAt r.settings 1 [] entry r.memory
    (inPlace.fault = some (.nestingTooDeep 3) ∧
      inPlace.memory.history = some [.pair ['a'] ['1'], .pair ['a'] ['1']]) ∧
    (included.effects = inPlace.effects ∧ r.visible included = r.visible inPlace) ∧
      entryAt r.settings 1 [] (.value ['$', '$', 'v']) r.memory = inPlace := by
  intro text es includer r inPlace entry included
  have hscan : scan r.settings.marks text = .ok es := by cbv
  have hwork : (r.settings.resolver r.memory .keep).hasWork ['[', 'f', ']'] = false := by cbv
  have hwork' : (r.settings.resolver r.memory .keep).hasWork ['$', '$', 'v'] = true := by cbv
  have hresolved : r.resolve ['$', '$', 'v'] = .ok ⟨text, true⟩ := by cbv
  have hfault : (fragmentAt r.settings 2 [] text r.memory).fault = some (.nestingTooDeep 3) := by
    cbv
  have hhistory : (fragmentAt r.settings 2 [] text r.memory).memory.history =
    some [.pair ['a'] ['1'], .pair ['a'] ['1']] := by cbv
  obtain ⟨hincluded, hexpanded⟩ := r.brought_in_place 1 [] hscan
  refine ⟨⟨hfault, hhistory⟩, ?_, ?_⟩
  · exact hincluded includer ['f'] ['/', 'f'] rfl (fun _ _ => rfl) rfl hwork
  · exact hexpanded _ _ hwork' hresolved rfl

end Registry

end ParamLang
