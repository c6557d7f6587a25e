import ParamLang.Proofs.Registry.Moment

/-! Depths. What an entry does depends on the levels below it and on the sources around it in two
places only, a fragment interpreted in its place and an inclusion. All else it does wherever it
stands. -/
namespace ParamLang

namespace Interpret

/-- Interprets an entry at a depth. -/
def entryAt (s : Settings) (depth : Nat) (chain : List Text) (e : Entry) (m : Memory) : Outcome :=
  entry s (deeperAt s (s.maxDepth - depth)) chain e m

/-- Interprets a fragment at a depth, unless the depth exceeds the limit. -/
def fragmentAt (s : Settings) (depth : Nat) (chain : List Text) (text : Text) (m : Memory) :
    Outcome :=
  fragment s (deeperAt s (s.maxDepth + 1 - depth)) chain text m

open Outcome

variable {s : Settings} {depth : Nat} {chain : List Text} {m : Memory} {text : Text}

lemma fragmentAt_succ (s : Settings) (depth : Nat) (chain : List Text) (text : Text) (m : Memory) :
    fragmentAt s (depth + 1) chain text m =
      fragment s (deeperAt s (s.maxDepth - depth)) chain text m := by
  rw [fragmentAt, Nat.add_sub_add_right]

/-- Beyond the limit no fragment is read. -/
lemma fragmentAt_of_limit_lt (h : s.maxDepth < depth) :
    fragmentAt s depth chain text m = failed m (.nestingTooDeep s.maxDepth) := by
  have hlevels : s.maxDepth + 1 - depth = 0 := by omega
  rw [fragmentAt, hlevels]
  rfl

/-- Up to the limit a fragment is interpreted entry by entry, each at the depth of the fragment. -/
lemma fragmentAt_of_scan {es : List Entry} (h : depth ≤ s.maxDepth)
    (hscan : scan s.marks text = .ok es) :
    fragmentAt s depth chain text m = each (entryAt s depth chain) es m := by
  have hlevels : s.maxDepth + 1 - depth = (s.maxDepth - depth) + 1 := by omega
  rw [fragmentAt, hlevels, deeperAt, fragment, hscan, attempt, entries_eq_each]
  rfl

end Interpret

/-- Parsing is interpreting at depth zero, where no source is being included. -/
lemma Registry.parse_eq_fragmentAt (r : Registry) (text : Text) :
    r.parse text = Interpret.fragmentAt r.settings 0 [] text r.memory := rfl

/-- All that is noted is of one kind. -/
def Outcome.Only (P : Event → Prop) (o : Outcome) : Prop := ∀ event ∈ o.events, P event

/-- No source is asked for, entered or left. -/
abbrev Outcome.Quiet (o : Outcome) : Prop := o.Only fun event => event.isInclusion = false

namespace Outcome

variable {α : Type} {P : Event → Prop} {o : Outcome} {next : Memory → Outcome}

lemma only_failed (m : Memory) (fault : Fault) : (failed m fault).Only P := fun _ he => nomatch he

lemma only_unchanged (m : Memory) : (unchanged m).Only P := fun _ he => nomatch he

lemma only_noted {event : Event} (h : P event) (m : Memory) : (noted [event] m).Only P :=
  fun _ he => List.mem_singleton.mp he ▸ h

lemma quiet_noted {event : Event} (h : event.isInclusion = false) (m : Memory) :
    (noted [event] m).Quiet := only_noted h m

lemma only_attempt {m : Memory} {result : Except Fault α} {next : α → Outcome}
    (h : ∀ a, (next a).Only P) : (attempt m result next).Only P := by
  cases result with
  | error fault => exact only_failed m fault
  | ok a => exact h a

lemma Only.andThen (h : o.Only P) (hnext : ∀ m, (next m).Only P) : (o.andThen next).Only P := by
  intro event hevent
  obtain hfirst | ⟨-, hrest⟩ := mem_andThen_events.mp hevent
  · exact h event hfirst
  · exact hnext o.memory event hrest

lemma only_each {act : α → Memory → Outcome} {as : List α} (h : ∀ a ∈ as, ∀ m, (act a m).Only P)
    (m : Memory) : (each act as m).Only P := by
  induction as generalizing m with
  | nil => exact only_unchanged m
  | cons a as ih =>
    have hrest := ih fun b hb => h b (List.mem_cons_of_mem a hb)
    exact Only.andThen (h a (by simp) m) hrest

end Outcome

namespace Interpret

open Outcome

variable {s : Settings} {m : Memory}

/-- What an entry does, given the levels below it and the chain: the same for all of them, or a
fragment in its place, or an inclusion. -/
inductive Form (s : Settings) (m : Memory) (act : Option Deeper → List Text → Outcome) : Prop
  | own (o : Outcome) (hquiet : o.Quiet) (h : ∀ deeper chain, act deeper chain = o)
  | fragment (text : Text) (h : ∀ deeper chain, act deeper chain = fragment s deeper chain text m)
  | inclusion (operand : Text)
      (h : ∀ deeper chain, act deeper chain = inclusion s deeper chain operand m)

lemma store_quiet (s : Settings) (name value : Text) (m : Memory) : (store s name value m).Quiet :=
  only_attempt fun _ => quiet_noted rfl _

lemma bindVariable_quiet (s : Settings) (name value : Text) (m : Memory) :
    (bindVariable s name value m).Quiet := by
  unfold bindVariable
  split
  · exact only_failed m _
  · split
    · exact only_unchanged m
    · exact only_attempt fun _ => quiet_noted rfl _

/-- A reset notes only what it unbinds and what it clears. -/
lemma each_resetName_only {P : Event → Prop} (hunbound : ∀ v, P (.unbound v))
    (hcleared : ∀ place, P (.cleared place)) (s : Settings) (names : List Text) (m : Memory) :
    (each (resetName s) names m).Only P := by
  refine only_each (fun name _ m => ?_) m
  unfold resetName
  split
  · exact only_noted (hunbound _) _
  · exact only_attempt fun place => only_noted (hcleared place) _

lemma resetNames_quiet (s : Settings) (operand : Text) (m : Memory) :
    (resetNames s operand m).Quiet :=
  only_attempt fun names => each_resetName_only (fun _ => rfl) (fun _ => rfl) s names m

lemma dump_quiet (s : Settings) (operand : Text) (m : Memory) : (dump s operand m).Quiet := by
  intro event hevent
  obtain ⟨line, -, rfl⟩ := List.mem_map.mp hevent
  rfl

lemma form_own {o : Outcome} (h : o.Quiet) : Form s m fun _ _ => o := .own o h fun _ _ => rfl

lemma form_attempt {α : Type} {result : Except Fault α}
    {next : α → Option Deeper → List Text → Outcome} (h : ∀ a, Form s m (next a)) :
    Form s m fun deeper chain => attempt m result fun a => next a deeper chain := by
  cases result with
  | error fault => exact form_own (only_failed m fault)
  | ok a => exact h a

lemma isolated_form (s : Settings) (value : Text) (m : Memory) :
    Form s m fun deeper chain => isolated s deeper chain value m := by
  refine form_attempt fun resolved => ?_
  split
  · exact .fragment resolved.text fun _ _ => rfl
  · refine form_own ?_
    split
    · exact store_quiet s value Cell.onText m
    · split
      · exact store_quiet s [] value m
      · exact only_failed m _

lemma condition_form (s : Settings) (operand : Text) (m : Memory) :
    Form s m fun deeper chain => condition s deeper chain operand m := by
  simp only [condition_eq]
  refine form_attempt fun operands => form_attempt fun test => ?_
  cases operands.branch? test.text with
  | none => exact form_own (only_unchanged m)
  | some branch => exact .fragment branch fun _ _ => rfl

lemma inRole_form (s : Settings) (value : Text) (m : Memory) (role : Role) :
    Form s m fun deeper chain => inRole s deeper chain value m role := by
  cases role with
  | binding v => exact form_own (bindVariable_quiet s v value m)
  | assignment name => exact form_own (only_attempt fun v => store_quiet s name v.text m)
  | directive d =>
    cases d with
    | condition => exact condition_form s value m
    | inclusion => exact form_attempt fun o => .inclusion o.text fun _ _ => rfl
    | reset => exact form_own (only_attempt fun o => resetNames_quiet s o.text m)
    | dump => exact form_own (dump_quiet s value m)

/-- What an inclusion makes of the answer to a request. -/
def answered (run : Deeper) (chain : List Text) (file : Text) (m : Memory) :
    Except InclusionFault Included → Outcome
  | .error cause => failed m (.inclusionFailed file cause)
  | .ok included => splice run chain included m

lemma inclusion_eq (run : Deeper) (chain : List Text) (operand : Text) :
    inclusion s (some run) chain operand m =
      attempt m (InclusionOperands.read s.marks operand) fun operands =>
        attempt m (remap s.marks operands.names) fun names =>
          match s.includer with
          | none => failed m (.inclusionFailed operands.file .noIncluder)
          | some includer =>
            let request := operands.request names s.marks chain
            (noted [.requested request] m).andThen fun m =>
              answered run chain operands.file m (includer request) := rfl

lemma entry_form (s : Settings) (e : Entry) (m : Memory) :
    Form s m fun deeper chain => entry s deeper chain e m := by
  cases e with
  | value value => exact isolated_form s value m
  | pair name value =>
    simp only [entry, pair_eq]
    exact form_attempt fun resolved => inRole_form s value m _

end Interpret

end ParamLang
