import ParamLang.Proofs.Registry.Moment

/-! Interpretations that begin in two memories. Where nothing that entries read tells the memories
apart, the entries do the same in both and what they write keeps the memories as close as they
were. -/
namespace ParamLang

/-- What two interpretations of the same entries are compared by: how their memories are related,
at which faults the first one may end alone, and which events both have to note. -/
structure Comparison where
  Related : Memory → Memory → Prop
  Excused : Fault → Prop
  compares : Event → Bool

namespace Comparison

/-- Outcomes of the same entries in two memories: the first one ends at an excused fault, or both
end alike. -/
inductive Alike (c : Comparison) (o o' : Outcome) : Prop
  | excused (fault : Fault) (hfault : o.fault = some fault) (h : c.Excused fault)
  | alike (memory : c.Related o.memory o'.memory) (fault : o'.fault = o.fault)
      (events : o'.events.filter c.compares = o.events.filter c.compares)

/-- Related memories are the same to all that reads them, save for what is excused, and stay
related through all that is written to them. -/
structure Kept (c : Comparison) (s : Settings) : Prop where
  bindings {m m' : Memory} (h : c.Related m m') : m'.bindings = m.bindings
  isFlag {m m' : Memory} (h : c.Related m m') (value : Text) :
    Interpret.isFlag m' value = Interpret.isFlag m value
  positional {m m' : Memory} (h : c.Related m m') : m'.names.contains [] = m.names.contains []
  place {m m' : Memory} (h : c.Related m m') (name : Text) : m'.place name = m.place name ∨
    ∃ fault, m.place name = .error fault ∧ c.Excused fault
  dump {m m' : Memory} (h : c.Related m m') (operand : Text) :
    (Interpret.dump s operand m').events.filter c.compares =
      (Interpret.dump s operand m).events.filter c.compares
  store {m m' : Memory} {name : Text} {place : Nat} (h : c.Related m m')
    (hplace : m.names.find? name = some place) (value : Text) :
    c.Related (m.store s.marks place name value) (m'.store s.marks place name value)
  clear {m m' : Memory} {name : Text} {place : Nat} (h : c.Related m m')
    (hplace : m.names.find? name = some place) : c.Related (m.clear place) (m'.clear place)
  bind {m m' : Memory} (h : c.Related m m') (name value : Text) :
    c.Related (m.bind name value) (m'.bind name value)
  unbind {m m' : Memory} (h : c.Related m m') (name : Text) :
    c.Related (m.unbind name) (m'.unbind name)

variable {c : Comparison} {α : Type} {o o' : Outcome} {m m' : Memory}
  {next next' : Memory → Outcome}

open Outcome

lemma alike_unchanged (h : c.Related m m') : c.Alike (unchanged m) (unchanged m') :=
  .alike h rfl rfl

lemma alike_failed (h : c.Related m m') (fault : Fault) :
    c.Alike (failed m fault) (failed m' fault) := .alike h rfl rfl

lemma alike_noted (h : c.Related m m') (events : List Event) :
    c.Alike (noted events m) (noted events m') := .alike h rfl rfl

lemma Alike.andThen (h : c.Alike o o')
    (hnext : ∀ m m', c.Related m m' → c.Alike (next m) (next' m')) :
    c.Alike (o.andThen next) (o'.andThen next') := by
  cases h with
  | excused fault hfault h => exact .excused fault (by simp [Outcome.andThen, hfault]) h
  | alike memory fault events =>
    cases hfirst : o.fault with
    | some first =>
      rw [hfirst] at fault
      exact .alike (by simpa [Outcome.andThen, hfirst, fault] using memory)
        (by simp [Outcome.andThen, hfirst, fault]) (by simpa [Outcome.andThen, hfirst, fault])
    | none =>
      rw [hfirst] at fault
      cases hnext _ _ memory with
      | excused fault hfault h => exact .excused fault (by simpa [Outcome.andThen, hfirst]) h
      | alike memory' fault' events' =>
        refine .alike ?_ ?_ ?_
        · simpa [Outcome.andThen, hfirst, fault] using memory'
        · simpa [Outcome.andThen, hfirst, fault] using fault'
        · simp [Outcome.andThen, hfirst, fault, events, events']

lemma alike_attempt {result : Except Fault α} {next next' : α → Outcome} (h : c.Related m m')
    (hnext : ∀ a, c.Alike (next a) (next' a)) :
    c.Alike (attempt m result next) (attempt m' result next') := by
  cases result with
  | error fault => exact alike_failed h fault
  | ok a => exact hnext a

lemma alike_each {act : α → Memory → Outcome}
    (hact : ∀ a m m', c.Related m m' → c.Alike (act a m) (act a m')) (as : List α)
    (h : c.Related m m') : c.Alike (each act as m) (each act as m') := by
  induction as generalizing m m' with
  | nil => exact alike_unchanged h
  | cons a as ih => exact (hact a m m' h).andThen fun m m' h => ih h

end Comparison

namespace Interpret

open Outcome Comparison

variable {c : Comparison} {s : Settings} {deeper : Option Deeper} {run : Deeper} {m m' : Memory}

/-- What runs entries one level deeper does so alike. -/
def AlikeDeeper (c : Comparison) (deeper : Option Deeper) : Prop :=
  ∀ run ∈ deeper, ∀ chain es m m', c.Related m m' → c.Alike (run chain es m) (run chain es m')

/-- Nothing that is resolved tells related memories apart. -/
lemma resolver_eq (hc : c.Kept s) (h : c.Related m m') (undefined : UndefinedPolicy) :
    s.resolver m' undefined = s.resolver m undefined := by
  rw [Settings.resolver, hc.bindings h, Settings.resolver]

lemma resolve_eq (hc : c.Kept s) (h : c.Related m m') (text : Text) :
    s.resolve m' text = s.resolve m text := by
  rw [Settings.resolve, resolver_eq hc h, Settings.resolve]

lemma place_alike (hc : c.Kept s) (h : c.Related m m') (name : Text) {next next' : Nat → Outcome}
    (hnext : ∀ place, m.names.find? name = some place → c.Alike (next place) (next' place)) :
    c.Alike (attempt m (m.place name) next) (attempt m' (m'.place name) next') := by
  obtain heq | ⟨fault, hfault, hexcused⟩ := hc.place h name
  · rw [heq]
    cases hplace : m.place name with
    | error fault => exact alike_failed h fault
    | ok place => exact hnext place (Memory.place_eq_ok_iff.mp hplace)
  · rw [hfault]
    exact .excused fault rfl hexcused

lemma fragment_alike (hdeeper : AlikeDeeper c deeper) (h : c.Related m m') (chain : List Text)
    (text : Text) :
    c.Alike (fragment s deeper chain text m) (fragment s deeper chain text m') := by
  cases deeper with
  | none => exact alike_failed h _
  | some run => exact alike_attempt h fun es => hdeeper run rfl chain es m m' h

lemma store_alike (hc : c.Kept s) (h : c.Related m m') (name value : Text) :
    c.Alike (store s name value m) (store s name value m') :=
  place_alike hc h name fun _ hplace => alike_noted (hc.store h hplace value) _

lemma bindVariable_alike (hc : c.Kept s) (h : c.Related m m') (name value : Text) :
    c.Alike (bindVariable s name value m) (bindVariable s name value m') := by
  rw [bindVariable, bindVariable, resolve_eq hc h, hc.bindings h]
  split
  · exact alike_failed h _
  · split
    · exact alike_unchanged h
    · exact alike_attempt h fun resolved => alike_noted (hc.bind h name resolved.text) _

lemma isolated_alike (hc : c.Kept s) (hdeeper : AlikeDeeper c deeper) (h : c.Related m m')
    (chain : List Text) (value : Text) :
    c.Alike (isolated s deeper chain value m) (isolated s deeper chain value m') := by
  rw [isolated, isolated, resolve_eq hc h, hc.isFlag h, hc.positional h]
  refine alike_attempt h fun resolved => ?_
  split
  · exact fragment_alike hdeeper h chain resolved.text
  · split
    · exact store_alike hc h value Cell.onText
    · split
      · exact store_alike hc h [] value
      · exact alike_failed h _

lemma condition_alike (hc : c.Kept s) (hdeeper : AlikeDeeper c deeper) (h : c.Related m m')
    (chain : List Text) (operand : Text) :
    c.Alike (condition s deeper chain operand m) (condition s deeper chain operand m') := by
  rw [condition_eq, condition_eq, resolver_eq hc h]
  refine alike_attempt h fun operands => alike_attempt h fun test => ?_
  cases operands.branch? test.text with
  | none => exact alike_unchanged h
  | some branch => exact fragment_alike hdeeper h chain branch

lemma splice_alike (hdeeper : AlikeDeeper c (some run)) (h : c.Related m m') (chain : List Text)
    (included : Included) :
    c.Alike (splice run chain included m) (splice run chain included m') :=
  ((alike_noted h _).andThen (hdeeper run rfl _ included.entries)).andThen
    fun _ _ h => alike_noted h _

lemma inclusion_alike (hdeeper : AlikeDeeper c deeper) (h : c.Related m m') (chain : List Text)
    (operand : Text) :
    c.Alike (inclusion s deeper chain operand m) (inclusion s deeper chain operand m') := by
  cases deeper with
  | none => exact alike_failed h _
  | some run =>
    refine alike_attempt h fun operands => alike_attempt h fun names => ?_
    cases s.includer with
    | none => exact alike_failed h _
    | some includer =>
      refine (alike_noted h _).andThen fun m m' h => ?_
      split
      · exact alike_failed h _
      · exact splice_alike hdeeper h chain _

lemma resetName_alike (hc : c.Kept s) (name : Text) (h : c.Related m m') :
    c.Alike (resetName s name m) (resetName s name m') := by
  unfold resetName
  split
  · exact alike_noted (hc.unbind h _) _
  · exact place_alike hc h name fun _ hplace => alike_noted (hc.clear h hplace) _

lemma directive_alike (hc : c.Kept s) (hdeeper : AlikeDeeper c deeper) (h : c.Related m m')
    (chain : List Text) (operand : Text) (d : Directive) :
    c.Alike (directive s deeper chain operand m d) (directive s deeper chain operand m' d) := by
  cases d with
  | condition => exact condition_alike hc hdeeper h chain operand
  | inclusion =>
    rw [directive, directive, resolve_eq hc h]
    exact alike_attempt h fun o => inclusion_alike hdeeper h chain o.text
  | reset =>
    rw [directive, directive, resolve_eq hc h]
    refine alike_attempt h fun o => alike_attempt h fun names => ?_
    exact alike_each (fun name m m' h => resetName_alike hc name h) names h
  | dump => exact .alike h rfl (hc.dump h operand)

lemma entry_alike (hc : c.Kept s) (hdeeper : AlikeDeeper c deeper) (chain : List Text) (e : Entry)
    (h : c.Related m m') : c.Alike (entry s deeper chain e m) (entry s deeper chain e m') := by
  cases e with
  | value value => exact isolated_alike hc hdeeper h chain value
  | pair name value =>
    simp only [entry, pair_eq, resolve_eq hc h]
    refine alike_attempt h fun resolved => ?_
    cases Role.ofName s.marks resolved.text with
    | binding v => exact bindVariable_alike hc h v value
    | directive d => exact directive_alike hc hdeeper h chain value d
    | assignment name =>
      rw [inRole, inRole, resolve_eq hc h]
      exact alike_attempt h fun v => store_alike hc h name v.text

/-- What is alike one level deeper is alike a level further up. -/
lemma entries_alike (hc : c.Kept s) (levels : Nat) (chain : List Text) (es : List Entry)
    (h : c.Related m m') :
    c.Alike (entries s levels chain es m) (entries s levels chain es m') := by
  induction levels generalizing chain es m m' with
  | zero =>
    have hdeeper : AlikeDeeper c none := by simp [AlikeDeeper]
    exact alike_each (fun e m m' h => entry_alike hc hdeeper chain e h) es h
  | succ levels ih =>
    have hdeeper : AlikeDeeper c (some (entries s levels)) := by
      rintro run ⟨⟩ chain es m m' h
      exact ih chain es h
    exact alike_each (fun e m m' h => entry_alike hc hdeeper chain e h) es h

end Interpret

/-- A parse in one memory does what it does in a related one. -/
lemma Registry.parse_alike {c : Comparison} {s : Settings} {m m' : Memory} (hc : c.Kept s)
    (h : c.Related m m') (text : Text) :
    c.Alike (Registry.parse ⟨s, m⟩ text) (Registry.parse ⟨s, m'⟩ text) :=
  Comparison.alike_attempt h fun es => Interpret.entries_alike hc s.maxDepth [] es h

end ParamLang
