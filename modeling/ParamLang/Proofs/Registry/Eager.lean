import ParamLang.Proofs.Registry.Variable
import ParamLang.Proofs.Resolution.Settled

/-! Eager variables. A value is resolved when it is bound, so it refers to none of the variables that
are bound by then. Of the variables that are bound in the end, those bound later may be referred to
by those bound earlier, and never the other way round. -/
namespace ParamLang

/-- A text holds a reference to a variable. -/
def RefersTo (sigil : Char) (text name : Text) : Prop :=
  ∃ form, .reference form name ∈ Segment.ofText sigil text

/-- The value was bound to the variable at a place among the happenings, and nothing has unbound the
variable since. -/
structure BoundAt (i : Nat) (v value : Text) (hs : List Happening) : Prop where
  bound : hs[i]? = some (.event (.bound v value))
  kept : ∀ h ∈ hs.drop (i + 1), ¬h.unbinds v

/-- No value that was bound refers to a variable that was bound at the time. -/
def Eager (sigil : Char) (hs : List Happening) : Prop :=
  ∀ earlier v value, earlier ++ [.event (.bound v value)] <+: hs →
    ∀ u old, BoundIn u old earlier → ¬RefersTo sigil value u

/-- The bindings are those that were made and not undone since, each at a time of its own, and the
references between their values lead to variables bound later, or at the same time from a variable
to itself. -/
structure PointsLater (sigil : Char) (hs : List Happening) (bindings : Table Text) : Prop where
  current : ∀ v value, bindings.find? v = some value ↔ ∃! i, BoundAt i v value hs
  free : ∀ u v old value i j, BoundAt i u old hs → BoundAt j v value hs → i < j →
    ¬RefersTo sigil value u
  later : ∀ u v old value i j, BoundAt i u old hs → BoundAt j v value hs → RefersTo sigil value u →
    u = v ∧ i = j ∨ j < i

variable {sigil : Char} {u v old value : Text} {hs hs' : List Happening} {bindings : Table Text}
  {i j : Nat}

namespace BoundAt

lemma boundIn (h : BoundAt i v value hs) : BoundIn v value hs := by
  refine ⟨hs.take i, hs.drop (i + 1), ?_, h.kept⟩
  have hrest := List.drop_eq_getElem?_toList_append (l := hs) (i := i)
  rw [h.bound, Option.toList_some, List.singleton_append] at hrest
  rw [← hrest, List.take_append_drop]

/-- A binding that is current in the end has been so ever since it was made. -/
lemma take (h : BoundAt i v value hs) (hij : i < j) : BoundAt i v value (hs.take j) where
  bound := by rw [List.getElem?_take_of_lt hij, h.bound]
  kept later hmem := by
    rw [List.drop_take] at hmem
    exact h.kept later (List.mem_of_mem_take hmem)

/-- What has happened up to a binding. -/
lemma concat_prefix (h : BoundAt j v value hs) : hs.take j ++ [.event (.bound v value)] <+: hs := by
  have hnext : hs.take (j + 1) = hs.take j ++ [.event (.bound v value)] := by
    rw [List.take_add_one, h.bound, Option.toList_some]
  exact hnext ▸ List.take_prefix (j + 1) hs

end BoundAt

lemma exists_boundAt (h : BoundIn v value hs) : ∃ i, BoundAt i v value hs := by
  obtain ⟨earlier, later, rfl, hkept⟩ := h
  exact ⟨earlier.length, by simp, by simpa using hkept⟩

/-- Only a variable that is not bound is bound. -/
lemma Rebinding.not_boundIn {earlier : List Happening} (h : Rebinding ∅ hs bindings)
    (hbegins : earlier ++ [.event (.bound v value)] <+: hs) : ¬BoundIn v old earlier := by
  intro hold
  obtain ⟨later, rfl⟩ := hbegins
  obtain ⟨_, hnow, -⟩ := h.split
  obtain ⟨_, hbefore, hlast⟩ := hnow.split
  have hbound := hbefore.find?_eq_some_iff.mpr hold
  cases hlast with
  | cons first rest =>
    cases first with
    | bound _ hname hnew => simp [hbound] at hnew
    | other _ hnone => exact absurd rfl (hnone v value)

lemma Rebinding.boundAt_unique (h : Rebinding ∅ hs bindings) (hi : BoundAt i v old hs)
    (hj : BoundAt j v value hs) : i = j := by
  rcases Nat.lt_trichotomy i j with hlt | heq | hlt
  · exact absurd (hi.take hlt).boundIn (h.not_boundIn hj.concat_prefix)
  · exact heq
  · exact absurd (hj.take hlt).boundIn (h.not_boundIn hi.concat_prefix)

namespace Eager

lemma nil (sigil : Char) : Eager sigil [] := by
  intro earlier v value hbegins
  simp at hbegins

/-- What binds nothing leaves all as it is. -/
lemma append (h : Eager sigil hs) (hquiet : ∀ v value, .event (.bound v value) ∉ hs') :
    Eager sigil (hs ++ hs') := by
  intro earlier v value hbegins
  obtain hold | ⟨before, -, hnew⟩ := concat_prefix_append hbegins
  · exact h earlier v value hold
  · exact absurd (hnew.subset (by simp)) (hquiet v value)

lemma pointsLater (h : Eager sigil hs) (hbindings : Rebinding ∅ hs bindings) :
    PointsLater sigil hs bindings := by
  have hfree : ∀ u v old value i j, BoundAt i u old hs → BoundAt j v value hs → i < j →
      ¬RefersTo sigil value u := fun u v old value i j hi hj hij =>
    h _ v value hj.concat_prefix u old (hi.take hij).boundIn
  refine ⟨fun v value => ?_, hfree, fun u v old value i j hi hj hrefers => ?_⟩
  · rw [hbindings.find?_eq_some_iff]
    constructor
    · intro hbound
      obtain ⟨i, hi⟩ := exists_boundAt hbound
      exact ⟨i, hi, fun j hj => hbindings.boundAt_unique hj hi⟩
    · rintro ⟨i, hi, -⟩
      exact hi.boundIn
  · obtain hlt | rfl : j < i ∨ j = i := by
      have hnot : ¬i < j := fun hij => hfree u v old value i j hi hj hij hrefers
      omega
    · exact .inr hlt
    · have hsame := hi.bound.symm.trans hj.bound
      simp only [Option.some.injEq, Happening.event.injEq, Event.bound.injEq] at hsame
      exact .inl ⟨hsame.1, rfl⟩

end Eager

/-- A resolved text refers to no variable that is bound. -/
lemma Settings.not_refersTo_of_resolve {s : Settings} {m : Memory} {text : Text}
    {resolved : Resolved} (h : s.resolve m text = .ok resolved)
    (hu : m.bindings.find? u = some old) : ¬RefersTo s.marks.sigil resolved.text u := by
  rintro ⟨form, hmem⟩
  have hsettled := Resolver.uncheckedAt_hasWork (Resolver.resolve_eq_ok_iff.mp h)
  have hkept := List.any_eq_false.mp hsettled _ hmem
  simp [Resolver.replaces, resolver, Table.contains, hu] at hkept

section Runs

variable {s : Settings} {m m' : Memory}

/-- A value is bound as it resolves, so nothing that is bound is left in it. -/
lemma Event.Acts.eager {e : Event} (h : e.Acts s m m') (hm : Rebinding ∅ hs m.bindings)
    (heager : Eager s.marks.sigil hs) : Eager s.marks.sigil (hs ++ [.event e]) := by
  intro earlier v value hbegins u old hu
  obtain hlast | hbefore := List.prefix_concat_iff.mp hbegins
  · obtain ⟨rfl, he⟩ := List.append_inj' hlast rfl
    obtain rfl : .bound v value = e := by simpa using he
    cases h with
    | bound hname hnew hresolved =>
      exact Settings.not_refersTo_of_resolve hresolved (hm.find?_eq_some_iff.mpr hu)
  · exact heager earlier v value hbefore u old hu

lemma Run.eager {events : List Event} (h : Run s m events m') (hm : Rebinding ∅ hs m.bindings)
    (heager : Eager s.marks.sigil hs) : Eager s.marks.sigil (hs ++ events.map .event) := by
  induction h generalizing hs with
  | nil m => simpa using heager
  | @cons m m₁ m' e events first rest ih =>
    have hfirst : Rebinding ∅ (hs ++ [.event e]) m₁.bindings :=
      hm.append (.cons first.binds (.nil _))
    simpa using ih hfirst (first.eager hm heager)

end Runs

namespace Registry

/-- A registry under the marks, to which all this has happened, with values resolved at their time. -/
structure EagerUnder (marks : Marks) (hs : List Happening) (r : Registry) : Prop where
  same : r.settings.marks = marks
  bindings : Rebinding ∅ hs r.memory.bindings
  eager : Eager marks.sigil hs

namespace EagerUnder

variable {marks : Marks} {r : Registry} {operations : List Operation}

lemma perform (h : r.EagerUnder marks hs) (operation : Operation)
    (hmarks : ∀ other, operation = .useMarks other → other = marks) :
    (r.perform operation).registry.EagerUnder marks (hs ++ r.happenedIn operation) := by
  obtain ⟨rfl, hbindings, heager⟩ := h
  refine ⟨perform_marks hmarks, hbindings.append (r.perform_rebinding operation), ?_⟩
  cases operation with
  | parse text => exact (r.parse_runs text).eager hbindings heager
  | _ =>
    refine heager.append fun v value hmem => ?_
    obtain ⟨_, _, ⟨⟩, _⟩ := exists_parse_of_happenedIn hmem

lemma performAll (h : r.EagerUnder marks hs)
    (hmarks : ∀ other, .useMarks other ∈ operations → other = marks) :
    (r.performAll operations).EagerUnder marks (hs ++ r.happenings operations) := by
  induction operations generalizing r hs with
  | nil => simpa [Registry.performAll, happenings] using h
  | cons operation operations ih =>
    have hfirst := h.perform operation fun other heq => hmarks other (by simp [heq])
    have hrest := ih hfirst fun other hmem => hmarks other (List.mem_cons_of_mem _ hmem)
    rwa [List.append_assoc] at hrest

lemma of_reaches {past : List Happening} {now : Moment} (hreaches : r.Reaches operations past now)
    (h : r.EagerUnder marks hs)
    (hmarks : ∀ other, .useMarks other ∈ operations → other = marks) :
    Eager marks.sigil (hs ++ past) := by
  induction hreaches generalizing hs with
  | inside hscan inner =>
    obtain ⟨rfl, hbindings, heager⟩ := h
    exact inner.run.eager hbindings heager
  | @next r operation operations past now later ih =>
    have hfirst := h.perform operation fun other heq => hmarks other (by simp [heq])
    have hrest := ih hfirst fun other hmem => hmarks other (List.mem_cons_of_mem _ hmem)
    rwa [List.append_assoc] at hrest

end EagerUnder

/-- Variables are resolved eagerly. As long as the marks stay the same, the bindings are in order at
the end of what is performed and at every moment on the way: a value refers to no variable whose
binding was made before its own. -/
theorem references_point_later {settings : Settings} {operations : List Operation}
    (hmarks : ∀ marks, .useMarks marks ∈ operations → marks = settings.marks) :
    PointsLater settings.marks.sigil (happenings ⟨settings, .empty⟩ operations)
        (performAll ⟨settings, .empty⟩ operations).memory.bindings ∧
      ∀ past now, Reaches ⟨settings, .empty⟩ operations past now →
        PointsLater settings.marks.sigil past now.memory.bindings := by
  have hstart : EagerUnder settings.marks [] ⟨settings, .empty⟩ := ⟨rfl, .nil _, .nil _⟩
  have hend := hstart.performAll hmarks
  exact ⟨hend.eager.pointsLater hend.bindings, fun past now hreaches =>
    (hstart.of_reaches hreaches hmarks).pointsLater hreaches.rebinding⟩

/-- A variable that an earlier one refers to, one that is bound again after a reset, and one that
refers to itself. -/
theorem references_point_later_again :
    let bound (v : Char) (value : Text) : Happening := .event (.bound [v] value)
    let kept : Text := ['1', '$', '$', 'x']
    let operations : List Operation := [.parse ['$', 'w', '=', '$', '$', 'u', ' ', '$', 'u', '=',
      '1', ' ', '$', 'v', '=', '[', '$', '$', 'w', '$', '$', 'x', ']', ' ', 'r', 'e', 's', 'e', 't',
      '=', '$', 'w', ' ', '$', 'w', '=', '2', ' ', '$', 'x', '=', '$', '$', 'v']]
    let hs : List Happening := [bound 'w' ['$', '$', 'u'], bound 'u' ['1'], bound 'v' kept,
      .event (.unbound ['w']), bound 'w' ['2'], bound 'x' kept]
    happenings ⟨.standard, .empty⟩ operations = hs ∧ RefersTo '$' kept ['x'] ∧
      PointsLater '$' hs (performAll ⟨.standard, .empty⟩ operations).memory.bindings := by
  intro bound kept operations hs
  have hhappened : happenings ⟨.standard, .empty⟩ operations = hs := by cbv
  have hsegments : Segment.ofText '$' kept = [.literal ['1'], .reference .plain ['x']] := by cbv
  have hmarks : ∀ marks, .useMarks marks ∈ operations → marks = Settings.standard.marks := by
    simp [operations]
  exact ⟨hhappened, ⟨.plain, by simp [hsegments]⟩, hhappened ▸ (references_point_later hmarks).1⟩

end Registry

end ParamLang
