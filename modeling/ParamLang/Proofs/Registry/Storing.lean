import ParamLang.Proofs.Registry.Depth

/-! Stores. Parameters get their values from assignments, from flags that are turned on and from
values without a name, and each of these notes one store and makes it. -/
namespace ParamLang

namespace Moment

/-- The entry gives the value to the parameter with the name. -/
def Stores (now : Moment) (name value : Text) : Prop :=
  Interpret.Stores now.settings now.memory now.entry name value

variable {now : Moment} {name value : Text} {place : Nat}

lemma outcome_of_stores (h : now.Stores name value)
    (hplace : now.memory.names.find? name = some place) :
    now.outcome = .noted [.stored place name value]
      (now.memory.store now.settings.marks place name value) := by
  rw [outcome, Interpret.entry_of_stores h, Interpret.store, Memory.place_eq_ok_iff.mpr hplace,
    Outcome.attempt]

/-- A name that is not defined is given nothing. Flags and the empty name are always defined. -/
lemma outcome_of_undefined (h : now.Stores name value)
    (hundefined : now.memory.names.find? name = none) :
    now.outcome = .failed now.memory (.undefinedParameter name) := by
  have hplace : now.memory.place name = .error (.undefinedParameter name) := by
    rw [Memory.place, hundefined]
  rw [outcome, Interpret.entry_of_stores h, Interpret.store, hplace, Outcome.attempt]

/-- Of what entries do themselves, only a store is noted as one. -/
lemma stores_of_stored {o : Outcome} {earlier : List Event}
    (hown : Interpret.Own now.settings now.memory now.entry o)
    (h : o.Notes earlier (.stored place name value)) :
    now.Stores name value ∧ now.memory.names.find? name = some place ∧ earlier = [] := by
  generalize hentry : now.entry = e at hown
  cases hown with
  | stored hstores hplace =>
    subst hentry
    obtain ⟨rfl, ⟨⟩⟩ := Outcome.notes_one h
    exact ⟨hstores, hplace, rfl⟩
  | reset =>
    have honly := Interpret.each_resetName_only
      (P := fun event => event ≠ .stored place name value) (by simp) (by simp)
    exact absurd rfl (honly _ _ _ _ h.mem)
  | dumped => simpa [Interpret.dump, Outcome.noted] using h.mem
  | _ => simpa [Outcome.failed, Outcome.unchanged, Outcome.noted] using h.mem

end Moment

namespace Registry

/-- What is stored is what entries give. Every store is noted by an entry that gives the value to
the parameter, at the moment when it comes up. An entry that gives a value to a parameter assigns it
to the parameter's cell, logs it, and notes this one store and nothing else, or the parameter is not
defined and the entry fails. -/
theorem stored_by_entries (r : Registry) (operations : List Operation) :
    (∀ earlier place name value,
      earlier ++ [.event (.stored place name value)] <+: r.happenings operations →
        ∃ now, r.Reaches operations earlier now ∧ now.Stores name value ∧
          now.memory.names.find? name = some place) ∧
    ∀ past now name value, r.Reaches operations past now → now.Stores name value →
      (∀ place, now.memory.names.find? name = some place →
        now.outcome = .noted [.stored place name value]
          (now.memory.store now.settings.marks place name value) ∧
        past ++ [.event (.stored place name value)] <+: r.happenings operations) ∧
      (now.memory.names.find? name = none →
        now.outcome = .failed now.memory (.undefinedParameter name)) := by
  refine ⟨fun earlier place name value hprefix => ?_, fun past now name value hreaches hstores => ?_⟩
  · obtain ⟨past, now, _, hreaches, hown, hnotes, rfl⟩ := exists_moment rfl hprefix
    obtain ⟨hstores, hplace, rfl⟩ := Moment.stores_of_stored hown hnotes
    rw [List.map_nil, List.append_nil]
    exact ⟨now, hreaches, hstores, hplace⟩
  · refine ⟨fun place hplace => ?_, Moment.outcome_of_undefined hstores⟩
    have houtcome := Moment.outcome_of_stores hstores hplace
    have hhappens := hreaches.happens
    rw [houtcome] at hhappens
    exact ⟨houtcome, hhappens⟩

end Registry

end ParamLang
