import ParamLang.Proofs.Registry.Moment

/-! Variables: the first value that one is given stays until the variable is unbound. Nothing else
writes to the bindings, so this holds at every moment of every parse. -/
namespace ParamLang

/-- When something may happen to the variables, and what it makes of their bindings. -/
inductive Happening.Binds : Happening → Table Text → Table Text → Prop
  | bound {bindings : Table Text} {name : Text} (value : Text) (hname : name ≠ [])
      (hnew : bindings.find? name = none) :
      Binds (.event (.bound name value)) bindings (bindings.put name value)
  | unbound (bindings : Table Text) (name : Text) :
      Binds (.event (.unbound name)) bindings (bindings.erase name)
  | reset (bindings : Table Text) : Binds .reset bindings ∅
  | other {e : Event} (bindings : Table Text) (hbound : ∀ name value, e ≠ .bound name value)
      (hunbound : ∀ name, e ≠ .unbound name) : Binds (.event e) bindings bindings

/-- Whether a variable has no value after something happens, whatever it had before. -/
def Happening.unbinds (v : Text) : Happening → Prop
  | .event (.unbound name) => name = v
  | .event _ => False
  | .reset => True

lemma eq_unbound_of_unbinds {v : Text} {e : Event} (h : (Happening.event e).unbinds v) :
    e = .unbound v := by
  cases e with
  | unbound name => exact congrArg Event.unbound h
  | _ => exact h.elim

/-- The value was bound to the variable, and nothing has unbound the variable since. -/
def BoundIn (v value : Text) (hs : List Happening) : Prop :=
  ∃ earlier later, hs = earlier ++ .event (.bound v value) :: later ∧ ∀ h ∈ later, ¬h.unbinds v

/-- What happenings in order make of the bindings. -/
inductive Rebinding : Table Text → List Happening → Table Text → Prop
  | nil (bindings : Table Text) : Rebinding bindings [] bindings
  | cons {bindings bindings' bindings'' : Table Text} {h : Happening} {hs : List Happening}
      (first : h.Binds bindings bindings') (rest : Rebinding bindings' hs bindings'') :
      Rebinding bindings (h :: hs) bindings''

namespace Rebinding

variable {bindings bindings' bindings'' : Table Text} {hs hs' : List Happening} {v value : Text}

lemma append (h : Rebinding bindings hs bindings') (h' : Rebinding bindings' hs' bindings'') :
    Rebinding bindings (hs ++ hs') bindings'' := by
  induction h with
  | nil bindings => exact h'
  | cons first rest ih => exact .cons first (ih h')

lemma split (h : Rebinding bindings (hs ++ hs') bindings'') :
    ∃ bindings', Rebinding bindings hs bindings' ∧ Rebinding bindings' hs' bindings'' := by
  induction hs generalizing bindings with
  | nil => exact ⟨bindings, .nil bindings, h⟩
  | cons first hs ih =>
    cases h with
    | cons hfirst hrest =>
      obtain ⟨middle, hleft, hright⟩ := ih hrest
      exact ⟨middle, .cons hfirst hleft, hright⟩

/-- A variable that is bound stays as it is while nothing unbinds it. -/
lemma stays_bound (h : Rebinding bindings hs bindings') (hv : bindings.find? v = some value)
    (hkept : ∀ h ∈ hs, ¬h.unbinds v) : bindings'.find? v = some value := by
  induction h with
  | nil bindings => exact hv
  | @cons bindings middle bindings'' h hs first rest ih =>
    have hfirst := hkept h (by simp)
    refine ih ?_ fun h' hmem => hkept h' (List.mem_cons_of_mem h hmem)
    cases first with
    | @bound _ name new hname hnew =>
      have hne : v ≠ name := by
        rintro rfl
        simp [hv] at hnew
      simpa [Table.find?_put, hne] using hv
    | unbound _ name =>
      have hne : v ≠ name := fun heq => hfirst heq.symm
      simpa [Table.find?_erase, hne] using hv
    | reset => exact absurd trivial hfirst
    | other => exact hv

/-- A value that was bound and not unbound since is the variable's value. -/
lemma find?_of_boundIn (h : Rebinding bindings hs bindings') (hv : BoundIn v value hs) :
    bindings'.find? v = some value ∧ v ≠ [] := by
  obtain ⟨earlier, later, rfl, hkept⟩ := hv
  obtain ⟨middle, -, hrest⟩ := h.split
  cases hrest with
  | cons first rest =>
    cases first with
    | bound _ hname hnew => exact ⟨rest.stays_bound (by simp [Table.find?_put]) hkept, hname⟩
    | other _ hbound hunbound => exact absurd rfl (hbound v value)

/-- A value that a variable has in the end was bound on the way, or was there from the beginning. -/
lemma boundIn_or (h : Rebinding bindings hs bindings') (hv : bindings'.find? v = some value) :
    BoundIn v value hs ∨ bindings.find? v = some value ∧ ∀ h ∈ hs, ¬h.unbinds v := by
  induction h with
  | nil bindings => exact .inr ⟨hv, by simp⟩
  | @cons bindings middle bindings'' h hs first rest ih =>
    obtain ⟨earlier, later, rfl, hkept⟩ | ⟨hmiddle, hkept⟩ := ih hv
    · exact .inl ⟨h :: earlier, later, rfl, hkept⟩
    · cases first with
      | @bound _ name new hname hnew =>
        rw [Table.find?_put] at hmiddle
        split at hmiddle
        · rename_i heq
          obtain rfl := Option.some.inj hmiddle
          exact .inl ⟨[], hs, by rw [heq, List.nil_append], hkept⟩
        · exact .inr ⟨hmiddle, List.forall_mem_cons.mpr ⟨id, hkept⟩⟩
      | unbound _ name =>
        rw [Table.find?_erase] at hmiddle
        split at hmiddle
        · cases hmiddle
        · rename_i hne
          have hunbinds : ¬(Happening.event (.unbound name)).unbinds v := fun heq => hne heq.symm
          exact .inr ⟨hmiddle, List.forall_mem_cons.mpr ⟨hunbinds, hkept⟩⟩
      | reset => simp at hmiddle
      | @other e _ hbound hunbound =>
        have hunbinds : ¬(Happening.event e).unbinds v :=
          fun h => hunbound v (eq_unbound_of_unbinds h)
        exact .inr ⟨hmiddle, List.forall_mem_cons.mpr ⟨hunbinds, hkept⟩⟩

/-- From no bindings, the variables have just the values that were bound and not unbound since. -/
lemma find?_eq_some_iff (h : Rebinding ∅ hs bindings') :
    bindings'.find? v = some value ↔ BoundIn v value hs := by
  constructor
  · intro hv
    obtain hbound | ⟨hfirst, -⟩ := h.boundIn_or hv
    · exact hbound
    · simp at hfirst
  · exact fun hv => (h.find?_of_boundIn hv).1

end Rebinding

lemma Event.Acts.binds {s : Settings} {e : Event} {m m' : Memory} (h : e.Acts s m m') :
    (Happening.event e).Binds m.bindings m'.bindings := by
  cases h with
  | bound hname hnew hresolved => exact .bound _ hname hnew
  | unbound m name => exact .unbound _ name
  | _ => exact .other _ (by simp) (by simp)

lemma Run.rebinding {s : Settings} {events : List Event} {m m' : Memory} (h : Run s m events m') :
    Rebinding m.bindings (events.map .event) m'.bindings := by
  induction h with
  | nil m => exact .nil _
  | cons first rest ih => exact .cons first.binds ih

namespace Registry

variable {r : Registry}

lemma changed_rebinding {result : Except Fault Memory}
    (h : ∀ m, result = .ok m → m.bindings = r.memory.bindings) :
    Rebinding r.memory.bindings ((r.changed result).outcome.events.map .event)
      (r.changed result).registry.memory.bindings := by
  cases result with
  | error fault => exact .nil _
  | ok m =>
    rw [changed_ok, h m rfl]
    exact .nil _

lemma define_rebinding (name : Text) (cell : Cell) :
    Rebinding r.memory.bindings ((r.changed (r.memory.define name cell)).outcome.events.map .event)
      (r.changed (r.memory.define name cell)).registry.memory.bindings :=
  changed_rebinding fun _ hm => by rw [(Memory.define_eq_ok_iff.mp hm).2]

lemma perform_rebinding (r : Registry) (operation : Operation) :
    Rebinding r.memory.bindings (r.happenedIn operation)
      (r.perform operation).registry.memory.bindings := by
  cases operation with
  | useMarks | limitDepth | useIncluder | useSink | keepHistory => exact .nil _
  | define name => exact define_rebinding name _
  | defineWithDefault name default => exact define_rebinding name _
  | defineRepeatable name => exact define_rebinding name _
  | defineFlag name => exact define_rebinding name _
  | addAlias existing name =>
    refine changed_rebinding fun m hm => ?_
    obtain ⟨place, -, -, rfl⟩ := Memory.addAlias_eq_ok_iff.mp hm
    rfl
  | reset => exact .cons (.reset _) (.nil _)
  | parse text => exact (r.parse_runs text).rebinding

lemma performAll_rebinding (r : Registry) (operations : List Operation) :
    Rebinding r.memory.bindings (r.happenings operations)
      (r.performAll operations).memory.bindings := by
  induction operations generalizing r with
  | nil => exact .nil _
  | cons operation operations ih => exact (r.perform_rebinding operation).append (ih _)

lemma Reaches.rebinding {operations : List Operation} {past : List Happening} {now : Moment}
    (h : r.Reaches operations past now) : Rebinding r.memory.bindings past now.memory.bindings := by
  induction h with
  | inside hscan inner => exact inner.run.rebinding
  | next later ih => exact (perform_rebinding _ _).append ih

end Registry

namespace Moment

/-- The entry gives a value, as it is written, to a variable. -/
def Assigns (now : Moment) (v value : Text) : Prop :=
  ∃ name, now.entry = .pair name value ∧
    Interpret.HasRole now.settings now.memory name (.binding v)

/-- The entry is a reset, and among the names in its operand is that of a variable. -/
def Resets (now : Moment) (v : Text) : Prop :=
  ∃ name operand resolved names, now.entry = .pair name operand ∧
    Interpret.HasRole now.settings now.memory name (.directive .reset) ∧
    now.settings.resolve now.memory operand = .ok resolved ∧
    elements now.settings.marks resolved.text = .ok names ∧ now.settings.marks.sigil :: v ∈ names

variable {now : Moment} {v value : Text}

lemma outcome_of_assigns (h : now.Assigns v value) :
    now.outcome = Interpret.bindVariable now.settings v value now.memory := by
  obtain ⟨name, hentry, hrole⟩ := h
  rw [outcome, hentry, Interpret.entry, Interpret.pair_of_hasRole hrole, Interpret.inRole]

/-- An assignment to a bound variable does nothing, not even resolve the value. -/
lemma outcome_of_bound {old : Text} (h : now.Assigns v value) (hv : v ≠ [])
    (hbound : now.memory.bindings.find? v = some old) : now.outcome = .unchanged now.memory := by
  rw [outcome_of_assigns h, Interpret.bindVariable, if_neg hv,
    if_pos (by simp [Table.contains, hbound])]

/-- An assignment to an unbound variable binds it to what the value resolves to. -/
lemma outcome_of_unbound {resolved : Resolved} (h : now.Assigns v value) (hv : v ≠ [])
    (hunbound : now.memory.bindings.find? v = none)
    (hvalue : now.settings.resolve now.memory value = .ok resolved) :
    now.outcome = .noted [.bound v resolved.text] (now.memory.bind v resolved.text) := by
  rw [outcome_of_assigns h, Interpret.bindVariable, if_neg hv,
    if_neg (by simp [Table.contains, hunbound]), hvalue, Outcome.attempt]

end Moment

lemma Outcome.exists_mem_of_mem_each {α : Type} {act : α → Memory → Outcome} {e : Event}
    {as : List α} {m : Memory} (h : e ∈ (each act as m).events) :
    ∃ a ∈ as, ∃ m, e ∈ (act a m).events := by
  induction as generalizing m with
  | nil => simp [each, unchanged] at h
  | cons a as ih =>
    obtain hfirst | ⟨-, hrest⟩ := mem_andThen_events.mp h
    · exact ⟨a, by simp, m, hfirst⟩
    · obtain ⟨b, hb, m, hmem⟩ := ih hrest
      exact ⟨b, List.mem_cons_of_mem a hb, m, hmem⟩

/-- When a list is gone through to its end, what is done for each element is noted. -/
lemma Outcome.exists_events_subset_each {α : Type} {act : α → Memory → Outcome} {as : List α}
    {m : Memory} (h : (each act as m).fault = none) {a : α} (ha : a ∈ as) :
    ∃ m', (act a m').events ⊆ (each act as m).events := by
  induction as generalizing m with
  | nil => simp at ha
  | cons b as ih =>
    cases hfirst : (act b m).fault with
    | some fault => simp [each, andThen, hfirst] at h
    | none =>
      obtain rfl | ha := List.mem_cons.mp ha
      · exact ⟨m, fun e he => mem_andThen_events.mpr (.inl he)⟩
      · have hrest : (each act as (act b m).memory).fault = none := by
          simpa [each, andThen, hfirst] using h
        obtain ⟨m', hsubset⟩ := ih hrest ha
        exact ⟨m', fun e he => mem_andThen_events.mpr (.inr ⟨hfirst, hsubset he⟩)⟩

lemma Interpret.resetName_variable (s : Settings) (v : Text) (m : Memory) :
    resetName s (s.marks.sigil :: v) m = .noted [.unbound v] (m.unbind v) := by
  rw [resetName, Marks.variableOf?_eq_some_iff.mpr rfl]

lemma Interpret.eq_of_unbound_resetName {s : Settings} {name v : Text} {m : Memory}
    (h : .unbound v ∈ (resetName s name m).events) : name = s.marks.sigil :: v := by
  unfold resetName at h
  split at h
  · rename_i hname
    obtain rfl : v = _ := by simpa [Outcome.noted] using h
    exact Marks.variableOf?_eq_some_iff.mp hname
  · cases hplace : m.place name <;>
      simp [hplace, Outcome.attempt, Outcome.noted, Outcome.failed] at h

/-- Of what entries do themselves, only a reset unbinds, and only what it names. -/
lemma Moment.resets_of_unbound {now : Moment} {v : Text} {o : Outcome}
    (hown : Interpret.Own now.settings now.memory now.entry o) (h : .unbound v ∈ o.events) :
    now.Resets v := by
  generalize hentry : now.entry = e at hown
  cases hown with
  | @reset name operand resolved names hrole hoperand hnames =>
    obtain ⟨target, htarget, m, hmem⟩ := Outcome.exists_mem_of_mem_each h
    obtain rfl := Interpret.eq_of_unbound_resetName hmem
    exact ⟨name, operand, resolved, names, hentry, hrole, hoperand, hnames, htarget⟩
  | dumped hrole => simp [Interpret.dump, Outcome.noted] at h
  | _ => simp [Outcome.failed, Outcome.unchanged, Outcome.noted] at h

/-- A reset that does not fail unbinds all variables that it names. -/
lemma Moment.unbound_of_resets {now : Moment} {v : Text} (h : now.Resets v)
    (hdone : now.outcome.fault = none) : .unbound v ∈ now.outcome.events := by
  obtain ⟨name, operand, resolved, names, hentry, hrole, hoperand, hnames, hv⟩ := h
  have houtcome : now.outcome = .each (Interpret.resetName now.settings) names now.memory := by
    rw [outcome, hentry, Interpret.entry, Interpret.pair_of_hasRole hrole, Interpret.inRole,
      Interpret.directive, hoperand, Outcome.attempt, Interpret.resetNames, hnames, Outcome.attempt]
  rw [houtcome] at hdone ⊢
  obtain ⟨m, hsubset⟩ := Outcome.exists_events_subset_each hdone hv
  rw [Interpret.resetName_variable] at hsubset
  exact hsubset (by simp [Outcome.noted])

namespace Registry

/-- Variables are first-wins. At every moment of what is performed on a new registry, as at its end,
the value of a variable is the one that was bound to it and has not been unbound since. Only a reset
of everything unbinds a variable, or an entry that is a reset and names it, at the moment when it
comes up. Meanwhile any assignment to the variable does nothing, and otherwise it binds the value as
it resolves then. -/
theorem variable_first_wins (operations : List Operation) (v : Text) :
    (∀ value, (new.performAll operations).variableValue? v = some value ↔
      BoundIn v value (new.happenings operations)) ∧
    (∀ earlier h, earlier ++ [h] <+: new.happenings operations → h.unbinds v → h = .reset ∨
      ∃ past now before, new.Reaches operations past now ∧ now.Resets v ∧
        now.outcome.Notes before (.unbound v) ∧ earlier = past ++ before.map .event) ∧
    ∀ past now, new.Reaches operations past now →
      (∀ value, now.memory.bindings.find? v = some value ↔ BoundIn v value past) ∧
      (now.Resets v → now.outcome.fault = none → .unbound v ∈ now.outcome.events) ∧
      ∀ assigned, now.Assigns v assigned →
        (∀ value, BoundIn v value past → now.outcome = .unchanged now.memory) ∧
        ((∀ value, ¬BoundIn v value past) → v ≠ [] → ∀ resolved,
          now.settings.resolve now.memory assigned = .ok resolved →
            now.outcome = .noted [.bound v resolved.text] (now.memory.bind v resolved.text)) := by
  refine ⟨fun value => (performAll_rebinding new operations).find?_eq_some_iff, ?_, ?_⟩
  · intro earlier h hprefix hunbinds
    cases h with
    | reset => exact .inl rfl
    | event e =>
      obtain ⟨rfl⟩ : e = .unbound v := eq_unbound_of_unbinds hunbinds
      obtain ⟨past, now, before, hreaches, hown, hnotes, hearlier⟩ := exists_moment rfl hprefix
      have hresets := Moment.resets_of_unbound hown hnotes.mem
      exact .inr ⟨past, now, before, hreaches, hresets, hnotes, hearlier⟩
  intro past now hreaches
  have hrebinding : Rebinding ∅ past now.memory.bindings := hreaches.rebinding
  refine ⟨fun value => hrebinding.find?_eq_some_iff, Moment.unbound_of_resets, ?_⟩
  intro assigned hassigns
  constructor
  · intro value hvalue
    obtain ⟨hbound, hv⟩ := hrebinding.find?_of_boundIn hvalue
    exact Moment.outcome_of_bound hassigns hv hbound
  · intro hnone hv resolved hresolved
    have hunbound : now.memory.bindings.find? v = none :=
      Option.eq_none_iff_forall_ne_some.mpr fun value hvalue =>
        hnone value (hrebinding.find?_eq_some_iff.mp hvalue)
    exact Moment.outcome_of_unbound hassigns hv hunbound hresolved

/-- A variable that is bound again after a reset, and before that is given a value that is a cycle. -/
theorem variable_first_wins_cycle :
    let v : Text := ['v']
    let cyclic : Text := ['$', '$', 'c']
    let operations : List Operation := [.parse ['$', 'v', '=', '1', ' ', '$', 'c', '=', '$', '$',
      'c', ' ', '$', 'v', '=', '$', '$', 'c', ' ', 'r', 'e', 's', 'e', 't', '=', '$', 'v', ' ', '$',
      'v', '=', '2']]
    (BoundIn v ['2'] (new.happenings operations) ∧
        (new.performAll operations).variableValue? v = some ['2']) ∧
      ∃ past now, new.Reaches operations past now ∧ BoundIn v ['1'] past ∧ now.Assigns v cyclic ∧
        now.settings.resolve now.memory cyclic = .error (.variableCycle ['c']) ∧
        now.outcome = .unchanged now.memory := by
  intro v cyclic operations
  obtain ⟨hlast, -, hmoments⟩ := variable_first_wins operations v
  have hvalue : (new.performAll operations).variableValue? v = some ['2'] := by cbv
  refine ⟨⟨(hlast _).mp hvalue, hvalue⟩, ?_⟩
  let one : Memory := { Memory.empty with bindings := .ofList [(v, ['1'])] }
  let two : Memory := { Memory.empty with bindings := .ofList [(v, ['1']), (['c'], cyclic)] }
  have hscan : scan .standard ['$', 'v', '=', '1', ' ', '$', 'c', '=', '$', '$', 'c', ' ', '$', 'v',
      '=', '$', '$', 'c', ' ', 'r', 'e', 's', 'e', 't', '=', '$', 'v', ' ', '$', 'v', '=', '2'] =
      .ok [.pair ['$', 'v'] ['1'], .pair ['$', 'c'] cyclic, .pair ['$', 'v'] cyclic,
        .pair ['r', 'e', 's', 'e', 't'] ['$', 'v'], .pair ['$', 'v'] ['2']] := by cbv
  have hfirst : Moment.outcome ⟨.standard, 100, [], .pair ['$', 'v'] ['1'], .empty⟩ =
      .noted [.bound v ['1']] one := by cbv
  have hsecond : Moment.outcome ⟨.standard, 100, [], .pair ['$', 'c'] cyclic, one⟩ =
      .noted [.bound ['c'] cyclic] two := by cbv
  have hreaches : new.Reaches operations _ ⟨.standard, 100, [], .pair ['$', 'v'] cyclic, two⟩ :=
    .inside hscan (.next hfirst rfl (.next hsecond rfl (.here ..)))
  obtain ⟨hvalues, -, hassign⟩ := hmoments _ _ hreaches
  have hbound : BoundIn v ['1'] _ := (hvalues ['1']).mp (by decide)
  have hassigns : Moment.Assigns ⟨.standard, 100, [], .pair ['$', 'v'] cyclic, two⟩ v cyclic :=
    ⟨['$', 'v'], rfl, ⟨['$', 'v'], false⟩, by cbv, rfl⟩
  exact ⟨_, _, hreaches, hbound, hassigns, by cbv, (hassign cyclic hassigns).1 ['1'] hbound⟩

end Registry

end ParamLang
