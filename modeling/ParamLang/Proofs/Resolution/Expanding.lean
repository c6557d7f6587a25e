import ParamLang.Proofs.Resolution.Cycle

/-! The calls that a resolution consists of, each for the value of a variable or for a rebuilt text,
and the variables whose expansion is in progress at each. The table of active variables is the stack
of these expansions: they are noted in it with growing depths, a call that succeeds leaves it as it
was, and so a cycle is found just where a variable is met inside its own expansion. -/
namespace ParamLang.Resolver

/-- The variables whose expansion is in progress, innermost first, each with the depth of the text
that refers to it. -/
abbrev Expanding := List (Text × Nat)

/-- The depth of a text for which a number of levels is left, its own included. -/
def depth (r : Resolver) (levels : Nat) : Nat := r.limit + 1 - levels

/-- The rebuilding of a text, with a number of levels below it, comes to a reference to the name and
finds the variables there active, after all before the reference has been rebuilt. -/
inductive Meets (r : Resolver) (levels : Nat) (text : Text) (active : Active) :
    Text → Active → Prop
  | intro {before after : List Segment} {form : ReferenceForm} {name : Text} {built : Rebuilt}
      (hsplit : Segment.ofText r.sigil text = before ++ .reference form name :: after)
      (hbefore : r.rebuild (r.resolveAt levels) (r.depth (levels + 1)) before active = .ok built) :
      Meets r levels text active name built.active

/-- The resolution of a text comes to a call: to itself, to one for the value of a variable that is
met, which is in progress from then on, or to one for a text that was rebuilt and changed. -/
inductive Enters (r : Resolver) (text : Text) : Expanding → Nat → Text → Active → Prop
  | start : Enters r text [] (r.limit + 1) text ∅
  | value {expanding : Expanding} {levels : Nat} {inner name value : Text}
      {active current : Active} (call : Enters r text expanding (levels + 1) inner active)
      (hmeets : Meets r levels inner active name current)
      (hvalue : r.bindings.find? name = some value)
      (hcycle : isCycle current name (r.depth (levels + 1)) = false) :
      Enters r text ((name, r.depth (levels + 1)) :: expanding) levels value
        (current.put name (r.depth (levels + 1)))
  | again {expanding : Expanding} {levels : Nat} {inner : Text} {active : Active}
      {built : Rebuilt} (call : Enters r text expanding (levels + 1) inner active)
      (hbuilt : r.rebuild (r.resolveAt levels) (r.depth (levels + 1))
        (Segment.ofText r.sigil inner) active = .ok built)
      (hchanged : built.resolved.changed = true) :
      Enters r text expanding levels built.resolved.text built.active

/-- A bound variable is met while its own expansion is in progress. -/
def MeetsItself (r : Resolver) (text name : Text) : Prop :=
  ∃ expanding levels inner active current value,
    r.Enters text expanding (levels + 1) inner active ∧ r.Meets levels inner active name current ∧
      r.bindings.find? name = some value ∧ name ∈ expanding.map Prod.fst

/-- The active variables are the expansions in progress, none of them twice, each entered above the
depth of the call. -/
structure IsStack (r : Resolver) (expanding : Expanding) (levels : Nat) (active : Active) :
    Prop where
  once : (expanding.map Prod.fst).Nodup
  noted : ∀ name entered, active.find? name = some entered ↔ (name, entered) ∈ expanding
  above : ∀ name entered, (name, entered) ∈ expanding → entered < r.depth levels

variable {r : Resolver} {deeper : Text → Active → Except Fault Rebuilt} {d levels : Nat}
  {before after segments : List Segment} {form : ReferenceForm} {active current : Active}
  {built : Rebuilt} {text inner name value : Text} {expanding : Expanding} {fault : Fault}

@[simp] lemma depth_succ (r : Resolver) (levels : Nat) :
    r.depth (levels + 1) = r.limit - levels := Nat.add_sub_add_right ..

lemma rebuild_cycle (hvalue : r.bindings.find? name = some value)
    (hcycle : isCycle active name d = true) (segments : List Segment) :
    r.rebuild deeper d (.reference form name :: segments) active =
      .error (.variableCycle name) := by
  simp only [rebuild, hvalue, hcycle, if_true, error_bind]

lemma rebuild_bound (hvalue : r.bindings.find? name = some value)
    (hcycle : isCycle active name d = false) (segments : List Segment) :
    r.rebuild deeper d (.reference form name :: segments) active = (do
      let expanded ← deeper value (active.put name d)
      let tail ← r.rebuild deeper d segments (expanded.active.erase name)
      .ok (tail.prepend expanded.resolved.text true)) := by
  simp only [rebuild, hvalue, hcycle, Bool.false_eq_true, if_false]

lemma Rebuilt.prepend_append (t : Text) (changed : Bool) (front : Rebuilt) (back : Resolved)
    (active : Active) : Rebuilt.prepend t changed ⟨front.resolved.append back, active⟩ =
      ⟨(front.prepend t changed).resolved.append back, active⟩ := by
  simp only [Rebuilt.prepend, Resolved.append, List.append_assoc, Bool.or_assoc]

/-- Segments are rebuilt from left to right, each with the active variables that those before it
leave. -/
lemma rebuild_append (r : Resolver) (deeper : Text → Active → Except Fault Rebuilt) (d : Nat)
    (before after : List Segment) (active : Active) :
    r.rebuild deeper d (before ++ after) active = (do
      let front ← r.rebuild deeper d before active
      let back ← r.rebuild deeper d after front.active
      .ok ⟨front.resolved.append back.resolved, back.active⟩) := by
  induction before generalizing active with
  | nil =>
    rw [List.nil_append, rebuild, ok_bind]
    cases r.rebuild deeper d after active <;> rfl
  | cons s before ih =>
    rw [List.cons_append]
    cases s with
    | literal t =>
      simp only [rebuild, ih, bind_assoc, ok_bind, Rebuilt.prepend_append]
      rfl
    | reference form name =>
      cases hname : r.bindings.find? name with
      | none =>
        cases hundefined : r.undefined <;>
          simp only [rebuild, hname, hundefined, ih, bind_assoc, ok_bind,
            Rebuilt.prepend_append] <;> rfl
      | some value =>
        cases hcycle : isCycle active name d with
        | true => simp only [rebuild_cycle hname hcycle, error_bind]
        | false =>
          simp only [rebuild_bound hname hcycle, ih, bind_assoc, ok_bind, Rebuilt.prepend_append]
          rfl

lemma rebuild_append_error (hbefore : r.rebuild deeper d before active = .ok built)
    (hafter : r.rebuild deeper d after built.active = .error fault) :
    r.rebuild deeper d (before ++ after) active = .error fault := by
  rw [rebuild_append, hbefore, ok_bind, hafter, error_bind]

/-- A segment alone is at fault if it is a reference to a variable that is a cycle or whose value
cannot be resolved. -/
lemma rebuild_single_error {s : Segment} (h : r.rebuild deeper d [s] active = .error fault) :
    ∃ form name value, s = .reference form name ∧ r.bindings.find? name = some value ∧
      (isCycle active name d = true ∧ fault = .variableCycle name ∨
        isCycle active name d = false ∧ deeper value (active.put name d) = .error fault) := by
  cases s with
  | literal t => simp [rebuild] at h
  | reference form name =>
    cases hname : r.bindings.find? name with
    | none => cases hundefined : r.undefined <;> simp [rebuild, hname, hundefined] at h
    | some value =>
      refine ⟨form, name, value, rfl, hname, ?_⟩
      cases hcycle : isCycle active name d with
      | true =>
        rw [rebuild_cycle hname hcycle] at h
        exact .inl ⟨rfl, (Except.error.inj h).symm⟩
      | false =>
        rw [rebuild_bound hname hcycle, bind_eq_error_iff] at h
        obtain hdeeper | ⟨expanded, -, hend⟩ := h
        · exact .inr ⟨rfl, hdeeper⟩
        · cases hend

/-- A rebuilding that fails does so at one of its segments, after all before it were rebuilt. -/
lemma rebuild_error (h : r.rebuild deeper d segments active = .error fault) :
    ∃ before s after built, segments = before ++ s :: after ∧
      r.rebuild deeper d before active = .ok built ∧
      r.rebuild deeper d [s] built.active = .error fault := by
  induction segments generalizing active with
  | nil => cases h
  | cons s segments ih =>
    cases hfirst : r.rebuild deeper d [s] active with
    | error e =>
      rw [← List.singleton_append, rebuild_append, hfirst, error_bind] at h
      exact ⟨[], s, segments, _, rfl, rfl, hfirst.trans h⟩
    | ok front =>
      rw [← List.singleton_append, rebuild_append, hfirst, ok_bind, bind_eq_error_iff] at h
      obtain hrest | ⟨back, -, hend⟩ := h
      · obtain ⟨before, t, after, built, rfl, hbefore, hafter⟩ := ih hrest
        refine ⟨s :: before, t, after, ⟨front.resolved.append built.resolved, built.active⟩,
          rfl, ?_, hafter⟩
        rw [← List.singleton_append, rebuild_append, hfirst, ok_bind, hbefore, ok_bind]
      · cases hend

/-- What holds at every call: the active variables are those in progress, none of them twice, and
the value of each needs the text of the call, above which it was entered. -/
structure Stacked (r : Resolver) (expanding : Expanding) (levels : Nat) (inner : Text)
    (active : Active) : Prop where
  within : levels ≤ r.limit + 1
  opened : Open r active levels inner
  once : (expanding.map Prod.fst).Nodup
  noted : ∀ name entered, active.find? name = some entered ↔ (name, entered) ∈ expanding

namespace Stacked

lemma start (r : Resolver) (text : Text) : Stacked r [] (r.limit + 1) text ∅ where
  within := Nat.le_refl _
  opened := open_empty
  once := List.nodup_nil
  noted name entered := by simp

lemma isStack (h : Stacked r expanding levels inner active) :
    IsStack r expanding levels active where
  once := h.once
  noted := h.noted
  above name entered hmem := by
    have hentered := (h.opened name entered ((h.noted name entered).mpr hmem)).1
    rw [depth]
    omega

lemma restores (h : Stacked r expanding levels inner active)
    (hbuilt : r.resolveAt levels inner active = .ok built) : built.active = active := by
  have hagrees := resolveAt_agrees h.within h.opened
  rw [hbuilt] at hagrees
  exact hagrees.of_ok.2

variable (h : Stacked r expanding (levels + 1) inner active)
include h

/-- Segments of the text of a call that were rebuilt have left the active variables alone. -/
lemma agrees_rebuild (hmem : ∀ s ∈ segments, s ∈ Segment.ofText r.sigil inner) :
    Agrees r active inner (r.rebuild (r.resolveAt levels) (r.depth (levels + 1)) segments active)
      (r.fill (r.uncheckedAt levels) segments) := by
  have hlevels : levels ≤ r.limit := Nat.le_of_succ_le_succ h.within
  rw [depth_succ]
  exact rebuild_agrees hlevels
    (fun inside text hopen => resolveAt_agrees (Nat.le_succ_of_le hlevels) hopen) h.opened hmem

lemma active_of_meets (hmeets : Meets r levels inner active name current) : current = active := by
  obtain ⟨hsplit, hbefore⟩ := hmeets
  have hagrees := h.agrees_rebuild fun s hs => by
    rw [hsplit]
    exact List.mem_append_left _ hs
  rw [hbefore] at hagrees
  exact hagrees.of_ok.2

lemma isCycle_iff (name : Text) :
    isCycle active name (r.depth (levels + 1)) = true ↔ name ∈ expanding.map Prod.fst := by
  rw [depth_succ, isCycle_eq_isSome h.opened, Option.isSome_iff_exists, List.mem_map]
  constructor
  · rintro ⟨entered, hentered⟩
    exact ⟨(name, entered), (h.noted name entered).mp hentered, rfl⟩
  · rintro ⟨⟨_, entered⟩, hmem, rfl⟩
    exact ⟨entered, (h.noted _ entered).mpr hmem⟩

/-- The value of a variable is resolved with the variable on top of the stack. -/
lemma push (hmem : .reference form name ∈ Segment.ofText r.sigil inner)
    (hvalue : r.bindings.find? name = some value) (hname : name ∉ expanding.map Prod.fst) :
    Stacked r ((name, r.depth (levels + 1)) :: expanding) levels value
      (active.put name (r.depth (levels + 1))) where
  within := Nat.le_of_succ_le h.within
  opened := by
    rw [depth_succ]
    exact (h.opened.deeper (needs_value hmem hvalue)).put (Nat.le_of_succ_le_succ h.within) hvalue
  once := List.nodup_cons.mpr ⟨hname, h.once⟩
  noted other entered := by
    rw [Table.find?_put, List.mem_cons, Prod.mk.injEq, ← h.noted]
    by_cases hother : other = name
    · subst hother
      have hnone : active.find? other ≠ some entered := fun hfound =>
        hname (List.mem_map_of_mem ((h.noted other entered).mp hfound))
      simp [hnone, eq_comm]
    · simp [hother]

lemma again (hbuilt : r.rebuild (r.resolveAt levels) (r.depth (levels + 1))
      (Segment.ofText r.sigil inner) active = .ok built)
    (hchanged : built.resolved.changed = true) :
    Stacked r expanding levels built.resolved.text built.active := by
  have hagrees := h.agrees_rebuild fun s hs => hs
  rw [hbuilt] at hagrees
  obtain ⟨hfill, hactive⟩ := hagrees.of_ok
  rw [hactive]
  exact ⟨Nat.le_of_succ_le h.within, h.opened.deeper (needs_rebuilt hfill hchanged), h.once,
    h.noted⟩

end Stacked

lemma Meets.mem (h : Meets r levels inner active name current) :
    ∃ form, Segment.reference form name ∈ Segment.ofText r.sigil inner := by
  obtain ⟨hsplit, -⟩ := h
  exact ⟨_, hsplit ▸ List.mem_append_right _ (List.mem_cons_self ..)⟩

/-- A fault of what begins with the reference that is met is a fault of the whole text. -/
lemma Meets.resolveAt_error (h : Meets r levels inner active name current)
    (hfault : ∀ form after, r.rebuild (r.resolveAt levels) (r.depth (levels + 1))
      (.reference form name :: after) current = .error fault) :
    r.resolveAt (levels + 1) inner active = .error fault := by
  cases h with
  | @intro before after form _ built hsplit hbefore =>
    have hrebuild := rebuild_append_error hbefore (hfault form after)
    rw [depth_succ] at hrebuild
    rw [resolveAt, hsplit, hrebuild, error_bind]

namespace Enters

lemma stacked (h : Enters r text expanding levels inner active) :
    Stacked r expanding levels inner active := by
  induction h with
  | start => exact .start r text
  | value call hmeets hvalue hcycle ih =>
    obtain rfl := ih.active_of_meets hmeets
    obtain ⟨form, hmem⟩ := hmeets.mem
    refine ih.push hmem hvalue fun hname => ?_
    rw [(ih.isCycle_iff _).mpr hname] at hcycle
    cases hcycle
  | again call hbuilt hchanged ih => exact ih.again hbuilt hchanged

/-- A fault at any call ends the resolution. -/
lemma resolve_error (h : Enters r text expanding levels inner active)
    (hfault : r.resolveAt levels inner active = .error fault) : r.resolve text = .error fault := by
  induction h with
  | start => rw [resolve, hfault, error_bind]
  | value call hmeets hvalue hcycle ih =>
    refine ih (hmeets.resolveAt_error fun form after => ?_)
    rw [rebuild_bound hvalue hcycle, hfault, error_bind]
  | again call hbuilt hchanged ih =>
    refine ih ?_
    rw [depth_succ] at hbuilt
    simp only [resolveAt, hbuilt, ok_bind, hchanged, if_true, hfault, error_bind]

/-- A bound variable that is met in its own expansion is a cycle. -/
lemma cycle_of_meets (h : Enters r text expanding (levels + 1) inner active)
    (hmeets : Meets r levels inner active name current)
    (hvalue : r.bindings.find? name = some value) (hname : name ∈ expanding.map Prod.fst) :
    r.resolve text = .error (.variableCycle name) := by
  obtain rfl := h.stacked.active_of_meets hmeets
  have hcycle := (h.stacked.isCycle_iff name).mpr hname
  exact h.resolve_error (hmeets.resolveAt_error fun _ after => rebuild_cycle hvalue hcycle after)

/-- Below a call that ends with a cycle, a variable is met in its own expansion. -/
lemma meetsItself (h : Enters r text expanding levels inner active)
    (hfault : r.resolveAt levels inner active = .error (.variableCycle name)) :
    r.MeetsItself text name := by
  induction levels generalizing expanding inner active with
  | zero => cases hfault
  | succ levels ih =>
    rw [resolveAt, bind_eq_error_iff, ← depth_succ] at hfault
    obtain hrebuild | ⟨built, hbuilt, hagain⟩ := hfault
    · obtain ⟨before, s, after, built, hsplit, hbefore, hsingle⟩ := rebuild_error hrebuild
      obtain ⟨form, met, value, rfl, hvalue, hfound | ⟨hcycle, hdeeper⟩⟩ :=
        rebuild_single_error hsingle
      · obtain ⟨hcycle, hname⟩ := hfound
        obtain rfl : name = met := by simpa using hname
        have hmeets : Meets r levels inner active name built.active := .intro hsplit hbefore
        rw [h.stacked.active_of_meets hmeets, h.stacked.isCycle_iff] at hcycle
        exact ⟨_, _, _, _, _, value, h, hmeets, hvalue, hcycle⟩
      · exact ih (h.value (.intro hsplit hbefore) hvalue hcycle) hdeeper
    · cases hchanged : built.resolved.changed with
      | false => simp [hchanged] at hagain
      | true =>
        simp only [hchanged, if_true, bind_eq_error_iff] at hagain
        obtain hdeeper | ⟨_, -, hend⟩ := hagain
        · exact ih (h.again hbuilt hchanged) hdeeper
        · cases hend

/-- A rebuilding resolves nothing but by the calls that are entered from it. -/
lemma rebuild_congr (h : Enters r text expanding (levels + 1) inner active)
    (hdeeper : ∀ expanding inner active, Enters r text expanding levels inner active →
      deeper inner active = r.resolveAt levels inner active)
    (hsplit : Segment.ofText r.sigil inner = before ++ after) :
    r.rebuild deeper (r.depth (levels + 1)) before active =
      r.rebuild (r.resolveAt levels) (r.depth (levels + 1)) before active := by
  induction before using List.reverseRecOn generalizing after with
  | nil => rfl
  | append_singleton before s ih =>
    rw [List.append_assoc] at hsplit
    rw [rebuild_append, rebuild_append, ih hsplit]
    cases hfront : r.rebuild (r.resolveAt levels) (r.depth (levels + 1)) before active with
    | error e => rfl
    | ok front =>
      have hsingle : r.rebuild deeper (r.depth (levels + 1)) [s] front.active =
          r.rebuild (r.resolveAt levels) (r.depth (levels + 1)) [s] front.active := by
        cases s with
        | literal t => rfl
        | reference form name =>
          cases hvalue : r.bindings.find? name with
          | none => simp only [rebuild, hvalue]
          | some value =>
            cases hcycle : isCycle front.active name (r.depth (levels + 1)) with
            | true => rw [rebuild_cycle hvalue hcycle, rebuild_cycle hvalue hcycle]
            | false =>
              have hcall := h.value (.intro hsplit hfront) hvalue hcycle
              rw [rebuild_bound hvalue hcycle, rebuild_bound hvalue hcycle, hdeeper _ _ _ hcall]
              rfl
      rw [ok_bind, ok_bind, hsingle]

end Enters

/-- At every call of a resolution the active variables are the stack of the expansions in progress,
and a call that succeeds leaves them as they were. No reference is met at the depth that is noted
for its variable, and a variable whose expansion is not in progress is expanded, whether it was
before or not. Just the variables that are met in their own expansion are reported as cycles. The
calls are all there are: what a rebuilding makes of a text depends on nothing else. -/
theorem expansions_stack (r : Resolver) (text : Text) :
    (∀ expanding levels inner active, r.Enters text expanding levels inner active →
      IsStack r expanding levels active ∧
        ∀ built, r.resolveAt levels inner active = .ok built → built.active = active) ∧
    (∀ expanding levels inner active name current value,
      r.Enters text expanding (levels + 1) inner active → r.Meets levels inner active name current →
      r.bindings.find? name = some value →
        current = active ∧ current.find? name ≠ some (r.depth (levels + 1)) ∧
        (name ∉ expanding.map Prod.fst →
          r.Enters text ((name, r.depth (levels + 1)) :: expanding) levels value
            (current.put name (r.depth (levels + 1))))) ∧
    (∀ name, r.resolve text = .error (.variableCycle name) ↔ r.MeetsItself text name) ∧
    ∀ expanding levels inner active, r.Enters text expanding (levels + 1) inner active →
      ∀ deeper : Text → Active → Except Fault Rebuilt,
        (∀ expanding inner active, r.Enters text expanding levels inner active →
          deeper inner active = r.resolveAt levels inner active) →
        r.rebuild deeper (r.depth (levels + 1)) (Segment.ofText r.sigil inner) active =
          r.rebuild (r.resolveAt levels) (r.depth (levels + 1)) (Segment.ofText r.sigil inner)
            active := by
  refine ⟨fun expanding levels inner active h => ⟨h.stacked.isStack, fun _ => h.stacked.restores⟩,
    ?_, fun name => ⟨fun hcycle => ?_, ?_⟩, fun expanding levels inner active h deeper hdeeper => ?_⟩
  · intro expanding levels inner active name current value h hmeets hvalue
    have hstacked := h.stacked
    obtain rfl := hstacked.active_of_meets hmeets
    refine ⟨rfl, fun hentered => ?_, fun hname => ?_⟩
    · have habove := hstacked.isStack.above name _ ((hstacked.noted name _).mp hentered)
      exact Nat.lt_irrefl _ habove
    · have hcycle := Bool.eq_false_iff.mpr (mt (hstacked.isCycle_iff name).mp hname)
      exact h.value hmeets hvalue hcycle
  · rw [resolve, bind_eq_error_iff] at hcycle
    obtain hfault | ⟨built, -, hend⟩ := hcycle
    · exact Enters.start.meetsItself hfault
    · cases hend
  · rintro ⟨expanding, levels, inner, active, current, value, h, hmeets, hvalue, hname⟩
    exact h.cycle_of_meets hmeets hvalue hname
  · exact h.rebuild_congr hdeeper (List.append_nil _).symm

/-- A variable that refers to another one and then to itself. The other one is met before and again
in the expansion of the first, which alone is a cycle. -/
theorem expansions_stack_again :
    let inner : Text := ['$', '{', 'a', '}', '$', '$', 'c']
    let r : Resolver := ⟨.ofList [(['a'], ['y']), (['c'], inner)], '$', .keep, 9⟩
    let text : Text := ['$', '$', 'a', ' ', '$', '$', 'c']
    let active : Active := .put ∅ ['c'] 0
    (r.Enters text [(['c'], 0)] 9 inner active ∧ IsStack r [(['c'], 0)] 9 active) ∧
      (r.Meets 8 inner active ['a'] active ∧ active.find? ['a'] ≠ some 1 ∧
        r.Enters text [(['a'], 1), (['c'], 0)] 8 ['y'] (active.put ['a'] 1)) ∧
      r.MeetsItself text ['c'] ∧ r.resolve text = .error (.variableCycle ['c']) := by
  intro inner r text active
  obtain ⟨hstack, hmeets, hcycle, -⟩ := r.expansions_stack text
  have hsplit : Segment.ofText r.sigil text =
      [.reference .plain ['a'], .literal [' ']] ++ [.reference .plain ['c']] := by cbv
  have hbefore : r.rebuild (r.resolveAt 9) 0 [.reference .plain ['a'], .literal [' ']] ∅ =
      .ok ⟨⟨['y', ' '], true⟩, ∅⟩ := by cbv
  have hc : r.Enters text [(['c'], 0)] 9 inner active :=
    Enters.start.value (.intro hsplit hbefore) (by decide) (by decide)
  have hsplit' : Segment.ofText r.sigil inner =
      [] ++ .reference .braced ['a'] :: [.reference .plain ['c']] := by cbv
  have hnone : r.rebuild (r.resolveAt 8) (r.depth 9) [] active = .ok ⟨⟨[], false⟩, active⟩ := rfl
  have ha : r.Meets 8 inner active ['a'] active := .intro hsplit' hnone
  obtain ⟨-, hdepth, henters⟩ := hmeets _ _ _ _ _ _ ['y'] hc ha (by decide)
  have hresolve : r.resolve text = .error (.variableCycle ['c']) := by cbv
  exact ⟨⟨hc, (hstack _ _ _ _ hc).1⟩, ⟨ha, hdepth, henters (by decide)⟩, (hcycle _).mp hresolve,
    hresolve⟩

end ParamLang.Resolver
