import ParamLang.Proofs.Resolution.Unchecked

/-! The check for cycles changes no result. While a variable is being expanded, its value needs
every text that is resolved on the way, so a variable met inside its own expansion needs itself,
and resolution without the check would never end. -/
namespace ParamLang.Resolver

variable {r : Resolver} {active inside : Active} {text inner value name : Text} {levels : Nat}
  {segments : List Segment}

/-- What the check makes of a text, beside what resolution makes of it without the check. -/
inductive Agrees (r : Resolver) (active : Active) (text : Text) :
    Except Fault Rebuilt → Except Fault Resolved → Prop
  | ends (out : Resolved) : Agrees r active text (.ok ⟨out, active⟩) (.ok out)
  | tooDeep : Agrees r active text (.error (.nestingTooDeep r.limit))
      (.error (.nestingTooDeep r.limit))
  | cycle {name value : Text} (bound : r.bindings.find? name = some value)
      (never : ∀ levels, ¬r.EndsIn levels text) (unchecked : Except Fault Resolved) :
      Agrees r active text (.error (.variableCycle name)) unchecked

lemma Agrees.of_ok {built : Rebuilt} {unchecked : Except Fault Resolved}
    (h : Agrees r active text (.ok built) unchecked) :
    unchecked = .ok built.resolved ∧ built.active = active := by
  cases h with
  | ends out => exact ⟨rfl, rfl⟩

/-- Agreement on a first step and then on the rest. A first step that never ends is one that the
text needs. -/
lemma Agrees.bind {first : Except Fault Rebuilt} {first' : Except Fault Resolved}
    {next : Rebuilt → Except Fault Rebuilt} {next' : Resolved → Except Fault Resolved}
    (h : Agrees r inside inner first first')
    (hneeds : (∀ levels, ¬r.EndsIn levels inner) → ∀ levels, ¬r.EndsIn levels text)
    (hnext : ∀ out, first' = .ok out → Agrees r active text (next ⟨out, inside⟩) (next' out)) :
    Agrees r active text (first >>= next) (first' >>= next') := by
  cases h with
  | ends out => exact hnext out rfl
  | tooDeep => exact .tooDeep
  | cycle bound never unchecked => exact .cycle bound (hneeds never) _

/-- The variables being expanded at a call with the given levels left: each was entered above it,
and the value of each needs the text. -/
def Open (r : Resolver) (active : Active) (levels : Nat) (text : Text) : Prop :=
  ∀ name entered, active.find? name = some entered →
    entered + levels ≤ r.limit ∧
      ∃ value, r.bindings.find? name = some value ∧ (value = text ∨ r.Needs value text)

lemma open_empty : Open r ∅ levels text :=
  fun _ _ h => by simp at h

lemma Open.deeper (h : Open r active (levels + 1) text) (hneeds : r.Needs text inner) :
    Open r active levels inner := by
  intro name entered hname
  obtain ⟨hle, value, hvalue, hv⟩ := h name entered hname
  refine ⟨by omega, value, hvalue, .inr ?_⟩
  obtain rfl | hv := hv
  · exact hneeds
  · exact hv.trans hneeds

lemma Open.put (h : Open r active levels value) (hl : levels ≤ r.limit)
    (hname : r.bindings.find? name = some value) :
    Open r (active.put name (r.limit - levels)) levels value := by
  intro other entered hother
  rw [Table.find?_put] at hother
  split at hother
  · rename_i heq
    obtain rfl := Option.some.inj hother
    exact ⟨by omega, value, heq ▸ hname, .inl rfl⟩
  · exact h other entered hother

/-- A variable that is being expanded was entered at a smaller depth, so meeting it is a cycle. -/
lemma isCycle_eq_isSome (h : Open r active (levels + 1) text) (name : Text) :
    isCycle active name (r.limit - levels) = (active.find? name).isSome := by
  cases hname : active.find? name with
  | none => simp [isCycle, hname]
  | some entered =>
    have hle := (h name entered hname).1
    simp only [isCycle, hname, Option.isSome_some, bne_iff_ne]
    omega

lemma rebuild_agrees (hl : levels ≤ r.limit)
    (hdeeper : ∀ inside inner, Open r inside levels inner →
      Agrees r inside inner (r.resolveAt levels inner inside) (r.uncheckedAt levels inner))
    (hopen : Open r active (levels + 1) text)
    (hmem : ∀ s ∈ segments, s ∈ Segment.ofText r.sigil text) :
    Agrees r active text (r.rebuild (r.resolveAt levels) (r.limit - levels) segments active)
      (r.fill (r.uncheckedAt levels) segments) := by
  induction segments with
  | nil => exact .ends _
  | cons s rest ih =>
    have hrest := ih fun s hs => hmem s (List.mem_cons_of_mem _ hs)
    cases s with
    | literal t => exact hrest.bind id fun out _ => .ends _
    | reference form name =>
      cases hname : r.bindings.find? name with
      | none =>
        simp only [rebuild, fill, piece, hname]
        cases r.undefined with
        | keep => exact hrest.bind id fun out _ => .ends _
        | empty => exact hrest.bind id fun out _ => .ends _
      | some value =>
        have hneeds : r.Needs text value := needs_value (hmem _ (List.mem_cons_self ..)) hname
        simp only [rebuild, fill, piece, hname, isCycle_eq_isSome hopen]
        cases hfound : active.find? name with
        | some entered =>
          obtain ⟨_, value', hvalue', hv⟩ := hopen name entered hfound
          obtain rfl : value' = value := Option.some.inj (hvalue'.symm.trans hname)
          have hself : r.Needs value' value' := by
            obtain rfl | hv := hv
            · exact hneeds
            · exact hv.trans hneeds
          exact .cycle hname (hneeds.not_endsIn (not_endsIn_of_needs_self hself)) _
        | none =>
          have hvalue := hdeeper _ value ((hopen.deeper hneeds).put hl hname)
          simp only [Option.isSome_none, Bool.false_eq_true, if_false, bind_assoc, ok_bind]
          refine hvalue.bind hneeds.not_endsIn fun expanded _ => ?_
          simp only [Table.erase_put _ hfound]
          exact hrest.bind id fun tail _ => .ends _

/-- At every call the check agrees with resolution without it, and a call that succeeds leaves the
variables being expanded as they were. -/
lemma resolveAt_agrees (hl : levels ≤ r.limit + 1) (hopen : Open r active levels text) :
    Agrees r active text (r.resolveAt levels text active) (r.uncheckedAt levels text) := by
  induction levels generalizing active text with
  | zero => exact .tooDeep
  | succ levels ih =>
    have hl : levels ≤ r.limit := by omega
    have hbuilt := rebuild_agrees hl (fun inside inner h => ih (by omega) h) hopen fun s hs => hs
    simp only [resolveAt, uncheckedAt]
    refine hbuilt.bind id fun built hfill => ?_
    cases hchanged : built.changed with
    | false => exact .ends _
    | true =>
      have hneeds := needs_rebuilt hfill hchanged
      exact (ih (by omega) (hopen.deeper hneeds)).bind hneeds.not_endsIn fun again _ => .ends _

/-- The three ways in which a resolution ends, and what they say about resolution without the
check. -/
lemma resolve_cases (r : Resolver) (text : Text) :
    (∃ out, r.resolve text = .ok out ∧ r.unchecked text = .ok out) ∨
    (r.resolve text = .error (.nestingTooDeep r.limit) ∧
      r.unchecked text = .error (.nestingTooDeep r.limit)) ∨
    (∃ name value, r.bindings.find? name = some value ∧
      r.resolve text = .error (.variableCycle name) ∧ ∀ levels, ¬r.EndsIn levels text) := by
  have hagrees : Agrees r ∅ text (r.resolveAt (r.limit + 1) text ∅)
      (r.uncheckedAt (r.limit + 1) text) :=
    resolveAt_agrees (Nat.le_refl _) open_empty
  unfold resolve unchecked
  generalize r.resolveAt (r.limit + 1) text ∅ = checked at hagrees ⊢
  generalize r.uncheckedAt (r.limit + 1) text = plain at hagrees ⊢
  cases hagrees with
  | ends out => exact .inl ⟨out, rfl, rfl⟩
  | tooDeep => exact .inr (.inl ⟨rfl, rfl⟩)
  | @cycle name value bound never _ => exact .inr (.inr ⟨name, value, bound, rfl, never⟩)

lemma resolve_eq_ok_iff {out : Resolved} :
    r.resolve text = .ok out ↔ r.unchecked text = .ok out := by
  obtain ⟨out', hr, hu⟩ | ⟨hr, hu⟩ | ⟨name, value, _, hr, hnever⟩ := resolve_cases r text
  · rw [hr, hu]
  · simp [hr, hu]
  · simp [hr, unchecked_of_not_endsIn hnever r.limit]

lemma resolve_of_endsIn (h : r.EndsIn levels text) : r.resolve text = r.unchecked text := by
  obtain ⟨out, hr, hu⟩ | ⟨hr, hu⟩ | ⟨_, _, _, _, hnever⟩ := resolve_cases r text
  · rw [hr, hu]
  · rw [hr, hu]
  · exact absurd h (hnever levels)

/-- A cycle is found only in a text that is never resolved. -/
lemma not_endsIn_of_cycle (h : r.resolve text = .error (.variableCycle name)) (levels : Nat) :
    ¬r.EndsIn levels text := by
  obtain ⟨out', hr, _⟩ | ⟨hr, _⟩ | ⟨_, _, _, _, hnever⟩ := resolve_cases r text
  · simp [hr] at h
  · simp [hr] at h
  · exact hnever levels

lemma exists_value_of_cycle (h : r.resolve text = .error (.variableCycle name)) :
    ∃ value, r.bindings.find? name = some value := by
  obtain ⟨out', hr, _⟩ | ⟨hr, _⟩ | ⟨found, value, hvalue, hr, _⟩ := resolve_cases r text
  · simp [hr] at h
  · simp [hr] at h
  · obtain rfl : found = name := by simpa [hr] using h
    exact ⟨value, hvalue⟩

lemma unchecked_of_tooDeep {limit : Nat} (h : r.resolve text = .error (.nestingTooDeep limit)) :
    r.unchecked text = .error (.nestingTooDeep limit) := by
  obtain ⟨out', hr, _⟩ | ⟨hr, hu⟩ | ⟨_, _, _, hr, _⟩ := resolve_cases r text
  · simp [hr] at h
  · exact hu.trans (hr.symm.trans h)
  · simp [hr] at h

/-- The check for cycles never changes a result. It finds fault only with texts that would never
end, whatever the limit. -/
theorem resolve_conservative (r : Resolver) (text : Text) :
    (∀ out, r.resolve text = .ok out ↔ r.unchecked text = .ok out) ∧
    (∀ name, r.resolve text = .error (.variableCycle name) → ∀ limit,
      ({ r with limit } : Resolver).unchecked text = .error (.nestingTooDeep limit)) ∧
    (∀ limit, r.resolve text = .error (.nestingTooDeep limit) →
      r.unchecked text = .error (.nestingTooDeep limit)) :=
  ⟨fun _ => resolve_eq_ok_iff,
    fun _ h limit => unchecked_of_not_endsIn (not_endsIn_of_cycle h) limit,
    fun _ h => unchecked_of_tooDeep h⟩

/-- Two variables that refer to each other are a cycle, and without the check they exceed every
limit. A low limit is exceeded before the cycle closes. -/
theorem resolve_conservative_twins :
    let r : Resolver :=
      ⟨.ofList [(['a'], ['$', '$', 'b']), (['b'], ['$', '$', 'a'])], '$', .keep, 1⟩
    (r.resolve ['x', '$', '$', 'a'] = .error (.nestingTooDeep 1) ∧
      r.unchecked ['x', '$', '$', 'a'] = .error (.nestingTooDeep 1)) ∧
    (({ r with limit := 2 } : Resolver).resolve ['x', '$', '$', 'a'] =
        .error (.variableCycle ['a']) ∧
      ∀ limit, ({ r with limit } : Resolver).unchecked ['x', '$', '$', 'a'] =
        .error (.nestingTooDeep limit)) := by
  intro r
  have hdeep : r.resolve ['x', '$', '$', 'a'] = .error (.nestingTooDeep 1) := by cbv
  have hcycle : ({ r with limit := 2 } : Resolver).resolve ['x', '$', '$', 'a'] =
      .error (.variableCycle ['a']) := by cbv
  exact ⟨⟨hdeep, (resolve_conservative r _).2.2 1 hdeep⟩, hcycle,
    (resolve_conservative { r with limit := 2 } _).2.1 ['a'] hcycle⟩

end ParamLang.Resolver
