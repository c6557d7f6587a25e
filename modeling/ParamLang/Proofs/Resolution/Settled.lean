import ParamLang.Proofs.Resolution.Cycle

/-! What resolution leaves behind: a text in which nothing is left to replace, so that resolving it
again changes nothing. A text counts as changed just when it held something to replace. -/
namespace ParamLang.Resolver

/-- Whether a segment is replaced: a reference to a bound variable is, and any reference is where
unbound variables become empty. -/
def replaces (r : Resolver) : Segment → Bool
  | .literal _ => false
  | .reference _ name =>
    match r.undefined with
    | .keep => r.bindings.contains name
    | .empty => true

/-- Whether a text holds something to replace. -/
def hasWork (r : Resolver) (text : Text) : Bool := (Segment.ofText r.sigil text).any r.replaces

variable {r : Resolver} {deeper : Text → Except Fault Resolved} {s : Segment}
  {segments : List Segment} {text : Text} {out : Resolved} {levels : Nat}

lemma piece_changed (h : r.piece deeper s = .ok out) : out.changed = r.replaces s := by
  cases s with
  | literal text =>
    obtain rfl := Except.ok.inj h
    rfl
  | reference form name =>
    cases hn : r.bindings.find? name with
    | none =>
      cases hu : r.undefined with
      | keep =>
        simp only [piece, hn, hu, Except.ok.injEq] at h
        simp [replaces, hu, Table.contains, hn, ← h]
      | empty =>
        simp only [piece, hn, hu, Except.ok.injEq] at h
        simp [replaces, hu, ← h]
    | some value =>
      rw [piece_bound hn, bind_eq_ok_iff] at h
      obtain ⟨expanded, _, hout⟩ := h
      obtain rfl := Except.ok.inj hout
      cases hu : r.undefined <;> simp [replaces, hu, Table.contains, hn]

lemma fill_changed (h : r.fill deeper segments = .ok out) :
    out.changed = segments.any r.replaces := by
  induction segments generalizing out with
  | nil =>
    obtain rfl := Except.ok.inj h
    rfl
  | cons s rest ih =>
    obtain ⟨first, hfirst, tail, htail, rfl⟩ := fill_cons_eq_ok_iff.mp h
    simp only [Resolved.append, List.any_cons, piece_changed hfirst, ih htail]

/-- A segment that is not replaced stays as it was written. -/
lemma piece_of_not_replaces (h : r.replaces s = false) :
    r.piece deeper s = .ok ⟨s.source r.sigil, false⟩ := by
  cases s with
  | literal text => rfl
  | reference form name =>
    cases hu : r.undefined with
    | keep =>
      have hn : r.bindings.find? name = none := by
        simpa [replaces, hu, Table.contains] using h
      simp [piece, hn, hu, Segment.source]
    | empty => simp [replaces, hu] at h

lemma fill_of_not_replaces (h : segments.any r.replaces = false) :
    r.fill deeper segments = .ok ⟨segments.flatMap (Segment.source r.sigil), false⟩ := by
  induction segments with
  | nil => rfl
  | cons s rest ih =>
    simp only [List.any_cons, Bool.or_eq_false_iff] at h
    simp only [fill, piece_of_not_replaces h.1, ih h.2, ok_bind, Resolved.append,
      List.flatMap_cons, Bool.or_false]

lemma eq_of_fill_unchanged (hf : r.fill deeper (Segment.ofText r.sigil text) = .ok out)
    (hc : out.changed = false) : out = ⟨text, false⟩ := by
  have hnone := (fill_changed hf).symm.trans hc
  rw [fill_of_not_replaces hnone, Segment.flatMap_source_ofText] at hf
  exact (Except.ok.inj hf).symm

lemma uncheckedAt_of_not_hasWork (h : r.hasWork text = false) (levels : Nat) :
    r.uncheckedAt (levels + 1) text = .ok ⟨text, false⟩ := by
  simp only [uncheckedAt, fill_of_not_replaces h, ok_bind, Bool.false_eq_true, if_false]

lemma uncheckedAt_changed (h : r.uncheckedAt levels text = .ok out) :
    out.changed = r.hasWork text := by
  cases levels with
  | zero => simp [uncheckedAt] at h
  | succ levels =>
    obtain ⟨built, hbuilt, hend⟩ := uncheckedAt_succ_eq_ok_iff.mp h
    rw [hasWork, ← fill_changed hbuilt]
    obtain ⟨hc, rfl⟩ | ⟨hc, again, _, rfl⟩ := hend
    · exact hc.symm
    · exact hc.symm

/-- The last rebuilding on the way to a result had nothing to replace. -/
lemma uncheckedAt_hasWork (h : r.uncheckedAt levels text = .ok out) :
    r.hasWork out.text = false := by
  induction levels generalizing text out with
  | zero => simp [uncheckedAt] at h
  | succ levels ih =>
    obtain ⟨built, hbuilt, hend⟩ := uncheckedAt_succ_eq_ok_iff.mp h
    obtain ⟨hc, rfl⟩ | ⟨_, again, hagain, rfl⟩ := hend
    · exact (fill_changed hbuilt).symm.trans hc
    · change r.hasWork again.text = false
      exact ih hagain

lemma uncheckedAt_unchanged (h : r.uncheckedAt levels text = .ok out)
    (hc : out.changed = false) : out.text = text := by
  cases levels with
  | zero => simp [uncheckedAt] at h
  | succ levels =>
    obtain ⟨built, _, hend⟩ := uncheckedAt_succ_eq_ok_iff.mp h
    obtain ⟨_, rfl⟩ | ⟨_, again, _, rfl⟩ := hend
    · rfl
    · simp at hc

/-- A resolved text holds nothing to replace and resolves to itself. It counts as changed just when
the text that was resolved held something to replace, and just when it differs from that text. -/
theorem resolve_settles {r : Resolver} {text : Text} {out : Resolved}
    (h : r.resolve text = .ok out) :
    r.hasWork out.text = false ∧ r.resolve out.text = .ok ⟨out.text, false⟩ ∧
      (out.changed = true ↔ r.hasWork text = true) ∧ (out.changed = true ↔ out.text ≠ text) := by
  have hu := resolve_eq_ok_iff.mp h
  have hsettled := uncheckedAt_hasWork hu
  have hchanged := uncheckedAt_changed hu
  refine ⟨hsettled, resolve_eq_ok_iff.mpr (uncheckedAt_of_not_hasWork hsettled r.limit), ?_, ?_⟩
  · rw [hchanged]
  · constructor
    · intro hc heq
      rw [hchanged, ← heq, hsettled] at hc
      exact Bool.noConfusion hc
    · intro hne
      cases hc : out.changed with
      | true => rfl
      | false => exact absurd (uncheckedAt_unchanged hu hc) hne

/-- A reference that forms at a seam is replaced in its turn, and an unbound one stays. -/
theorem resolve_settles_seam :
    let r : Resolver := ⟨.ofList [(['p'], ['$', '$']), (['t'], ['h', 'i', 't'])], '$', .keep, 100⟩
    let text : Text := ['$', '{', 'p', '}', 't', ' ', '$', '$', 'u']
    let out : Resolved := ⟨['h', 'i', 't', ' ', '$', '$', 'u'], true⟩
    r.resolve text = .ok out ∧ r.hasWork out.text = false ∧
      r.resolve out.text = .ok ⟨out.text, false⟩ ∧
      (out.changed = true ↔ r.hasWork text = true) ∧ (out.changed = true ↔ out.text ≠ text) := by
  intro r text out
  have h : r.resolve text = .ok out := by cbv
  exact ⟨h, resolve_settles h⟩

end ParamLang.Resolver
