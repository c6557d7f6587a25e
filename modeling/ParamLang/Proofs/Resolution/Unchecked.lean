import ParamLang.Resolution
import ParamLang.Proofs.Result

/-! Resolution without the check for cycles: nothing but the depth limit ends it. A result that is
reached stays the same with more levels, and a text that needs itself is never resolved, however
many levels there are. -/
namespace ParamLang

def Resolved.append (a b : Resolved) : Resolved := ⟨a.text ++ b.text, a.changed || b.changed⟩

namespace Resolver

/-- What a segment becomes, where `deeper` resolves a text one level below. -/
def piece (r : Resolver) (deeper : Text → Except Fault Resolved) : Segment → Except Fault Resolved
  | .literal text => .ok ⟨text, false⟩
  | .reference form name =>
    match r.bindings.find? name with
    | none =>
      match r.undefined with
      | .keep => .ok ⟨form.write r.sigil name, false⟩
      | .empty => .ok ⟨[], true⟩
    | some value => do .ok ⟨(← deeper value).text, true⟩

/-- Rebuilds a text from its segments. -/
def fill (r : Resolver) (deeper : Text → Except Fault Resolved) :
    List Segment → Except Fault Resolved
  | [] => .ok ⟨[], false⟩
  | s :: rest => do
    let first ← r.piece deeper s
    let tail ← r.fill deeper rest
    .ok (first.append tail)

/-- Resolves a text with the given number of levels left, its own included. -/
def uncheckedAt (r : Resolver) : Nat → Text → Except Fault Resolved
  | 0, _ => .error (.nestingTooDeep r.limit)
  | levels + 1, text => do
    let built ← r.fill (r.uncheckedAt levels) (Segment.ofText r.sigil text)
    if built.changed then
      let again ← r.uncheckedAt levels built.text
      .ok ⟨again.text, true⟩
    else .ok ⟨text, false⟩

def unchecked (r : Resolver) (text : Text) : Except Fault Resolved :=
  r.uncheckedAt (r.limit + 1) text

variable {r : Resolver} {deeper deeper' : Text → Except Fault Resolved} {s : Segment}
  {segments rest : List Segment} {form : ReferenceForm} {name value text : Text} {out : Resolved}
  {levels : Nat}

lemma piece_bound (h : r.bindings.find? name = some value) :
    r.piece deeper (.reference form name) = (do .ok ⟨(← deeper value).text, true⟩) := by
  simp only [piece, h]

lemma fill_cons_eq_ok_iff : r.fill deeper (s :: rest) = .ok out ↔
    ∃ first, r.piece deeper s = .ok first ∧
      ∃ tail, r.fill deeper rest = .ok tail ∧ first.append tail = out := by
  simp only [fill, bind_eq_ok_iff, Except.ok.injEq]

/-- A text is resolved if its rebuilding leaves it alone, or changes it into a text that is
resolved one level below. -/
lemma uncheckedAt_succ_eq_ok_iff : r.uncheckedAt (levels + 1) text = .ok out ↔
    ∃ built, r.fill (r.uncheckedAt levels) (Segment.ofText r.sigil text) = .ok built ∧
      (built.changed = false ∧ out = ⟨text, false⟩ ∨
        built.changed = true ∧ ∃ again, r.uncheckedAt levels built.text = .ok again ∧
          out = ⟨again.text, true⟩) := by
  simp only [uncheckedAt, bind_eq_ok_iff]
  refine exists_congr fun built => and_congr_right fun _ => ?_
  cases built.changed with
  | false => simp [eq_comm]
  | true => simp [bind_eq_ok_iff, eq_comm (a := out)]

/-- The limit shows in faults alone, and a piece that succeeds stays when `deeper` succeeds more
often. -/
lemma piece_mono (limit : Nat) (h : ∀ t o, deeper t = .ok o → deeper' t = .ok o)
    (hp : r.piece deeper s = .ok out) :
    ({ r with limit } : Resolver).piece deeper' s = .ok out := by
  cases s with
  | literal text => exact hp
  | reference form name =>
    cases hn : r.bindings.find? name with
    | none =>
      simp only [piece, hn] at hp ⊢
      exact hp
    | some value =>
      simp only [piece, hn, bind_eq_ok_iff] at hp ⊢
      obtain ⟨o, ho, hout⟩ := hp
      exact ⟨o, h value o ho, hout⟩

lemma fill_mono (limit : Nat) (h : ∀ t o, deeper t = .ok o → deeper' t = .ok o)
    (hf : r.fill deeper segments = .ok out) :
    ({ r with limit } : Resolver).fill deeper' segments = .ok out := by
  induction segments generalizing out with
  | nil => exact hf
  | cons s rest ih =>
    obtain ⟨first, hfirst, tail, htail, hout⟩ := fill_cons_eq_ok_iff.mp hf
    exact fill_cons_eq_ok_iff.mpr ⟨first, piece_mono limit h hfirst, tail, ih htail, hout⟩

/-- More levels never change a result that is reached. -/
lemma uncheckedAt_mono (limit : Nat) {more : Nat} (hle : levels ≤ more)
    (h : r.uncheckedAt levels text = .ok out) :
    ({ r with limit } : Resolver).uncheckedAt more text = .ok out := by
  induction levels generalizing more text out with
  | zero => simp [uncheckedAt] at h
  | succ levels ih =>
    obtain ⟨more, rfl⟩ := Nat.exists_eq_add_of_le' hle
    have hdeeper : ∀ t o, r.uncheckedAt levels t = .ok o →
        ({ r with limit } : Resolver).uncheckedAt (more + levels) t = .ok o :=
      fun t o ho => ih (by omega) ho
    obtain ⟨built, hbuilt, hend⟩ := uncheckedAt_succ_eq_ok_iff.mp h
    refine uncheckedAt_succ_eq_ok_iff.mpr ⟨built, fill_mono limit hdeeper hbuilt, ?_⟩
    obtain hsame | ⟨hchanged, again, hagain, hout⟩ := hend
    · exact .inl hsame
    · exact .inr ⟨hchanged, again, hdeeper _ _ hagain, hout⟩

lemma piece_fault {fault e : Fault} (h : ∀ t e, deeper t = .error e → e = fault)
    (he : r.piece deeper s = .error e) : e = fault := by
  cases s with
  | literal text => simp [piece] at he
  | reference form name =>
    cases hn : r.bindings.find? name with
    | none => cases hu : r.undefined <;> simp [piece, hn, hu] at he
    | some value =>
      rw [piece_bound hn, bind_eq_error_iff] at he
      obtain he | ⟨o, _, he⟩ := he
      · exact h value e he
      · simp at he

lemma fill_fault {fault e : Fault} (h : ∀ t e, deeper t = .error e → e = fault)
    (he : r.fill deeper segments = .error e) : e = fault := by
  induction segments with
  | nil => simp [fill] at he
  | cons s rest ih =>
    simp only [fill, bind_eq_error_iff] at he
    obtain hs | ⟨first, _, hrest | ⟨tail, _, hend⟩⟩ := he
    · exact piece_fault h hs
    · exact ih hrest
    · simp at hend

/-- Without the check, the depth limit is the only fault. -/
lemma uncheckedAt_fault {e : Fault} (he : r.uncheckedAt levels text = .error e) :
    e = .nestingTooDeep r.limit := by
  induction levels generalizing text e with
  | zero => simpa [uncheckedAt] using he.symm
  | succ levels ih =>
    simp only [uncheckedAt, bind_eq_error_iff] at he
    obtain hb | ⟨built, _, hend⟩ := he
    · exact fill_fault (fun t e ht => ih ht) hb
    · split at hend
      · obtain hagain | ⟨again, _, hend⟩ := bind_eq_error_iff.mp hend
        · exact ih hagain
        · simp at hend
      · simp at hend

/-- Whether a text is resolved within some number of levels. -/
def EndsIn (r : Resolver) (levels : Nat) (text : Text) : Prop :=
  ∃ out, r.uncheckedAt levels text = .ok out

/-- To resolve the first text, the second one must be resolved with fewer levels. -/
def Needs (r : Resolver) (text inner : Text) : Prop :=
  ∀ levels, r.EndsIn levels text → ∃ fewer < levels, r.EndsIn fewer inner

lemma Needs.trans {a b c : Text} (hab : r.Needs a b) (hbc : r.Needs b c) : r.Needs a c := by
  intro levels ha
  obtain ⟨fewer, hlt, hb⟩ := hab levels ha
  obtain ⟨least, hlt', hc⟩ := hbc fewer hb
  exact ⟨least, Nat.lt_trans hlt' hlt, hc⟩

lemma Needs.not_endsIn {a b : Text} (hab : r.Needs a b) (hb : ∀ levels, ¬r.EndsIn levels b)
    (levels : Nat) : ¬r.EndsIn levels a := by
  intro ha
  obtain ⟨fewer, _, hfewer⟩ := hab levels ha
  exact hb fewer hfewer

/-- Descent: each resolution of a text that needs itself would hold a shorter one. -/
lemma not_endsIn_of_needs_self (h : r.Needs text text) (levels : Nat) :
    ¬r.EndsIn levels text := by
  induction levels using Nat.strongRecOn with
  | ind levels ih =>
    intro hends
    obtain ⟨fewer, hlt, hfewer⟩ := h levels hends
    exact ih fewer hlt hfewer

/-- Every segment is filled in. -/
lemma piece_of_fill (hf : r.fill deeper segments = .ok out) (hs : s ∈ segments) :
    ∃ p, r.piece deeper s = .ok p := by
  induction segments generalizing out with
  | nil => simp at hs
  | cons s' rest ih =>
    obtain ⟨first, hfirst, tail, htail, _⟩ := fill_cons_eq_ok_iff.mp hf
    obtain rfl | hs := List.mem_cons.mp hs
    · exact ⟨first, hfirst⟩
    · exact ih htail hs

lemma needs_value (hs : .reference form name ∈ Segment.ofText r.sigil text)
    (hn : r.bindings.find? name = some value) : r.Needs text value := by
  rintro (_ | levels) ⟨out, hout⟩
  · simp [uncheckedAt] at hout
  · obtain ⟨built, hbuilt, _⟩ := uncheckedAt_succ_eq_ok_iff.mp hout
    obtain ⟨p, hp⟩ := piece_of_fill hbuilt hs
    rw [piece_bound hn, bind_eq_ok_iff] at hp
    obtain ⟨o, ho, _⟩ := hp
    exact ⟨levels, levels.lt_succ_self, o, ho⟩

/-- A text that a rebuilding changes needs what it is rebuilt into. The rebuilding is the same on
every number of levels on which it succeeds. -/
lemma needs_rebuilt {built : Resolved}
    (hb : r.fill (r.uncheckedAt levels) (Segment.ofText r.sigil text) = .ok built)
    (hc : built.changed = true) : r.Needs text built.text := by
  rintro (_ | other) ⟨out, hout⟩
  · simp [uncheckedAt] at hout
  · obtain ⟨built', hb', hend⟩ := uncheckedAt_succ_eq_ok_iff.mp hout
    have hwith {l : Nat} (hl : l ≤ max levels other) {b : Resolved}
        (h : r.fill (r.uncheckedAt l) (Segment.ofText r.sigil text) = .ok b) :
        r.fill (r.uncheckedAt (max levels other)) (Segment.ofText r.sigil text) = .ok b :=
      fill_mono r.limit (fun t o ho => uncheckedAt_mono r.limit hl ho) h
    have hsame : built' = built := Except.ok.inj
      ((hwith (Nat.le_max_right ..) hb').symm.trans (hwith (Nat.le_max_left ..) hb))
    subst hsame
    obtain ⟨hc', _⟩ | ⟨_, again, hagain, _⟩ := hend
    · simp [hc] at hc'
    · exact ⟨other, other.lt_succ_self, again, hagain⟩

/-- A text that never ends is nested too deep for every limit. -/
lemma unchecked_of_not_endsIn (h : ∀ levels, ¬r.EndsIn levels text) (limit : Nat) :
    ({ r with limit } : Resolver).unchecked text = .error (.nestingTooDeep limit) := by
  cases hu : ({ r with limit } : Resolver).unchecked text with
  | error e => rw [uncheckedAt_fault hu]
  | ok out =>
    have hmore := uncheckedAt_mono (r := { r with limit }) r.limit (Nat.le_refl (limit + 1)) hu
    exact absurd ⟨out, hmore⟩ (h (limit + 1))

end Resolver

end ParamLang
