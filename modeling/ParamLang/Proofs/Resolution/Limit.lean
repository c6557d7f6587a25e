import ParamLang.Resolution
import ParamLang.Proofs.Result

/-! The depth limit of resolution. Resolutions under a lower and a higher limit keep step with each
other until the lower limit ends the first one, so an answer that the limit does not cut off is the
answer under every higher limit. -/
namespace ParamLang.Resolver

/-- The results of one computation under a lower and a higher limit: the lower limit cuts the first
one off, or they are the same. -/
inductive CutOff {α : Type} : Except Fault α → Except Fault α → Prop
  | atLimit (limit : Nat) (high : Except Fault α) : CutOff (.error (.nestingTooDeep limit)) high
  | same (result : Except Fault α) : CutOff result result

variable {α β : Type} {low high : Except Fault α} {next next' : α → Except Fault β}

lemma CutOff.bind (h : CutOff low high) (hnext : ∀ a, CutOff (next a) (next' a)) :
    CutOff (low >>= next) (high >>= next') := by
  cases h with
  | atLimit limit high => exact .atLimit limit _
  | same =>
    cases low with
    | error fault => exact .same _
    | ok a => exact hnext a

lemma CutOff.eq_of_ne (h : CutOff low high) (hlow : ∀ limit, low ≠ .error (.nestingTooDeep limit)) :
    high = low := by
  cases h with
  | atLimit limit high => exact absurd rfl (hlow limit)
  | same => rfl

variable {r : Resolver} {deeper deeper' : Text → Active → Except Fault Rebuilt}

/-- A rebuilding meets the limit in the texts below it alone. -/
lemma rebuild_cutOff (limit : Nat) (hdeeper : ∀ t active, CutOff (deeper t active) (deeper' t active))
    (depth : Nat) (segments : List Segment) (active : Active) :
    CutOff (r.rebuild deeper depth segments active)
      (({ r with limit } : Resolver).rebuild deeper' depth segments active) := by
  induction segments generalizing active with
  | nil => exact .same _
  | cons s rest ih =>
    cases s with
    | literal text => exact (ih active).bind fun tail => .same _
    | reference form name =>
      cases hname : r.bindings.find? name with
      | none =>
        simp only [rebuild, hname]
        exact (ih active).bind fun tail => .same _
      | some value =>
        simp only [rebuild, hname]
        cases isCycle active name depth with
        | true => exact .same _
        | false => exact (hdeeper value _).bind fun expanded => (ih _).bind fun tail => .same _

/-- With as many levels more as the limit is higher, every text is met at the same depth, and so
the check for cycles decides alike. -/
lemma resolveAt_cutOff (r : Resolver) (more levels : Nat) (text : Text) (active : Active) :
    CutOff (r.resolveAt levels text active)
      (({ r with limit := r.limit + more } : Resolver).resolveAt (levels + more) text active) := by
  induction levels generalizing text active with
  | zero => exact .atLimit _ _
  | succ levels ih =>
    have hlevels : levels + 1 + more = (levels + more) + 1 := by omega
    have hdepth : r.limit + more - (levels + more) = r.limit - levels := by omega
    have hbuilt := rebuild_cutOff (r := r) (r.limit + more) ih (r.limit - levels)
      (Segment.ofText r.sigil text) active
    rw [hlevels]
    simp only [resolveAt, hdepth]
    refine hbuilt.bind fun built => ?_
    cases built.resolved.changed with
    | false => exact .same _
    | true => exact (ih _ _).bind fun again => .same _

lemma resolve_cutOff (r : Resolver) (more : Nat) (text : Text) :
    CutOff (r.resolve text) (({ r with limit := r.limit + more } : Resolver).resolve text) := by
  have hlevels : r.limit + more + 1 = r.limit + 1 + more := by omega
  simp only [resolve, hlevels]
  exact (resolveAt_cutOff r more (r.limit + 1) text ∅).bind fun built => .same _

/-- An answer that the limit does not cut off stands under every higher limit. -/
lemma resolve_eq_of_limit_le {r : Resolver} {text : Text} {limit : Nat} (hle : r.limit ≤ limit)
    (h : ∀ reached, r.resolve text ≠ .error (.nestingTooDeep reached)) :
    ({ r with limit } : Resolver).resolve text = r.resolve text := by
  obtain ⟨more, rfl⟩ := Nat.exists_eq_add_of_le hle
  exact (resolve_cutOff r more text).eq_of_ne h

end ParamLang.Resolver
