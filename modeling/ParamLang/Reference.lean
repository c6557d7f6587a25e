import ParamLang.Marks

/-! References to variables within a text. Brackets and escapes play no part in them. -/
namespace ParamLang

/-- The ways to refer to a variable, with `$` as the sigil: `$$name`, `$$$name$` and `${name}`. -/
inductive ReferenceForm
  | plain
  | delimited
  | braced
  deriving DecidableEq, Repr

def ReferenceForm.write (sigil : Char) (name : Text) : ReferenceForm → Text
  | plain => sigil :: sigil :: name
  | delimited => sigil :: sigil :: sigil :: name ++ [sigil]
  | braced => sigil :: '{' :: name ++ ['}']

inductive Segment
  | literal (text : Text)
  | reference (form : ReferenceForm) (name : Text)
  deriving DecidableEq, Repr

namespace Segment

def isReference : Segment → Bool
  | literal _ => false
  | reference _ _ => true

/-- The text that a segment was read from. -/
def source (sigil : Char) : Segment → Text
  | literal text => text
  | reference form name => form.write sigil name

def pushLiteral (c : Char) : List Segment → List Segment
  | literal text :: rest => literal (c :: text) :: rest
  | rest => literal [c] :: rest

/-- The name that a text begins with, unless it is empty, and what follows it. -/
def name? (t : Text) : Option (Text × Text) :=
  if t.takeWhile isNameChar = [] then none
  else some (t.takeWhile isNameChar, t.dropWhile isNameChar)

/-- A name with a given character right after it. -/
def nameBefore? (closer : Char) (t : Text) : Option (Text × Text) :=
  match name? t with
  | some (name, c :: rest) => if c = closer then some (name, rest) else none
  | _ => none

/-- The name of a delimited reference, after its first two sigils. -/
def delimitedName? (sigil : Char) : Text → Option (Text × Text)
  | c :: t => if c = sigil then nameBefore? sigil t else none
  | [] => none

/-- The reference that a text begins with, and what follows it. Two sigils begin a plain reference
only if they do not begin a delimited one, and a brace after the sigil counts only as such. -/
def reference? (sigil : Char) : Text → Option (ReferenceForm × Text × Text)
  | a :: b :: t =>
    if a ≠ sigil then none
    else if b = sigil then
      match delimitedName? sigil t with
      | some (name, rest) => some (.delimited, name, rest)
      | none => (name? t).map (.plain, ·)
    else if b = '{' then (nameBefore? '}' t).map (.braced, ·)
    else none
  | _ => none

theorem name?_eq_some {t name rest : Text} (h : name? t = some (name, rest)) :
    t = name ++ rest := by
  unfold name? at h
  split at h
  · simp at h
  · simp only [Option.some.injEq, Prod.mk.injEq] at h
    rw [← h.1, ← h.2, List.takeWhile_append_dropWhile]

theorem nameBefore?_eq_some {closer : Char} {t name rest : Text}
    (h : nameBefore? closer t = some (name, rest)) : t = name ++ closer :: rest := by
  unfold nameBefore? at h
  split at h
  · rename_i hn
    split at h
    · simp only [Option.some.injEq, Prod.mk.injEq] at h
      simp_all [name?_eq_some hn]
    · simp at h
  · simp at h

theorem delimitedName?_eq_some {sigil : Char} {t name rest : Text}
    (h : delimitedName? sigil t = some (name, rest)) :
    t = sigil :: name ++ sigil :: rest := by
  cases t with
  | nil => simp [delimitedName?] at h
  | cons c t =>
    simp only [delimitedName?] at h
    split at h
    · rename_i hc
      simp [hc, nameBefore?_eq_some h]
    · simp at h

/-- A reference is read from the text that its form writes. -/
theorem reference?_eq_some {sigil : Char} {t name rest : Text} {form : ReferenceForm}
    (h : reference? sigil t = some (form, name, rest)) : t = form.write sigil name ++ rest := by
  unfold reference? at h
  split at h
  · split at h
    · simp at h
    · split at h
      · split at h
        · rename_i hd
          simp only [Option.some.injEq, Prod.mk.injEq] at h
          obtain ⟨rfl, rfl, rfl⟩ := h
          simp_all [delimitedName?_eq_some hd, ReferenceForm.write]
        · simp only [Option.map_eq_some_iff, Prod.mk.injEq] at h
          obtain ⟨r, hr, rfl, rfl⟩ := h
          simp_all [name?_eq_some hr, ReferenceForm.write]
      · split at h
        · simp only [Option.map_eq_some_iff, Prod.mk.injEq] at h
          obtain ⟨r, hr, rfl, rfl⟩ := h
          simp_all [nameBefore?_eq_some hr, ReferenceForm.write]
        · simp at h
  · simp at h

theorem write_ne_nil (sigil : Char) (name : Text) (form : ReferenceForm) :
    form.write sigil name ≠ [] := by
  cases form <;> simp [ReferenceForm.write]

theorem reference?_rest_length {sigil : Char} {t name rest : Text} {form : ReferenceForm}
    (h : reference? sigil t = some (form, name, rest)) : rest.length < t.length := by
  have hw := List.length_pos_iff.mpr (write_ne_nil sigil name form)
  rw [reference?_eq_some h, List.length_append]
  omega

/-- The segments of a text: its references, and the literals between them. -/
def ofText (sigil : Char) : Text → List Segment
  | [] => []
  | c :: t =>
    match h : reference? sigil (c :: t) with
    | some (form, name, rest) =>
      have := reference?_rest_length h
      reference form name :: ofText sigil rest
    | none => pushLiteral c (ofText sigil t)
  termination_by t => t.length
  decreasing_by
    · exact this
    · exact Nat.lt_succ_self _

@[simp] theorem ofText_nil (sigil : Char) : ofText sigil [] = [] := by
  rw [ofText]

theorem ofText_of_reference {sigil : Char} {t name rest : Text} {form : ReferenceForm}
    (h : reference? sigil t = some (form, name, rest)) :
    ofText sigil t = reference form name :: ofText sigil rest := by
  cases t with
  | nil => simp [reference?] at h
  | cons c t =>
    rw [ofText]
    split <;> simp_all

theorem ofText_of_literal {sigil c : Char} {t : Text} (h : reference? sigil (c :: t) = none) :
    ofText sigil (c :: t) = pushLiteral c (ofText sigil t) := by
  rw [ofText]
  split <;> simp_all

theorem source_pushLiteral (sigil c : Char) (segments : List Segment) :
    (pushLiteral c segments).flatMap (source sigil) = c :: segments.flatMap (source sigil) := by
  unfold pushLiteral
  split <;> simp [source]

/-- The segments of a text are the text, cut up. -/
theorem flatMap_source_ofText (sigil : Char) (t : Text) :
    (ofText sigil t).flatMap (source sigil) = t := by
  fun_induction ofText sigil t with
  | case1 => rfl
  | case2 c t form name rest h _ ih =>
    rw [List.flatMap_cons, ih, reference?_eq_some h, source]
  | case3 c t h ih => rw [source_pushLiteral, ih]

end Segment

def hasReferences (sigil : Char) (t : Text) : Bool :=
  (Segment.ofText sigil t).any Segment.isReference

end ParamLang
