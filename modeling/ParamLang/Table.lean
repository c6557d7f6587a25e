import ParamLang.Text.Basic

/-! Tables from names to values. Each name has one row, and the rows stand in the order in which
their names were last put. -/
namespace ParamLang

structure Table (α : Type) where
  rows : List (Text × α)
  unique : (rows.map Prod.fst).Nodup
  deriving DecidableEq

namespace Table

variable {α : Type}

def empty : Table α := ⟨[], List.nodup_nil⟩

instance : EmptyCollection (Table α) := ⟨empty⟩

def names (t : Table α) : List Text := t.rows.map Prod.fst

def find? (t : Table α) (name : Text) : Option α := t.rows.lookup name

def contains (t : Table α) (name : Text) : Bool := (t.find? name).isSome

def erase (t : Table α) (name : Text) : Table α where
  rows := t.rows.filter fun r => r.1 != name
  unique := (List.filter_sublist.map Prod.fst).nodup t.unique

theorem not_mem_names_erase (t : Table α) (name : Text) : name ∉ (t.erase name).names := by
  simp [names, erase]

/-- Gives a name its only row, after all others. -/
def put (t : Table α) (name : Text) (a : α) : Table α where
  rows := (t.erase name).rows ++ [(name, a)]
  unique := by
    have h := t.not_mem_names_erase name
    simp only [names] at h
    rw [List.map_append, List.nodup_append]
    refine ⟨(t.erase name).unique, by simp, ?_⟩
    intro x hx y hy hxy
    simp only [List.map_cons, List.map_nil, List.mem_singleton] at hy
    subst hxy hy
    exact h hx

def ofList (rows : List (Text × α)) : Table α := rows.foldl (fun t r => t.put r.1 r.2) ∅

theorem lookup_filter_ne (rows : List (Text × α)) (name other : Text) :
    (rows.filter fun r => r.1 != name).lookup other =
      if other = name then none else rows.lookup other := by
  induction rows with
  | nil => simp
  | cons r rows ih =>
    obtain ⟨n, a⟩ := r
    by_cases h : n = name <;> by_cases h' : other = n <;> grind

theorem lookup_append_single (rows : List (Text × α)) (name other : Text) (a : α) :
    (rows ++ [(name, a)]).lookup other =
      (rows.lookup other).or (if other = name then some a else none) := by
  rw [List.lookup_append]
  by_cases h : other = name
  · simp [h]
  · have : (other == name) = false := by simpa using h
    simp [h, List.lookup_cons, this]

@[simp] theorem find?_empty (name : Text) : (∅ : Table α).find? name = none := rfl

theorem find?_erase (t : Table α) (name other : Text) :
    (t.erase name).find? other = if other = name then none else t.find? other :=
  lookup_filter_ne t.rows name other

theorem find?_put (t : Table α) (name other : Text) (a : α) :
    (t.put name a).find? other = if other = name then some a else t.find? other := by
  simp only [find?, put, erase]
  rw [lookup_append_single, lookup_filter_ne]
  by_cases h : other = name <;> simp [h]

theorem mem_rows_of_find? {t : Table α} {name : Text} {a : α} (h : t.find? name = some a) :
    (name, a) ∈ t.rows := by
  obtain ⟨before, after, hrows, -⟩ := List.lookup_eq_some_iff.mp h
  exact hrows ▸ List.mem_append_right before (List.mem_cons_self ..)

theorem contains_iff_mem_names (t : Table α) (name : Text) :
    t.contains name = true ↔ name ∈ t.names := by
  simp only [contains, find?, names, List.lookup_isSome_iff, List.mem_map, beq_iff_eq]
  simp only [eq_comm]

/-- Without a row for the name there is nothing to erase. -/
theorem erase_of_unbound (t : Table α) {name : Text} (h : t.find? name = none) :
    t.erase name = t := by
  obtain ⟨rows, unique⟩ := t
  simp only [erase, mk.injEq, List.filter_eq_self]
  intro r hr
  have hne := List.lookup_eq_none_iff.mp h r hr
  exact bne_iff_ne.mpr fun heq => by simp [heq] at hne

theorem names_put (t : Table α) {name : Text} (h : t.find? name = none) (a : α) :
    (t.put name a).names = t.names ++ [name] := by
  simp only [names, put, t.erase_of_unbound h, List.map_append, List.map_cons, List.map_nil]

/-- Erasing a row that was put in anew leaves the table as it was. -/
theorem erase_put (t : Table α) {name : Text} (h : t.find? name = none) (a : α) :
    (t.put name a).erase name = t := by
  have herase := congrArg rows (t.erase_of_unbound h)
  simp only [erase] at herase
  obtain ⟨rows, unique⟩ := t
  simp only [erase, put, herase, List.filter_append, mk.injEq]
  simp

end Table

end ParamLang
