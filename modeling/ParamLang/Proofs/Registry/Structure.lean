import ParamLang.Proofs.Registry.Happening

/-! The structure of a registry: the cells behind its names. Only definitions and aliases change it,
and they only add to it, so a name keeps its cell and a cell its kind through every parse. -/
namespace ParamLang

/-- What stays of a cell while values come and go: its default, and whether it is repeatable. -/
def Cell.kind (c : Cell) : Option Text × Bool := (c.default, c.repeatable)

/-- The parameter that an operation defines, with the cell it begins with. -/
def Operation.definition? : Operation → Option (Text × Cell)
  | .define name => some (name, .mandatory)
  | .defineWithDefault name default => some (name, .withDefault default)
  | .defineRepeatable name => some (name, .accumulating)
  | .defineFlag name => some (name, .flag)
  | _ => none

/-- What is defined begins without a value. -/
lemma Operation.raw_of_definition? {operation : Operation} {name : Text} {cell : Cell}
    (h : operation.definition? = some (name, cell)) : cell.raw = none := by
  cases operation with
  | define | defineWithDefault | defineRepeatable | defineFlag =>
    obtain ⟨-, rfl⟩ := Prod.mk.inj (Option.some.inj h)
    rfl
  | _ => cases h

/-- Nothing is to be cleared in a cell without a value. -/
lemma Cell.clear_of_raw {c : Cell} (h : c.raw = none) : c.clear = c := by
  cases c
  exact congrArg (Cell.mk · _ _) h.symm

namespace Registry

/-- The definition that an operation makes, if it makes one and does not fail. -/
def definedBy (r : Registry) (operation : Operation) : List (Text × Cell) :=
  match (r.perform operation).outcome.fault with
  | some _ => []
  | none => operation.definition?.toList

/-- The definitions that succeed among operations in order. -/
def definitions : Registry → List Operation → List (Text × Cell)
  | _, [] => []
  | r, operation :: rest =>
    r.definedBy operation ++ (r.perform operation).registry.definitions rest

end Registry

namespace Memory

/-- A memory in which names and cells fit together, no directive's name is taken, and no variable
has the empty name. -/
structure Sound (m : Memory) : Prop where
  placed : ∀ name place, m.names.find? name = some place → place < m.cells.length
  named : ∀ place, place < m.cells.length → ∃ name, m.names.find? name = some place
  unreserved : ∀ d : Directive, m.names.find? d.name = none
  nonempty : m.bindings.find? [] = none

/-- Whatever a name stands for and whatever kind a cell is of, it stays so. -/
structure ExtendedBy (m m' : Memory) : Prop where
  names : ∀ name place, m.names.find? name = some place → m'.names.find? name = some place
  kinds : m.cells.map Cell.kind <+: m'.cells.map Cell.kind

/-- The cells are those of the definitions, in order, each under the name it was defined with. So no
two definitions share one. -/
structure DefinedBy (definitions : List (Text × Cell)) (m : Memory) : Prop where
  kinds : m.cells.map Cell.kind = definitions.map fun d => d.2.kind
  names : ∀ (place : Nat) (d : Text × Cell), definitions[place]? = some d →
    m.names.find? d.1 = some place

/-- The same names for the same cells, whatever the values in them. -/
structure SameShape (m m' : Memory) : Prop where
  names : m'.names = m.names
  kinds : m'.cells.map Cell.kind = m.cells.map Cell.kind

variable {m m' m'' : Memory} {definitions : List (Text × Cell)}

lemma ExtendedBy.refl (m : Memory) : m.ExtendedBy m := ⟨fun _ _ h => h, List.prefix_refl _⟩

lemma ExtendedBy.trans (h : m.ExtendedBy m') (h' : m'.ExtendedBy m'') : m.ExtendedBy m'' :=
  ⟨fun name place hname => h'.names name place (h.names name place hname), h.kinds.trans h'.kinds⟩

lemma SameShape.refl (m : Memory) : m.SameShape m := ⟨rfl, rfl⟩

lemma SameShape.trans (h : m.SameShape m') (h' : m'.SameShape m'') : m.SameShape m'' :=
  ⟨h'.names.trans h.names, h'.kinds.trans h.kinds⟩

lemma SameShape.length_eq (h : m.SameShape m') : m'.cells.length = m.cells.length := by
  simpa using congrArg List.length h.kinds

/-- Clear cells are all that the kinds of cells tell. -/
lemma SameShape.clear_eq (h : m.SameShape m') :
    m'.cells.map Cell.clear = m.cells.map Cell.clear := by
  have hclear (cells : List Cell) :
      cells.map Cell.clear = (cells.map Cell.kind).map fun k => ⟨none, k.1, k.2⟩ := by
    simp [Cell.kind, Cell.clear]
  rw [hclear, hclear, h.kinds]

lemma SameShape.extendedBy (h : m.SameShape m') : m.ExtendedBy m' :=
  ⟨fun _ _ hname => h.names ▸ hname, h.kinds ▸ List.prefix_refl _⟩

lemma SameShape.definedBy (h : m.SameShape m') (hm : m.DefinedBy definitions) :
    m'.DefinedBy definitions :=
  ⟨h.kinds.trans hm.kinds, fun place d hd => h.names ▸ hm.names place d hd⟩

lemma SameShape.sound (h : m.SameShape m') (hm : m.Sound) (hempty : m'.bindings.find? [] = none) :
    m'.Sound where
  placed name place hname := h.length_eq ▸ hm.placed name place (h.names ▸ hname)
  named place hplace := h.names ▸ hm.named place (h.length_eq ▸ hplace)
  unreserved d := h.names ▸ hm.unreserved d
  nonempty := hempty

lemma map_kind_modify (cells : List Cell) (place : Nat) {act : Cell → Cell}
    (hact : ∀ c, (act c).kind = c.kind) :
    (cells.modify place act).map Cell.kind = cells.map Cell.kind := by
  apply List.ext_getElem?
  intro p
  by_cases hp : place = p <;>
    simp [hp, Option.map_map, Function.comp_def, hact]

lemma reset_sameShape (m : Memory) : m.SameShape m.reset :=
  ⟨rfl, by simp [reset, Cell.kind, Cell.clear]⟩

end Memory

lemma Event.Acts.sameShape {s : Settings} {e : Event} {m m' : Memory} (h : e.Acts s m m') :
    m.SameShape m' := by
  cases h with
  | stored value hplace => exact ⟨rfl, Memory.map_kind_modify _ _ fun c => rfl⟩
  | cleared hplace => exact ⟨rfl, Memory.map_kind_modify _ _ fun c => rfl⟩
  | _ => exact ⟨rfl, rfl⟩

/-- Only a variable with a name is ever bound. -/
lemma Event.Acts.nonempty {s : Settings} {e : Event} {m m' : Memory} (h : e.Acts s m m')
    (hm : m.bindings.find? [] = none) : m'.bindings.find? [] = none := by
  cases h with
  | bound hname hnew hresolved => simpa [Memory.bind, Table.find?_put, hname.symm] using hm
  | unbound m name =>
    simp only [Memory.unbind, Table.find?_erase, hm]
    split <;> rfl
  | _ => exact hm

lemma Run.sameShape {s : Settings} {events : List Event} {m m' : Memory} (h : Run s m events m') :
    m.SameShape m' := by
  induction h with
  | nil m => exact .refl m
  | cons first rest ih => exact first.sameShape.trans ih

lemma Run.nonempty {s : Settings} {events : List Event} {m m' : Memory} (h : Run s m events m')
    (hm : m.bindings.find? [] = none) : m'.bindings.find? [] = none := by
  induction h with
  | nil m => exact hm
  | cons first rest ih => exact ih (first.nonempty hm)

namespace Memory

variable {m m' : Memory} {name : Text} {cell : Cell} {definitions : List (Text × Cell)}

lemma Sound.empty : Memory.empty.Sound where
  placed _ _ hname := nomatch hname
  named _ hplace := absurd hplace (Nat.not_lt_zero _)
  unreserved _ := rfl
  nonempty := rfl

/-- A new name takes nothing from the names before it. -/
lemma find?_put_of_new {place : Nat} (hnew : m.names.find? name = none) :
    ∀ other p, m.names.find? other = some p → (m.names.put name place).find? other = some p := by
  intro other p hother
  have hne : other ≠ name := by
    rintro rfl
    simp [hnew] at hother
  simpa [Table.find?_put, hne] using hother

lemma unreserved_put {place : Nat} (hname : Directive.find? name = none)
    (h : ∀ d : Directive, m.names.find? d.name = none) (d : Directive) :
    (m.names.put name place).find? d.name = none := by
  have hne : d.name ≠ name := by
    rintro rfl
    simp [(Directive.find?_eq_some_iff d.name d).mpr rfl] at hname
  simpa [Table.find?_put, hne] using h d

lemma Sound.define (h : m.Sound) (hm : m.define name cell = .ok m') : m'.Sound := by
  obtain ⟨⟨hname, hnew⟩, rfl⟩ := define_eq_ok_iff.mp hm
  refine ⟨?_, ?_, unreserved_put hname h.unreserved, h.nonempty⟩
  · intro other place hother
    simp only [Table.find?_put] at hother
    simp only [List.length_append, List.length_singleton]
    split at hother
    · obtain rfl := Option.some.inj hother
      omega
    · have := h.placed other place hother
      omega
  · intro place hplace
    simp only [List.length_append, List.length_singleton] at hplace
    by_cases hlast : place = m.cells.length
    · exact ⟨name, by simp [Table.find?_put, hlast]⟩
    · obtain ⟨other, hother⟩ := h.named place (by omega)
      exact ⟨other, find?_put_of_new hnew other place hother⟩

lemma define_extendedBy (hm : m.define name cell = .ok m') : m.ExtendedBy m' := by
  obtain ⟨⟨-, hnew⟩, rfl⟩ := define_eq_ok_iff.mp hm
  exact ⟨find?_put_of_new hnew, by simp⟩

/-- A definition adds its cell, under its name, after all others. -/
lemma DefinedBy.define (h : m.DefinedBy definitions) (hm : m.define name cell = .ok m') :
    m'.DefinedBy (definitions ++ [(name, cell)]) := by
  obtain ⟨⟨-, hnew⟩, rfl⟩ := define_eq_ok_iff.mp hm
  refine ⟨by simp [h.kinds], ?_⟩
  intro place d hd
  have hlength : m.cells.length = definitions.length := by simpa using congrArg List.length h.kinds
  by_cases hplace : place < definitions.length
  · rw [List.getElem?_append_left hplace] at hd
    exact find?_put_of_new hnew d.1 place (h.names place d hd)
  · obtain ⟨rfl, rfl⟩ : place = definitions.length ∧ (name, cell) = d := by grind
    simp [Table.find?_put, hlength]

lemma Sound.addAlias {existing : Text} (h : m.Sound) (hm : m.addAlias existing name = .ok m') :
    m'.Sound := by
  obtain ⟨place, hplace, ⟨hname, hnew⟩, rfl⟩ := addAlias_eq_ok_iff.mp hm
  refine ⟨?_, ?_, unreserved_put hname h.unreserved, h.nonempty⟩
  · intro other p hother
    simp only [Table.find?_put] at hother
    split at hother
    · obtain rfl := Option.some.inj hother
      exact h.placed existing place hplace
    · exact h.placed other p hother
  · intro p hp
    obtain ⟨other, hother⟩ := h.named p hp
    exact ⟨other, find?_put_of_new hnew other p hother⟩

lemma addAlias_extendedBy {existing : Text} (hm : m.addAlias existing name = .ok m') :
    m.ExtendedBy m' := by
  obtain ⟨place, -, ⟨-, hnew⟩, rfl⟩ := addAlias_eq_ok_iff.mp hm
  exact ⟨find?_put_of_new hnew, List.prefix_refl _⟩

lemma DefinedBy.extendedBy (h : m.DefinedBy definitions) (hm : m.ExtendedBy m')
    (hcells : m'.cells = m.cells) : m'.DefinedBy definitions :=
  ⟨hcells ▸ h.kinds, fun place d hd => hm.names d.1 place (h.names place d hd)⟩

end Memory

namespace Registry

variable {r : Registry} {definitions : List (Text × Cell)}

/-- What the structure of a registry comes to when its memory moves on to another. -/
structure Grows (r : Registry) (definitions added : List (Text × Cell)) (m : Memory) : Prop where
  sound : m.Sound
  extended : r.memory.ExtendedBy m
  defined : m.DefinedBy (definitions ++ added)

lemma grows_of_sameShape {m : Memory} (hsound : r.memory.Sound)
    (hdefined : r.memory.DefinedBy definitions) (h : r.memory.SameShape m)
    (hempty : m.bindings.find? [] = none) : r.Grows definitions [] m :=
  ⟨h.sound hsound hempty, h.extendedBy, (List.append_nil definitions).symm ▸ h.definedBy hdefined⟩

lemma perform_of_definition? {operation : Operation} {name : Text} {cell : Cell}
    (h : operation.definition? = some (name, cell)) :
    r.perform operation = r.changed (r.memory.define name cell) := by
  cases operation with
  | define | defineWithDefault | defineRepeatable | defineFlag =>
    obtain ⟨rfl, rfl⟩ := Prod.mk.inj (Option.some.inj h)
    rfl
  | _ => cases h

lemma grows_define (hsound : r.memory.Sound) (hdefined : r.memory.DefinedBy definitions)
    {operation : Operation} {name : Text} {cell : Cell}
    (h : operation.definition? = some (name, cell)) :
    r.Grows definitions (r.definedBy operation) (r.perform operation).registry.memory := by
  rw [definedBy, h, perform_of_definition? h]
  cases hm : r.memory.define name cell with
  | error fault => exact grows_of_sameShape hsound hdefined (.refl _) hsound.nonempty
  | ok m => exact ⟨hsound.define hm, Memory.define_extendedBy hm, hdefined.define hm⟩

lemma grows_addAlias (hsound : r.memory.Sound) (hdefined : r.memory.DefinedBy definitions)
    (existing name : Text) : r.Grows definitions []
      (r.changed (r.memory.addAlias existing name)).registry.memory := by
  cases hm : r.memory.addAlias existing name with
  | error fault => exact grows_of_sameShape hsound hdefined (.refl _) hsound.nonempty
  | ok m =>
    have hextended := Memory.addAlias_extendedBy hm
    obtain ⟨place, -, -, rfl⟩ := Memory.addAlias_eq_ok_iff.mp hm
    exact ⟨hsound.addAlias hm, hextended,
      (List.append_nil definitions).symm ▸ hdefined.extendedBy hextended rfl⟩

lemma definedBy_of_definition?_eq_none {operation : Operation}
    (h : operation.definition? = none) : r.definedBy operation = [] := by
  unfold definedBy
  split <;> simp [h]

/-- One operation keeps the structure, and adds to it at most what it defines. -/
lemma perform_grows (hsound : r.memory.Sound) (hdefined : r.memory.DefinedBy definitions)
    (operation : Operation) :
    r.Grows definitions (r.definedBy operation) (r.perform operation).registry.memory := by
  have hkept {m : Memory} (h : r.memory.SameShape m) (hempty : m.bindings.find? [] = none) :
      r.Grows definitions [] m := grows_of_sameShape hsound hdefined h hempty
  cases operation with
  | define name => exact grows_define hsound hdefined rfl
  | defineWithDefault name default => exact grows_define hsound hdefined rfl
  | defineRepeatable name => exact grows_define hsound hdefined rfl
  | defineFlag name => exact grows_define hsound hdefined rfl
  | addAlias existing name =>
    rw [definedBy_of_definition?_eq_none rfl]
    exact grows_addAlias hsound hdefined existing name
  | parse text =>
    rw [definedBy_of_definition?_eq_none rfl]
    have hrun := r.parse_runs text
    exact hkept hrun.sameShape (hrun.nonempty hsound.nonempty)
  | reset => exact hkept (Memory.reset_sameShape _) rfl
  | keepHistory => exact hkept ⟨rfl, rfl⟩ hsound.nonempty
  | useMarks | limitDepth | useIncluder | useSink => exact hkept (.refl _) hsound.nonempty

lemma performAll_grows (hsound : r.memory.Sound) (hdefined : r.memory.DefinedBy definitions)
    (operations : List Operation) :
    r.Grows definitions (r.definitions operations) (r.performAll operations).memory := by
  induction operations generalizing r definitions with
  | nil => exact grows_of_sameShape hsound hdefined (.refl _) hsound.nonempty
  | cons operation operations ih =>
    have hfirst := perform_grows hsound hdefined operation
    have hrest := ih hfirst.sound hfirst.defined
    refine ⟨hrest.sound, hfirst.extended.trans hrest.extended, ?_⟩
    rw [Registry.definitions, ← List.append_assoc]
    exact hrest.defined

/-- A new registry is sound, and has no definitions yet. -/
lemma performAll_new_grows (operations : List Operation) :
    new.Grows [] (new.definitions operations) (new.performAll operations).memory := by
  have hnew : new.memory.DefinedBy [] := ⟨rfl, fun _ _ hd => nomatch hd⟩
  exact performAll_grows (r := new) .empty hnew operations

/-- Whatever is performed on a new registry, names and cells fit together, the cells are those of
the definitions that succeeded, one for each of them, and all of this stays in whatever follows. -/
theorem performAll_structure (operations more : List Operation) :
    let r := new.performAll operations
    (r.memory.Sound ∧ r.memory.DefinedBy (new.definitions operations)) ∧
      r.memory.ExtendedBy (r.performAll more).memory := by
  intro r
  have hgrows := performAll_new_grows operations
  have hmore := performAll_grows hgrows.sound hgrows.defined more
  exact ⟨⟨hgrows.sound, hgrows.defined⟩, hmore.extended⟩

end Registry

end ParamLang
