import ParamLang.Proofs.Order
import ParamLang.Proofs.Registry.Observation
import ParamLang.Proofs.Registry.Structure

/-! Bare dumps, which ask for no name and so list all of them: the names of parameters in order,
other names included, and then the variables in order. -/
namespace ParamLang

namespace Dump

/-- Lines in the order of their names, one for each name that has something to show. -/
structure Listing (shows : Text → Text → Prop) (lines : List (Text × Text)) : Prop where
  ascending : (lines.map Prod.fst).SortedLT
  complete : ∀ name value, (name, value) ∈ lines ↔ shows name value

/-- One listing and then another. -/
def Lists (first second : Text → Text → Prop) (lines : List (Text × Text)) : Prop :=
  ∃ before after, lines = before ++ after ∧ Listing first before ∧ Listing second after

/-- The line of a name of a parameter. It shows the value of the cell, or else its default, but
under a name with the sigil in front the variable of that name. -/
inductive NameLine (marks : Marks) (m : Memory) : Text → Text → Prop
  | parameter {name : Text} {cell : Cell} (hname : marks.variableOf? name = none)
      (hcell : m.cell? name = some cell) : NameLine marks m name (cell.shown?.getD missingText)
  | hidden {v : Text} {cell : Cell} (hcell : m.cell? (marks.sigil :: v) = some cell) :
      NameLine marks m (marks.sigil :: v) ((m.bindings.find? v).getD undefinedText)

/-- The line of a cell, with its value or else its default, under the name it was defined with. -/
inductive CellLine (definitions : List (Text × Cell)) (m : Memory) : Text → Text → Prop
  | intro {place : Nat} {name : Text} {defined cell : Cell}
      (hdefined : definitions[place]? = some (name, defined))
      (hcell : m.cells[place]? = some cell) :
      CellLine definitions m name (cell.shown?.getD missingText)

/-- The line of a variable. -/
inductive VariableLine (marks : Marks) (m : Memory) : Text → Text → Prop
  | intro {v value : Text} (hvalue : m.bindings.find? v = some value) :
      VariableLine marks m (marks.sigil :: v) value

/-- Each name of a parameter is the one that its cell was defined with. -/
def Unaliased (definitions : List (Text × Cell)) (m : Memory) : Prop :=
  ∀ name ∈ m.names.names, name ∈ definitions.map Prod.fst

instance (definitions : List (Text × Cell)) (m : Memory) : Decidable (Unaliased definitions m) :=
  inferInstanceAs (Decidable (∀ name ∈ m.names.names, name ∈ definitions.map Prod.fst))

/-- What is shown for a parameter with the sigil in front is not something else than its value. -/
def Unhidden (marks : Marks) (m : Memory) : Prop :=
  ∀ v cell, m.cell? (marks.sigil :: v) = some cell →
    (m.bindings.find? v).getD undefinedText = cell.shown?.getD missingText

section

variable {shows shows' : Text → Text → Prop} {lines lines' : List (Text × Text)}

lemma Listing.congr (h : Listing shows lines)
    (hshows : ∀ name value, shows name value ↔ shows' name value) : Listing shows' lines :=
  ⟨h.ascending, fun name value => (h.complete name value).trans (hshows name value)⟩

/-- What there is to show leaves no choice among listings. -/
lemma Listing.unique (h : Listing shows lines) (h' : Listing shows lines') : lines = lines' := by
  have hperm : lines.Perm lines' := by
    refine (List.perm_ext_iff_of_nodup h.ascending.nodup.of_map h'.ascending.nodup.of_map).mpr ?_
    rintro ⟨name, value⟩
    rw [h.complete, h'.complete]
  have hpairwise {ls : List (Text × Text)} (hls : (ls.map Prod.fst).SortedLT) :
      ls.Pairwise fun a b => a.1 < b.1 := List.pairwise_map.mp hls.pairwise
  refine hperm.eq_of_pairwise ?_ (hpairwise h.ascending) (hpairwise h'.ascending)
  exact fun a b _ _ hab hba => absurd hba hab.asymm

/-- A listing of what each of some names shows. -/
lemma listing_map {names : List Text} (h : names.SortedLT) (line : Text → Text) :
    Listing (fun name value => name ∈ names ∧ value = line name)
      (names.map fun name => (name, line name)) where
  ascending := by simpa [Function.comp_def] using h
  complete name value := by simp [eq_comm]

/-- What follows is listed in one way only, so what comes first is what matters. -/
lemma lists_iff_of_listing {second : Text → Text → Prop} {before after : List (Text × Text)}
    (hbefore : Listing shows before) (hafter : Listing second after) :
    Lists shows' second (before ++ after) ↔
      ∀ name value, shows name value ↔ shows' name value := by
  constructor
  · rintro ⟨before', after', heq, hbefore', hafter'⟩ name value
    -- both ends are the same lines, so what stands before them is the same too
    obtain rfl := hafter.unique hafter'
    obtain rfl := List.append_cancel_right heq
    rw [← hbefore.complete, ← hbefore'.complete]
  · intro hshows
    exact ⟨before, after, rfl, hbefore.congr hshows, hafter⟩

end

variable {marks : Marks} {m : Memory} {definitions : List (Text × Cell)} {name v value : Text}
  {cell : Cell}

lemma shown_variable (marks : Marks) (m : Memory) (v : Text) :
    shown marks m (marks.sigil :: v) = (m.bindings.find? v).getD undefinedText := by
  simp [shown, Marks.variableOf?]

lemma shown_parameter (hname : marks.variableOf? name = none) (hcell : m.cell? name = some cell) :
    shown marks m name = cell.shown?.getD missingText := by
  simp [shown, hname, hcell]

lemma nameLine_iff : NameLine marks m name value ↔
    (∃ cell, m.cell? name = some cell) ∧ value = shown marks m name := by
  constructor
  · rintro (⟨hname, hcell⟩ | hcell)
    · exact ⟨⟨_, hcell⟩, (shown_parameter hname hcell).symm⟩
    · exact ⟨⟨_, hcell⟩, (shown_variable marks m _).symm⟩
  · rintro ⟨⟨cell, hcell⟩, rfl⟩
    cases hname : marks.variableOf? name with
    | none => exact shown_parameter hname hcell ▸ .parameter hname hcell
    | some v =>
      obtain rfl := Marks.variableOf?_eq_some_iff.mp hname
      exact shown_variable marks m v ▸ .hidden hcell

lemma variableLine_iff : VariableLine marks m name value ↔
    ∃ v, m.bindings.contains v = true ∧ name = marks.sigil :: v ∧ value = shown marks m name := by
  constructor
  · rintro ⟨hvalue⟩
    exact ⟨_, by simp [Table.contains, hvalue], rfl, by simp [shown_variable, hvalue]⟩
  · rintro ⟨v, hv, rfl, rfl⟩
    obtain ⟨value, hvalue⟩ := Option.isSome_iff_exists.mp hv
    have hshown : shown marks m (marks.sigil :: v) = value := by simp [shown_variable, hvalue]
    exact hshown ▸ .intro hvalue

/-- A cell is found by the name it was defined with. -/
lemma cellLine_iff (hm : m.DefinedBy definitions) : CellLine definitions m name value ↔
    name ∈ definitions.map Prod.fst ∧
      ∃ cell, m.cell? name = some cell ∧ value = cell.shown?.getD missingText := by
  constructor
  · rintro ⟨hdefined, hcell⟩
    have hplace := hm.names _ _ hdefined
    refine ⟨List.mem_map_of_mem (List.mem_of_getElem? hdefined), _, ?_, rfl⟩
    rw [Memory.cell?, hplace, Option.bind_some, hcell]
  · rintro ⟨hname, cell, hcell, rfl⟩
    obtain ⟨⟨name, defined⟩, hmem, rfl⟩ := List.mem_map.mp hname
    obtain ⟨place, hdefined⟩ := List.mem_iff_getElem?.mp hmem
    rw [Memory.cell?, hm.names _ _ hdefined, Option.bind_some] at hcell
    exact .intro hdefined hcell

/-- In a sound memory there is a cell behind each name. -/
lemma mem_names_iff (hm : m.Sound) (name : Text) :
    name ∈ m.names.names ↔ ∃ cell, m.cell? name = some cell := by
  rw [← m.names.contains_iff_mem_names, Table.contains, Option.isSome_iff_exists]
  constructor
  · rintro ⟨place, hplace⟩
    have hlt := hm.placed name place hplace
    exact ⟨m.cells[place], by simp [Memory.cell?, hplace, hlt]⟩
  · rintro ⟨cell, hcell⟩
    obtain ⟨place, hplace, -⟩ := Option.bind_eq_some_iff.mp hcell
    exact ⟨place, hplace⟩

/-- The names of parameters in order, each with its line. -/
lemma listing_names (marks : Marks) (hm : m.Sound) : Listing (NameLine marks m)
    ((Text.sorted m.names.names).map fun name => (name, shown marks m name)) := by
  have hsorted : (Text.sorted m.names.names).SortedLT := Text.sortedLT_sorted m.names.unique
  refine (listing_map hsorted (shown marks m)).congr fun name value => ?_
  rw [Text.mem_sorted, mem_names_iff hm, nameLine_iff]

/-- The variables in order, each with its line. -/
lemma listing_variables (marks : Marks) (m : Memory) : Listing (VariableLine marks m)
    (((Text.sorted m.bindings.names).map (marks.sigil :: ·)).map
      fun name => (name, shown marks m name)) := by
  have hsorted : (Text.sorted m.bindings.names).SortedLT :=
    Text.sortedLT_sorted m.bindings.unique
  have hnames := (Text.strictMono_cons marks.sigil).sortedLT_listMap.mpr hsorted
  refine (listing_map hnames (shown marks m)).congr fun name value => ?_
  rw [variableLine_iff]
  simp only [List.mem_map, Text.mem_sorted, Table.contains_iff_mem_names]
  constructor
  · rintro ⟨⟨v, hv, rfl⟩, rfl⟩
    exact ⟨v, hv, rfl, rfl⟩
  · rintro ⟨v, hv, rfl, rfl⟩
    exact ⟨⟨v, hv, rfl⟩, rfl⟩

lemma Unhidden.shown_eq (h : Unhidden marks m) (hcell : m.cell? name = some cell) :
    shown marks m name = cell.shown?.getD missingText := by
  cases hname : marks.variableOf? name with
  | none => exact shown_parameter hname hcell
  | some v =>
    obtain rfl := Marks.variableOf?_eq_some_iff.mp hname
    rw [shown_variable, h v cell hcell]

/-- The lines of names are those of cells just when each cell has one name, and that shows it. -/
lemma nameLine_iff_cellLine_iff (hsound : m.Sound) (hm : m.DefinedBy definitions) :
    (∀ name value, NameLine marks m name value ↔ CellLine definitions m name value) ↔
      Unaliased definitions m ∧ Unhidden marks m := by
  constructor
  · intro hlines
    have hcells {name : Text} (hname : ∃ cell, m.cell? name = some cell) :=
      (cellLine_iff hm).mp ((hlines name _).mp (nameLine_iff.mpr ⟨hname, rfl⟩))
    constructor
    · intro name hname
      exact (hcells ((mem_names_iff hsound name).mp hname)).1
    · intro v cell hcell
      obtain ⟨-, other, hother, hshown⟩ := hcells ⟨cell, hcell⟩
      obtain rfl := Option.some.inj (hcell.symm.trans hother)
      rw [← shown_variable, hshown]
  · rintro ⟨hunaliased, hunhidden⟩ name value
    rw [nameLine_iff, cellLine_iff hm]
    constructor
    · rintro ⟨⟨cell, hcell⟩, rfl⟩
      have hname := (mem_names_iff hsound name).mpr ⟨cell, hcell⟩
      exact ⟨hunaliased name hname, cell, hcell, hunhidden.shown_eq hcell⟩
    · rintro ⟨-, cell, hcell, rfl⟩
      exact ⟨⟨cell, hcell⟩, (hunhidden.shown_eq hcell).symm⟩

/-- The lines of a dump that asks for no name. -/
lemma lines_of_bare {s : Settings} {operand : Text} (h : requested s m operand = []) :
    lines s m operand =
      (Text.sorted m.names.names).map (fun name => (name, shown s.marks m name)) ++
        ((Text.sorted m.bindings.names).map (s.marks.sigil :: ·)).map
          fun name => (name, shown s.marks m name) := by
  rw [lines, h, if_pos rfl, Dump.allNames, List.map_append]

lemma lists_cellLine_iff {s : Settings} {operand : Text} (hsound : m.Sound)
    (hm : m.DefinedBy definitions) (h : requested s m operand = []) :
    Lists (CellLine definitions m) (VariableLine s.marks m) (lines s m operand) ↔
      Unaliased definitions m ∧ Unhidden s.marks m := by
  rw [lines_of_bare h,
    lists_iff_of_listing (listing_names s.marks hsound) (listing_variables s.marks m),
    nameLine_iff_cellLine_iff hsound hm]

end Dump

namespace Registry

open Interpret Dump

/-- What is defined by operations is there at any moment of a parse after them. -/
lemma Reaches.definedBy {operations : List Operation} {text : Text} {past : List Happening}
    {now : Moment} (h : (new.performAll operations).Reaches [.parse text] past now) :
    now.memory.Sound ∧ now.memory.DefinedBy (new.definitions operations) := by
  have hgrows := performAll_new_grows operations
  cases h with
  | next later => cases later
  | inside hscan inner =>
    have hshape := inner.run.sameShape
    have hempty := inner.run.nonempty hgrows.sound.nonempty
    exact ⟨hshape.sound hgrows.sound hempty, hshape.definedBy hgrows.defined⟩

/-- A dump that asks for no name, wherever it comes up, lists all names of parameters in order, and
then the variables. It has the lines of the cells, each under the name it was defined with, and then
those of the variables just when no parameter has another name and none is hidden by a variable. -/
theorem bare_dump_lists {operations : List Operation} {text : Text} {past : List Happening}
    {now : Moment} (hreaches : (new.performAll operations).Reaches [.parse text] past now)
    {name operand : Text} (hentry : now.entry = .pair name operand)
    (hrole : HasRole now.settings now.memory name (.directive .dump))
    (hbare : requested now.settings now.memory operand = []) :
    let m := now.memory
    let marks := now.settings.marks
    let definitions := new.definitions operations
    Lists (NameLine marks m) (VariableLine marks m) now.outcome.dumped ∧
      (Lists (CellLine definitions m) (VariableLine marks m) now.outcome.dumped ↔
        Unaliased definitions m ∧ Unhidden marks m) := by
  intro m marks definitions
  obtain ⟨hsound, hdefined⟩ := hreaches.definedBy
  have hdumped : now.outcome.dumped = lines now.settings m operand := by
    rw [Moment.outcome, hentry, entry, pair_of_hasRole hrole]
    exact dumped_dump operand m
  rw [hdumped]
  refine ⟨⟨_, _, lines_of_bare hbare, ?_, ?_⟩, lists_cellLine_iff hsound hdefined hbare⟩
  · exact listing_names marks hsound
  · exact listing_variables marks m

/-- A value, an empty default, a value that is missing, and a variable. -/
theorem bare_dump_lists_cells :
    let operations : List Operation := [.defineWithDefault ['y'] [], .define ['z'], .define ['x']]
    let text : Text := ['$', 'v', '=', '1', ' ', 'x', '=', '2', ' ', 'd', 'u', 'm', 'p', '=', '[',
      ']']
    ∃ past now, (new.performAll operations).Reaches [.parse text] past now ∧
      now.outcome.dumped =
        [(['x'], ['2']), (['y'], []), (['z'], missingText), (['$', 'v'], ['1'])] ∧
      Lists (CellLine (new.definitions operations) now.memory)
        (VariableLine now.settings.marks now.memory) now.outcome.dumped := by
  intro operations text
  let m : Memory := (new.performAll operations).memory
  let bound : Memory := { m with bindings := .ofList [(['v'], ['1'])] }
  let stored : Memory := bound.store .standard 2 ['x'] ['2']
  let now : Moment := ⟨.standard, 100, [], .pair Directive.dump.name [], stored⟩
  have hscan : scan .standard text =
      .ok [.pair ['$', 'v'] ['1'], .pair ['x'] ['2'], .pair Directive.dump.name []] := by cbv
  have hbound : Moment.outcome ⟨.standard, 100, [], .pair ['$', 'v'] ['1'], m⟩ =
      .noted [.bound ['v'] ['1']] bound := by cbv
  have hstored : Moment.outcome ⟨.standard, 100, [], .pair ['x'] ['2'], bound⟩ =
      .noted [.stored 2 ['x'] ['2']] stored := by cbv
  have hreaches : (new.performAll operations).Reaches [.parse text] _ now :=
    .inside hscan (.next hbound rfl (.next hstored rfl (.here ..)))
  have hrole := hasRole_directive .standard stored .dump
  obtain ⟨-, hlists⟩ := bare_dump_lists hreaches rfl hrole (by cbv)
  have hunaliased : Unaliased (new.definitions operations) stored := by decide
  have hunhidden : Unhidden .standard stored := by
    intro v cell hcell
    -- no parameter's name begins with the sigil
    have hnone : stored.cell? (Marks.standard.sigil :: v) = none := rfl
    rw [hnone] at hcell
    cases hcell
  have hdumped : now.outcome.dumped =
      [(['x'], ['2']), (['y'], []), (['z'], missingText), (['$', 'v'], ['1'])] := by cbv
  exact ⟨_, now, hreaches, hdumped, hlists.mpr ⟨hunaliased, hunhidden⟩⟩

/-- A parameter with an alias has two lines. -/
theorem bare_dump_repeats :
    let host : Text := ['h', 'o', 's', 't']
    let operations : List Operation := [.define host, .addAlias host ['h']]
    let r := new.performAll operations
    let dumped := (r.parse ['d', 'u', 'm', 'p', '=', '[', ']']).dumped
    dumped = [(['h'], missingText), (host, missingText)] ∧
      new.definitions operations = [(host, .mandatory)] ∧
        ¬ Lists (CellLine (new.definitions operations) r.memory)
          (VariableLine r.settings.marks r.memory) dumped := by
  intro host operations r dumped
  have hlines : lines r.settings r.memory [] = [(['h'], missingText), (host, missingText)] := by
    cbv
  have hdumped : (r.parse ['d', 'u', 'm', 'p', '=', '[', ']']).dumped =
      lines r.settings r.memory [] := by cbv
  have hgrows := performAll_new_grows operations
  refine ⟨hdumped.trans hlines, by cbv, ?_⟩
  intro hlists
  have hbare : requested r.settings r.memory [] = [] := by cbv
  have haliased : ¬ Unaliased (new.definitions operations) r.memory := by decide
  exact haliased ((lists_cellLine_iff hgrows.sound hgrows.defined hbare).mp (hdumped ▸ hlists)).1

end Registry

end ParamLang
