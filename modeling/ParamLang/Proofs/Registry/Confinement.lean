import ParamLang.Proofs.FileSystem
import ParamLang.Proofs.Plain
import ParamLang.Proofs.Registry.Depth
import ParamLang.Proofs.Registry.Structure

/-! Confinement. Where names are asked for that can only be those of parameters, an included file
stores into these parameters and does nothing else, whatever it holds. -/
namespace ParamLang

/-- A name that is a parameter's or nobody's, whatever variables are bound. -/
structure Marks.NamesParameter (m : Marks) (name : Text) : Prop where
  noReference : hasReferences m.sigil name = false
  noVariable : name.head? ≠ some m.sigil
  noDirective : Directive.find? name = none

/-- A store under one of the names. -/
def Event.StoresUnder (named : Text → Prop) : Event → Prop
  | .stored _ name _ => named name
  | _ => False

/-- Memories that are the same but for the values and the log of the parameters with the names. -/
structure Memory.SameOutside (named : Text → Prop) (m m' : Memory) : Prop where
  shape : m.SameShape m'
  bindings : m'.bindings = m.bindings
  cells : ∀ place : Nat, (∀ name, named name → m.names.find? name ≠ some place) →
    m'.cells[place]? = m.cells[place]?

variable {s : Settings} {m m' m'' : Memory} {named : Text → Prop}

namespace Memory.SameOutside

lemma refl (m : Memory) : m.SameOutside named m := ⟨.refl m, rfl, fun _ _ => rfl⟩

lemma trans (h : m.SameOutside named m') (h' : m'.SameOutside named m'') :
    m.SameOutside named m'' where
  shape := h.shape.trans h'.shape
  bindings := h'.bindings.trans h.bindings
  cells place hplace := by
    have hplace' : ∀ name, named name → m'.names.find? name ≠ some place := by
      rw [h.shape.names]
      exact hplace
    exact (h'.cells place hplace').trans (h.cells place hplace)

end Memory.SameOutside

/-- A store reaches the cell behind its name alone. -/
lemma Event.Acts.sameOutside {e : Event} (h : e.Acts s m m') (he : e.StoresUnder named) :
    m.SameOutside named m' := by
  refine ⟨h.sameShape, ?_, fun place hplace => ?_⟩
  · cases h with
    | stored value hstored => rfl
    | _ => cases he
  · cases h with
    | @stored m stored name value hstored =>
      have hne : stored ≠ place := by
        rintro rfl
        exact hplace name he hstored
      exact List.getElem?_modify_ne _ _ hne
    | _ => cases he

lemma Run.sameOutside {events : List Event} (h : Run s m events m')
    (hevents : ∀ e ∈ events, e.StoresUnder named) : m.SameOutside named m' := by
  induction h with
  | nil m => exact .refl m
  | cons first rest ih =>
    have hfirst := first.sameOutside (hevents _ (by simp))
    exact hfirst.trans (ih fun e he => hevents e (List.mem_cons_of_mem _ he))

namespace Outcome

variable {o : Outcome}

/-- Where all is stored, what is read off other events is empty. -/
lemma filterMap_of_stores {α : Type} {f : Event → Option α}
    (h : o.Only (Event.StoresUnder named))
    (hf : ∀ place name value, f (.stored place name value) = none) : o.events.filterMap f = [] := by
  refine List.filterMap_eq_nil_iff.mpr fun event hevent => ?_
  have hstores := h event hevent
  cases event with
  | stored place name value => exact hf place name value
  | _ => cases hstores

lemma dumped_of_stores (h : o.Only (Event.StoresUnder named)) : o.dumped = [] :=
  filterMap_of_stores h fun _ _ _ => rfl

lemma requests_of_stores (h : o.Only (Event.StoresUnder named)) : o.requests = [] :=
  filterMap_of_stores h fun _ _ _ => rfl

end Outcome

/-- The names that entries are kept under. -/
def Remap.Targets (remap : Remap) (target : Text) : Prop :=
  ∃ name, remap.renames.find? name = some target

lemma Remap.pair_of_mem_apply {remap : Remap} {es : List Entry} {e : Entry}
    (h : e ∈ remap.apply es) : ∃ target value, e = .pair target value ∧ remap.Targets target := by
  obtain ⟨original, -, hkept⟩ := List.mem_filterMap.mp h
  cases original with
  | value value => cases hkept
  | pair name value =>
    obtain ⟨target, htarget, rfl⟩ := Option.map_eq_some_iff.mp hkept
    exact ⟨target, value, rfl, name, htarget⟩

lemma Marks.NamesParameter.role {marks : Marks} {name : Text} (h : marks.NamesParameter name) :
    Role.ofName marks name = .assignment name := by
  have hvariable : marks.variableOf? name = none := by
    cases hv : marks.variableOf? name with
    | none => rfl
    | some v => exact absurd (by rw [variableOf?_eq_some_iff.mp hv]; rfl) h.noVariable
  simp only [Role.ofName, hvariable, h.noDirective]

namespace Interpret

open Outcome

/-- A pair under such a name is an assignment, whatever its value is. -/
lemma entry_stores {name : Text} (h : s.marks.NamesParameter name) (hnamed : named name)
    (deeper : Option Deeper) (chain : List Text) (value : Text) (m : Memory) :
    (entry s deeper chain (.pair name value) m).Only (Event.StoresUnder named) := by
  have hrole : HasRole s m name (.assignment name) :=
    h.role ▸ hasRole_of_not_hasReferences h.noReference m
  rw [entry, pair_of_hasRole hrole]
  exact only_attempt fun resolved => only_attempt fun place => only_noted hnamed _

lemma entries_store {es : List Entry} (hes : ∀ e ∈ es, ∃ name value, e = .pair name value ∧
      s.marks.NamesParameter name ∧ named name) (levels : Nat) (chain : List Text) (m : Memory) :
    (entries s levels chain es m).Only (Event.StoresUnder named) := by
  rw [entries_eq_each]
  refine only_each (fun e he m => ?_) m
  obtain ⟨name, value, rfl, hname, hnamed⟩ := hes e he
  exact entry_stores hname hnamed _ chain value m

end Interpret

namespace Registry

/-- What a file gives under the names of a remap is confined to the parameters that these names
reach, if the remap keeps entries only under names that can be nothing but parameters'. -/
theorem remap_confines (r : Registry) (system : FileSystem) (base : Text)
    {request : InclusionRequest} {remap : Remap} {included : Included}
    (hnames : request.names = some remap)
    (htargets : ∀ target, remap.Targets target → r.settings.marks.NamesParameter target)
    (hincluded : system.includer base request = .ok included) (levels : Nat) (chain : List Text) :
    let o := Interpret.entries r.settings levels chain included.entries r.memory
    r.memory.SameOutside remap.Targets o.memory ∧ o.dumped = [] ∧ o.requests = [] := by
  intro o
  obtain ⟨-, es, hselected⟩ := FileSystem.selects_of_includer hincluded
  have hentries : included.entries = remap.apply es := by
    rw [hselected, InclusionRequest.select, hnames]
  have hstores : o.Only (Event.StoresUnder remap.Targets) := by
    refine Interpret.entries_store (fun e he => ?_) levels chain r.memory
    obtain ⟨target, value, rfl, htarget⟩ := Remap.pair_of_mem_apply (hentries ▸ he)
    exact ⟨target, value, rfl, htargets target htarget, htarget⟩
  have hrun := Interpret.entries_runs r.settings levels chain included.entries r.memory
  exact ⟨hrun.sameOutside hstores, Outcome.dumped_of_stores hstores,
    Outcome.requests_of_stores hstores⟩

/-- A file of directives, a variable and a value without a name. The dump and the variable are kept
as values of one parameter, a pair under a name that is nobody's fails, and all else is gone. -/
theorem remap_confines_directives :
    let content : Text := ['d', 'u', 'm', 'p', '=', '$', '$', 'u', ' ', 'p', ' ', 'r', 'e', 's',
      'e', 't', '=', 'q', ' ', '$', 'v', '=', '2', ' ', 'q', '=', '$', '$', 'w']
    let names : Text := ['d', 'u', 'm', 'p', '=', 'p', ' ', '$', 'v', '=', 'p', ' ', 'q', '=', 'x']
    let remap : Remap :=
      ⟨.ofList [(['d', 'u', 'm', 'p'], ['p']), (['$', 'v'], ['p']), (['q'], ['x'])]⟩
    let system : FileSystem := ⟨.ok, fun _ => .ok content⟩
    let request : InclusionRequest := ⟨['/', 'f'], some remap, none, none, .standard, []⟩
    let es : List Entry :=
      [.pair ['p'] ['$', '$', 'u'], .pair ['p'] ['2'], .pair ['x'] ['$', '$', 'w']]
    let r : Registry := ⟨.standard, ⟨[.mandatory, .mandatory], .ofList [(['p'], 0), (['q'], 1)],
      .ofList [(['u'], ['d', 'u', 'm', 'p', '=', 'p'])], some []⟩⟩
    (Remap.read .standard names = .ok remap ∧
      system.includer [] request = .ok ⟨['/', 'f'], es⟩ ∧
      (Interpret.entries r.settings 99 [['/', 'f']] es r.memory).fault =
        some (.undefinedParameter ['x'])) ∧
    let o := Interpret.entries r.settings 99 [['/', 'f']] es r.memory
    r.memory.SameOutside remap.Targets o.memory ∧ o.dumped = [] ∧ o.requests = [] := by
  intro content names remap system request es r
  have hread : Remap.read .standard names = .ok remap := by cbv
  have hincluded : system.includer [] request = .ok ⟨['/', 'f'], es⟩ := by cbv
  have hfault : (Interpret.entries r.settings 99 [['/', 'f']] es r.memory).fault =
    some (.undefinedParameter ['x']) := by cbv
  have hparameter : ∀ target, target = ['p'] ∨ target = ['x'] →
      Marks.standard.NamesParameter target := by
    rintro target (rfl | rfl)
    · exact ⟨by cbv, by decide, by decide⟩
    · exact ⟨by cbv, by decide, by decide⟩
  have htargets : ∀ target, remap.Targets target → r.settings.marks.NamesParameter target := by
    rintro target ⟨name, htarget⟩
    refine hparameter target ?_
    simp only [remap, Table.ofList, List.foldl, Table.find?_put, Table.find?_empty] at htarget
    split_ifs at htarget <;> simp_all
  exact ⟨⟨hread, hincluded, hfault⟩,
    r.remap_confines system [] rfl htargets hincluded 99 [['/', 'f']]⟩

end Registry

end ParamLang
