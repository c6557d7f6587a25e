import ParamLang.Proofs.Layout
import ParamLang.Proofs.Registry.Happening

/-! Repeatable parameters. The raw text of one is a layout of the values stored to it, so its
elements are these values, all of them and in order, whatever characters they hold. -/
namespace ParamLang

/-- The values in the cell at a place after something happens, from those before it. -/
def Happening.collect (place : Nat) (values : List Text) : Happening → List Text
  | .event (.stored p _ value) => if p = place then values ++ [value] else values
  | .event (.cleared p) => if p = place then [] else values
  | .event _ => values
  | .reset => []

/-- The values stored to the cell at a place since it was last cleared, in order. -/
def storedSince (place : Nat) (happenings : List Happening) : List Text :=
  happenings.foldl (Happening.collect place) []

lemma storedSince_append_single (place : Nat) (happenings : List Happening) (h : Happening) :
    storedSince place (happenings ++ [h]) = h.collect place (storedSince place happenings) := by
  simp [storedSince]

namespace Cell

/-- The raw text of a list after assignments in order. -/
def listed (m : Marks) (raw : Option Text) (values : List Text) : Option Text :=
  values.foldl (fun raw value => some (appendElement m value raw)) raw

lemma listed_some (m : Marks) {tokens : List Token} {raw : Text} (h : Layout m false tokens raw)
    (values : List Text) : ∃ text, listed m (some raw) values = some text ∧
      Layout m false (tokens ++ values.map .literal) text := by
  induction values generalizing tokens raw with
  | nil => exact ⟨raw, rfl, by simpa using h⟩
  | cons value values ih =>
    obtain ⟨text, htext, hlayout⟩ := ih (h.append_quote value)
    exact ⟨text, htext, by simpa using hlayout⟩

/-- The raw text of a nonempty list is a layout of its elements. -/
lemma listed_none_cons (m : Marks) (value : Text) (values : List Text) :
    ∃ text, listed m none (value :: values) = some text ∧
      Layout m false ((value :: values).map .literal) text := by
  have hfirst : Layout m false [.literal value] (m.quote value) := by
    simpa using Layout.bracketed (m := m) value Text.isGap_nil (.blank Text.isGap_nil)
  obtain ⟨text, htext, hlayout⟩ := listed_some m hfirst values
  exact ⟨text, htext, by simpa using hlayout⟩

/-- The contents of a repeatable cell: the list of values that were assigned to it. -/
structure Lists (m : Marks) (values : List Text) (c : Cell) : Prop where
  default : c.default = some []
  raw : c.raw = listed m none values

variable {m : Marks} {values : List Text} {c : Cell}

lemma Lists.assign (h : c.Lists m values) (hc : c.repeatable = true) (value : Text) :
    (c.assign m value).Lists m (values ++ [value]) := by
  refine ⟨h.default, ?_⟩
  simp only [Cell.assign, hc, if_true, h.raw, listed, List.foldl_append, List.foldl_cons,
    List.foldl_nil]

lemma Lists.clear (h : c.Lists m values) : c.clear.Lists m [] := ⟨h.default, rfl⟩

/-- The elements of a repeatable cell are the values that were assigned to it. -/
lemma Lists.rawElements_eq (h : c.Lists m values) (name : Text) :
    (View.mk name c m).rawElements = .ok values := by
  cases values with
  | nil =>
    have hraw : c.raw = none := h.raw
    have hempty : Layout m false [] [] := .blank Text.isGap_nil
    simpa [View.rawElements, View.raw, shown?, hraw, h.default] using hempty.elements_eq
  | cons value values =>
    obtain ⟨text, htext, hlayout⟩ := listed_none_cons m value values
    have hraw : c.raw = some text := h.raw.trans htext
    simpa [View.rawElements, View.raw, shown?, hraw, Token.element, Function.comp_def] using
      hlayout.elements_eq

end Cell

/-- Every repeatable cell lists the values given for its place, and no values are given for places
without a cell. -/
structure Memory.Lists (marks : Marks) (values : Nat → List Text) (m : Memory) : Prop where
  named : ∀ name place, m.names.find? name = some place → place < m.cells.length
  unused : ∀ place, m.cells.length ≤ place → values place = []
  listed : ∀ (place : Nat) (c : Cell), m.cells[place]? = some c → c.repeatable = true →
    c.Lists marks (values place)

namespace Memory.Lists

variable {marks : Marks} {values : Nat → List Text} {m m' : Memory}

lemma empty (marks : Marks) : Memory.empty.Lists marks fun _ => [] where
  named _ _ hname := nomatch hname
  unused _ _ := rfl
  listed _ _ hc := nomatch hc

/-- What changes one cell changes the values of one place. -/
lemma modify (h : m.Lists marks values) {place : Nat} (hplace : place < m.cells.length)
    (act : Cell → Cell) {change : List Text → List Text}
    (hkind : ∀ c, (act c).repeatable = c.repeatable)
    (hact : ∀ c vs, c.repeatable = true → c.Lists marks vs → (act c).Lists marks (change vs)) :
    { m with cells := m.cells.modify place act }.Lists marks
      fun p => if place = p then change (values p) else values p := by
  refine ⟨?_, ?_, ?_⟩
  · intro name p hname
    simpa using h.named name p hname
  · intro p hp
    have hp : m.cells.length ≤ p := by simpa using hp
    have hne : place ≠ p := by omega
    simpa [hne] using h.unused p hp
  · intro p c hc hrep
    by_cases heq : place = p
    · subst heq
      obtain ⟨c₀, hc₀, rfl⟩ : ∃ c₀, m.cells[place]? = some c₀ ∧ act c₀ = c := by
        simpa [List.getElem?_modify] using hc
      rw [hkind] at hrep
      simpa using hact c₀ _ hrep (h.listed place c₀ hc₀ hrep)
    · have hc : m.cells[p]? = some c := by simpa [List.getElem?_modify, heq] using hc
      simpa [heq] using h.listed p c hc hrep

lemma event {s : Settings} {e : Event} (h : m.Lists s.marks values) (hacts : e.Acts s m m') :
    m'.Lists s.marks fun place => (Happening.event e).collect place (values place) := by
  cases hacts with
  | @stored _ place name value hplace =>
    have hcells := h.modify (h.named name place hplace) (Cell.assign s.marks value)
      (fun c => rfl) fun c vs hc hvs => hvs.assign hc value
    exact ⟨hcells.named, hcells.unused, hcells.listed⟩
  | @cleared _ place name hplace =>
    exact h.modify (h.named name place hplace) Cell.clear (fun c => rfl)
      fun c vs hc hvs => hvs.clear
  | bound hname hnew hresolved => exact ⟨h.named, h.unused, h.listed⟩
  | unbound m name => exact ⟨h.named, h.unused, h.listed⟩
  | dumped m name value => exact h
  | requested m request => exact h
  | entered m source => exact h
  | left m => exact h

lemma run {s : Settings} {hs : List Happening} {events : List Event}
    (h : m.Lists s.marks (storedSince · hs)) (hrun : Run s m events m') :
    m'.Lists s.marks (storedSince · (hs ++ events.map .event)) := by
  induction hrun generalizing hs with
  | nil m => simpa using h
  | @cons m m₁ m' e events first rest ih =>
    have hfirst : m₁.Lists s.marks (storedSince · (hs ++ [.event e])) := by
      simpa only [storedSince_append_single] using h.event first
    simpa using ih hfirst

lemma define {name : Text} {cell : Cell} (h : m.Lists marks values)
    (hcell : cell.repeatable = true → cell.Lists marks []) (hm : m.define name cell = .ok m') :
    m'.Lists marks values := by
  obtain ⟨-, rfl⟩ := define_eq_ok_iff.mp hm
  refine ⟨?_, ?_, ?_⟩
  · intro other place hother
    simp only [Table.find?_put] at hother
    split at hother
    · obtain rfl := Option.some.inj hother
      simp
    · have hlt := h.named other place hother
      simp only [List.length_append, List.length_singleton]
      omega
  · intro place hplace
    simp only [List.length_append, List.length_singleton] at hplace
    exact h.unused place (by omega)
  · intro place c hc hrep
    obtain hc | ⟨hplace, hc⟩ : m.cells[place]? = some c ∨
        m.cells.length ≤ place ∧ [cell][place - m.cells.length]? = some c := by
      grind
    · exact h.listed place c hc hrep
    · obtain rfl : cell = c := by grind
      simpa [h.unused place hplace] using hcell hrep

lemma addAlias {existing name : Text} (h : m.Lists marks values)
    (hm : m.addAlias existing name = .ok m') : m'.Lists marks values := by
  obtain ⟨place, hplace, -, rfl⟩ := addAlias_eq_ok_iff.mp hm
  refine ⟨?_, h.unused, h.listed⟩
  intro other p hother
  simp only [Table.find?_put] at hother
  split at hother
  · obtain rfl := Option.some.inj hother
    exact h.named existing place hplace
  · exact h.named other p hother

lemma reset (h : m.Lists marks values) : m.reset.Lists marks fun _ => [] := by
  refine ⟨?_, fun _ _ => rfl, ?_⟩
  · intro name place hname
    simpa [Memory.reset] using h.named name place hname
  · intro place c hc hrep
    obtain ⟨c₀, hc₀, rfl⟩ : ∃ c₀, m.cells[place]? = some c₀ ∧ c₀.clear = c := by
      simpa [Memory.reset] using hc
    exact (h.listed place c₀ hc₀ hrep).clear

end Memory.Lists

namespace Registry

variable {r : Registry} {hs : List Happening}

lemma changed_lists {marks : Marks} {values : Nat → List Text} {result : Except Fault Memory}
    (h : r.memory.Lists marks values) (hresult : ∀ m, result = .ok m → m.Lists marks values) :
    (r.changed result).registry.memory.Lists marks values := by
  cases result with
  | ok m => exact hresult m rfl
  | error fault => exact h

lemma quiet_lists {operation : Operation} {marks : Marks} (hquiet : r.happenedIn operation = [])
    (h : (r.perform operation).registry.memory.Lists marks (storedSince · hs)) :
    (r.perform operation).registry.memory.Lists marks
      (storedSince · (hs ++ r.happenedIn operation)) := by
  rw [hquiet, List.append_nil]
  exact h

/-- What happens in an operation is what the lists of values go by. -/
lemma perform_lists (h : r.memory.Lists r.settings.marks (storedSince · hs))
    (operation : Operation) : (r.perform operation).registry.memory.Lists r.settings.marks
      (storedSince · (hs ++ r.happenedIn operation)) := by
  have hquiet (result : Except Fault Memory) :
      (r.changed result).outcome.events.map Happening.event = [] :=
    congrArg (List.map Happening.event) (r.changed_events result)
  have hdefine (name : Text) {cell : Cell}
      (hcell : cell.repeatable = true → cell.Lists r.settings.marks []) :
      (r.changed (r.memory.define name cell)).registry.memory.Lists r.settings.marks
        (storedSince · hs) :=
    changed_lists h fun m hm => h.define hcell hm
  cases operation with
  | useMarks marks => exact quiet_lists rfl h
  | limitDepth depth => exact quiet_lists rfl h
  | useIncluder includer => exact quiet_lists rfl h
  | useSink sink => exact quiet_lists rfl h
  | keepHistory => exact quiet_lists rfl ⟨h.named, h.unused, h.listed⟩
  | define name =>
    exact quiet_lists (hquiet _) (hdefine name (by simp [Cell.mandatory]))
  | defineWithDefault name default =>
    exact quiet_lists (hquiet _) (hdefine name (by simp [Cell.withDefault]))
  | defineRepeatable name => exact quiet_lists (hquiet _) (hdefine name fun _ => ⟨rfl, rfl⟩)
  | defineFlag name =>
    exact quiet_lists (hquiet _) (hdefine name (by simp [Cell.flag, Cell.withDefault]))
  | addAlias existing name =>
    exact quiet_lists (hquiet _) (changed_lists h fun m hm => h.addAlias hm)
  | reset =>
    simp only [happenedIn, storedSince_append_single]
    exact h.reset
  | parse text => exact h.run (r.parse_runs text)

lemma performAll_lists {operations : List Operation}
    (hmarks : ∀ marks, .useMarks marks ∈ operations → marks = r.settings.marks)
    (h : r.memory.Lists r.settings.marks (storedSince · hs)) :
    (r.performAll operations).settings.marks = r.settings.marks ∧
      (r.performAll operations).memory.Lists r.settings.marks
        (storedSince · (hs ++ r.happenings operations)) := by
  induction operations generalizing r hs with
  | nil =>
    rw [happenings, List.append_nil]
    exact ⟨rfl, h⟩
  | cons operation operations ih =>
    have hkept : (r.perform operation).registry.settings.marks = r.settings.marks :=
      perform_marks fun marks hmark => hmarks marks (by simp [hmark])
    have hfirst := r.perform_lists h operation
    rw [← hkept] at hfirst
    have hrest := ih (fun marks hmark => hkept ▸ hmarks marks (List.mem_cons_of_mem _ hmark)) hfirst
    rw [hkept, List.append_assoc] at hrest
    exact hrest

/-- Whatever is performed under the same marks, the elements of a repeatable parameter are the
values stored to its cell, under any of its names, since that was last cleared. -/
theorem rawElements_eq_storedSince {settings : Settings} {operations : List Operation}
    {name : Text} {v : View}
    (hmarks : ∀ marks, .useMarks marks ∈ operations → marks = settings.marks)
    (hview : (performAll ⟨settings, .empty⟩ operations).view name = .ok v)
    (hrep : v.cell.repeatable = true) :
    ∃ place, (performAll ⟨settings, .empty⟩ operations).memory.names.find? name = some place ∧
      v.rawElements = .ok (storedSince place (happenings ⟨settings, .empty⟩ operations)) := by
  have hempty : Memory.empty.Lists settings.marks (storedSince · []) := .empty _
  obtain ⟨hkept, hlists⟩ := performAll_lists (r := ⟨settings, .empty⟩) hmarks hempty
  simp only [view, Memory.cell?] at hview
  cases hplace : (performAll ⟨settings, .empty⟩ operations).memory.names.find? name with
  | none => simp [hplace] at hview
  | some place =>
    refine ⟨place, rfl, ?_⟩
    cases hcell : (performAll ⟨settings, .empty⟩ operations).memory.cells[place]? with
    | none => simp [hplace, hcell] at hview
    | some c =>
      simp only [hplace, hcell, Option.bind_some, Except.ok.injEq] at hview
      subst hview
      rw [hkept]
      exact (hlists.listed place c hcell hrep).rawElements_eq name

/-- Values under the empty name and under an alias of it, some of them before a reset, in a parse
that fails at its end. -/
theorem rawElements_eq_storedSince_alias :
    let r : Registry := ⟨.standard, .empty⟩
    let operations : List Operation := [.defineRepeatable [], .addAlias [] ['l'],
      .parse ['x', ' ', 'r', 'e', 's', 'e', 't', '=', 'l', ' ', 'l', '=', '[', ']', '[', '\\', ']',
        ']', 'y', '=', 'z']]
    let v : View := ⟨['l'], ⟨some ['[', ']', ' ', '[', '\\', ']', ']'], some [], true⟩, .standard⟩
    (r.performAll operations).view ['l'] = .ok v ∧
      ∃ place, (r.performAll operations).memory.names.find? ['l'] = some place ∧
        v.rawElements = .ok (storedSince place (r.happenings operations)) := by
  intro r operations v
  have hmarks : ∀ marks, Operation.useMarks marks ∈ operations → marks = r.settings.marks := by
    simp [operations]
  have hview : (r.performAll operations).view ['l'] = .ok v := by cbv
  exact ⟨hview, rawElements_eq_storedSince hmarks hview rfl⟩

end Registry

end ParamLang
