import ParamLang.Proofs.Concatenation
import ParamLang.Proofs.Registry.Structure

/-! The log as an account of the values. Every assignment is logged with the name and the value that
it comes to, so the log says what is in each cell, for as long as nothing is cleared. -/
namespace ParamLang

/-- An entry with its parts quoted. -/
def Entry.quoted (m : Marks) : Entry → Text
  | .value v => m.quote v
  | .pair name v => m.quote name ++ m.separator :: m.quote v

/-- A fragment of quoted entries with a space between them. -/
def quotedEntries (m : Marks) (es : List Entry) : Text :=
  [' '].intercalate (es.map (Entry.quoted m))

namespace Layout

variable {m : Marks} {afterBare : Bool} {tokens : List Token} {text : Text}

lemma space (h : Layout m afterBare tokens text) : Layout m afterBare tokens (' ' :: text) := by
  have hspace {gap : Text} (hgap : gap.IsGap) : Text.IsGap (' ' :: gap) :=
    List.forall_mem_cons.mpr ⟨Text.isBlank_space, hgap⟩
  cases h with
  | blank hgap => exact .blank (hspace hgap)
  | separator hgap tail => exact .separator (hspace hgap) tail
  | bracketed t hgap tail => exact .bracketed t (hspace hgap) tail
  | bare t ht hgap apart tail => exact .bare t ht (hspace hgap) (fun _ => by simp) tail

lemma quoted (e : Entry) (h : Layout m false tokens text) :
    Layout m false (e.tokens ++ tokens) (e.quoted m ++ text) := by
  cases e with
  | value v => exact .bracketed v Text.isGap_nil h
  | pair name v =>
    have hpair : Layout m false (.literal name :: .separator :: .literal v :: tokens)
        ([] ++ (m.quote name ++ ([] ++ m.separator :: ([] ++ (m.quote v ++ text))))) :=
      .bracketed name Text.isGap_nil (.separator Text.isGap_nil (.bracketed v Text.isGap_nil h))
    simpa [Entry.quoted, Entry.tokens] using hpair

lemma quotedEntries (m : Marks) (es : List Entry) :
    Layout m false (es.flatMap Entry.tokens) (quotedEntries m es) := by
  induction es with
  | nil => exact .blank Text.isGap_nil
  | cons e es ih =>
    cases es with
    | nil => simpa [ParamLang.quotedEntries] using quoted e (.blank Text.isGap_nil)
    | cons e' es => simpa [ParamLang.quotedEntries] using quoted e ih.space

end Layout

lemma scan_quotedEntries (m : Marks) (es : List Entry) : scan m (quotedEntries m es) = .ok es :=
  scan_eq_ok_iff.mpr ((Layout.quotedEntries m es).run_gives 0)

/-- The values that a log gives to the cell at a place, under any of its names. -/
def loggedAt (names : Table Nat) (place : Nat) (log : List Entry) : List Text :=
  log.filterMap fun
    | .value _ => none
    | .pair name value => if names.find? name = some place then some value else none

lemma loggedAt_congr {names names' : Table Nat} {place place' : Nat} {log : List Entry}
    (h : ∀ name value, .pair name value ∈ log →
      (names.find? name = some place ↔ names'.find? name = some place')) :
    loggedAt names place log = loggedAt names' place' log := by
  apply List.filterMap_congr
  rintro (v | ⟨name, value⟩) he
  · rfl
  · simp only [h name value he]

lemma loggedAt_append (names : Table Nat) (place : Nat) (log log' : List Entry) :
    loggedAt names place (log ++ log') = loggedAt names place log ++ loggedAt names place log' :=
  List.filterMap_append

lemma loggedAt_single {names : Table Nat} {name : Text} {p : Nat} (h : names.find? name = some p)
    (place : Nat) (value : Text) :
    loggedAt names place [.pair name value] = if p = place then [value] else [] := by
  by_cases hp : p = place <;> simp [loggedAt, h, hp]

namespace Cell

def assignAll (m : Marks) (values : List Text) (c : Cell) : Cell :=
  values.foldl (fun c value => c.assign m value) c

@[simp] lemma assignAll_nil (m : Marks) (c : Cell) : c.assignAll m [] = c := rfl

lemma assignAll_cons (m : Marks) (value : Text) (values : List Text) (c : Cell) :
    c.assignAll m (value :: values) = (c.assign m value).assignAll m values := rfl

lemma assignAll_append (m : Marks) (values values' : List Text) (c : Cell) :
    c.assignAll m (values ++ values') = (c.assignAll m values).assignAll m values' :=
  List.foldl_append

end Cell

namespace Memory

/-- The names of all logged assignments are known, and what the log says of a cell is what has
happened to it since it was clear. -/
structure Accounts (marks : Marks) (log : List Entry) (m : Memory) : Prop where
  history : m.history = some log
  named : ∀ e ∈ log, ∃ name value place, e = .pair name value ∧ m.names.find? name = some place
  cells : ∀ (place : Nat) (c : Cell), m.cells[place]? = some c →
    c = c.clear.assignAll marks (loggedAt m.names place log)

namespace Accounts

variable {marks : Marks} {log : List Entry} {m m' : Memory} {name value : Text} {cell : Cell}

lemma store {place : Nat} (h : m.Accounts marks log) (hplace : m.names.find? name = some place) :
    (m.store marks place name value).Accounts marks (log ++ [.pair name value]) where
  history := by simp [Memory.store, h.history]
  named e he := by
    obtain he | he := List.mem_append.mp he
    · exact h.named e he
    · exact ⟨name, value, place, List.mem_singleton.mp he, hplace⟩
  cells p c hc := by
    simp only [Memory.store, List.getElem?_modify] at hc ⊢
    rw [loggedAt_append, loggedAt_single hplace, Cell.assignAll_append]
    by_cases hp : place = p
    · obtain ⟨c₀, hc₀, rfl⟩ : ∃ c₀, m.cells[p]? = some c₀ ∧ c₀.assign marks value = c := by
        simpa [hp] using hc
      rw [if_pos hp]
      exact congrArg (Cell.assign marks value) (h.cells p c₀ hc₀)
    · simpa [hp] using h.cells p c (by simpa [hp] using hc)

/-- Names that are added change nothing for those in the log. -/
lemma loggedAt_eq (h : m.Accounts marks log) (hm : m.ExtendedBy m') (place : Nat) :
    loggedAt m'.names place log = loggedAt m.names place log := by
  apply loggedAt_congr
  intro name value he
  obtain ⟨_, _, p, ⟨⟩, hp⟩ := h.named _ he
  rw [hm.names name p hp, hp]

lemma named_of_extendedBy (h : m.Accounts marks log) (hm : m.ExtendedBy m') :
    ∀ e ∈ log, ∃ name value place, e = .pair name value ∧ m'.names.find? name = some place := by
  intro e he
  obtain ⟨name, value, place, rfl, hplace⟩ := h.named e he
  exact ⟨name, value, place, rfl, hm.names name place hplace⟩

lemma define (h : m.Accounts marks log) (hsound : m.Sound) (hcell : cell.raw = none)
    (hm : m.define name cell = .ok m') : m'.Accounts marks log := by
  have hextended := define_extendedBy hm
  refine ⟨?_, h.named_of_extendedBy hextended, ?_⟩
  · rw [(define_eq_ok_iff.mp hm).2]
    exact h.history
  · intro place c hc
    rw [h.loggedAt_eq hextended]
    rw [(define_eq_ok_iff.mp hm).2] at hc
    by_cases hplace : place < m.cells.length
    · exact h.cells place c (by simpa [List.getElem?_append_left hplace] using hc)
    · -- No name in the log has the new place.
      have hnone : loggedAt m.names place log = [] := by
        apply List.filterMap_eq_nil_iff.mpr
        intro e he
        obtain ⟨n, v, p, rfl, hp⟩ := h.named e he
        have hne : p ≠ place := fun heq => hplace (heq ▸ hsound.placed n p hp)
        simp [hp, hne]
      obtain rfl : cell = c := by grind
      rw [hnone]
      cases cell
      exact congrArg (Cell.mk · _ _) hcell

lemma addAlias {existing : Text} (h : m.Accounts marks log)
    (hm : m.addAlias existing name = .ok m') : m'.Accounts marks log := by
  have hextended := addAlias_extendedBy hm
  refine ⟨?_, h.named_of_extendedBy hextended, ?_⟩
  · obtain ⟨place, -, -, rfl⟩ := addAlias_eq_ok_iff.mp hm
    exact h.history
  · intro place c hc
    rw [h.loggedAt_eq hextended]
    obtain ⟨place, -, -, rfl⟩ := addAlias_eq_ok_iff.mp hm
    exact h.cells _ c hc

end Accounts

end Memory

/-- Whether values that have been assigned are forgotten. -/
def Happening.clears : Happening → Prop
  | .event (.cleared _) => True
  | .event _ => False
  | .reset => True

section Runs

variable {s : Settings} {m m' : Memory} {log : List Entry}

lemma Event.Acts.accounts {e : Event} (h : e.Acts s m m') (hm : m.Accounts s.marks log)
    (hkept : ¬(Happening.event e).clears) : ∃ log', m'.Accounts s.marks log' := by
  cases h with
  | stored value hplace => exact ⟨_, hm.store hplace⟩
  | cleared hplace => exact absurd trivial hkept
  | _ => exact ⟨log, hm.history, hm.named, hm.cells⟩

lemma Run.accounts {events : List Event} (h : Run s m events m') (hm : m.Accounts s.marks log)
    (hkept : ∀ e ∈ events, ¬(Happening.event e).clears) : ∃ log', m'.Accounts s.marks log' := by
  induction h generalizing log with
  | nil m => exact ⟨log, hm⟩
  | cons first rest ih =>
    obtain ⟨log', hlog'⟩ := first.accounts hm (hkept _ (by simp))
    exact ih hlog' fun e he => hkept e (by simp [he])

end Runs

namespace Registry

variable {r : Registry} {log : List Entry} {operation : Operation}

lemma changed_accounts {marks : Marks} {result : Except Fault Memory}
    (h : r.memory.Accounts marks log) (hresult : ∀ m, result = .ok m → m.Accounts marks log) :
    ∃ log', (r.changed result).registry.memory.Accounts marks log' := by
  cases result with
  | error fault => exact ⟨log, h⟩
  | ok m => exact ⟨log, hresult m rfl⟩

/-- The log stays a full account whatever is performed, unless something is forgotten. -/
lemma perform_accounts (h : r.memory.Accounts r.settings.marks log) (hsound : r.memory.Sound)
    (honce : operation ≠ .keepHistory) (hkept : ∀ h ∈ r.happenedIn operation, ¬h.clears) :
    ∃ log', (r.perform operation).registry.memory.Accounts r.settings.marks log' := by
  have hdefine {name : Text} {cell : Cell} (hcell : cell.raw = none) :
      ∃ log', (r.changed (r.memory.define name cell)).registry.memory.Accounts
        r.settings.marks log' :=
    changed_accounts h fun m hm => h.define hsound hcell hm
  cases operation with
  | useMarks | limitDepth | useIncluder | useSink => exact ⟨log, h⟩
  | keepHistory => exact absurd rfl honce
  | define name => exact hdefine rfl
  | defineWithDefault name default => exact hdefine rfl
  | defineRepeatable name => exact hdefine rfl
  | defineFlag name => exact hdefine rfl
  | addAlias existing name => exact changed_accounts h fun m hm => h.addAlias hm
  | reset => exact absurd trivial (hkept .reset (by simp [happenedIn]))
  | parse text =>
    refine (r.parse_runs text).accounts h fun e he => hkept (.event e) ?_
    simpa [happenedIn, perform, withOutcome] using he

lemma performAll_accounts {operations : List Operation} {definitions : List (Text × Cell)}
    (hmarks : ∀ marks, .useMarks marks ∈ operations → marks = r.settings.marks)
    (honce : .keepHistory ∉ operations) (hkept : ∀ h ∈ r.happenings operations, ¬h.clears)
    (h : r.memory.Accounts r.settings.marks log) (hsound : r.memory.Sound)
    (hdefined : r.memory.DefinedBy definitions) :
    (r.performAll operations).settings.marks = r.settings.marks ∧
      ∃ log', (r.performAll operations).memory.Accounts r.settings.marks log' := by
  induction operations generalizing r definitions log with
  | nil => exact ⟨rfl, log, h⟩
  | cons operation operations ih =>
    have hsame : (r.perform operation).registry.settings.marks = r.settings.marks :=
      perform_marks fun marks hmark => hmarks marks (by simp [hmark])
    obtain ⟨log', hlog'⟩ := perform_accounts h hsound (fun heq => honce (by simp [heq]))
      fun h hmem => hkept h (List.mem_append_left _ hmem)
    have hgrows := perform_grows hsound hdefined operation
    rw [← hsame] at hlog' ⊢
    exact ih (fun marks hmark => hsame ▸ hmarks marks (List.mem_cons_of_mem _ hmark))
      (fun hmem => honce (List.mem_cons_of_mem _ hmem))
      (fun h hmem => hkept h (List.mem_append_right _ hmem)) hlog' hgrows.sound hgrows.defined

end Registry

end ParamLang
