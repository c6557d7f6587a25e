import ParamLang.Proofs.Registry.Assignment
import ParamLang.Proofs.Registry.Copy
import ParamLang.Proofs.Resolution.Settled

/-! Replays of a log. What it says, written down and parsed where no variable is bound, is assigned
as it stands, so a copy without values gets those of the original. -/
namespace ParamLang

/-- Without bindings, every text resolves to itself. -/
lemma Settings.resolve_of_unbound {s : Settings} {m : Memory} (h : m.bindings = ∅) (text : Text) :
    s.resolve m text = .ok ⟨text, false⟩ := by
  refine Resolver.resolve_eq_ok_iff.mpr (Resolver.uncheckedAt_of_not_hasWork ?_ _)
  apply List.any_eq_false.mpr
  rintro (t | ⟨form, name⟩) -
  · simp [Resolver.replaces]
  · simp [Resolver.replaces, Settings.resolver, h, Table.contains]

namespace Interpret

open Outcome

variable {s : Settings} {deeper : Option Deeper} {chain : List Text} {m : Memory} {log : List Entry}

lemma assignment?_of_unbound {name : Text} {place : Nat} (hbindings : m.bindings = ∅)
    (hrole : Role.ofName s.marks name = .assignment name) (hplace : m.names.find? name = some place)
    (value : Text) : assignment? s m (.pair name value) = some ⟨place, name, value⟩ :=
  assignment?_eq_some_iff.mpr ⟨⟨_, s.resolve_of_unbound hbindings name, hrole⟩, hplace, _,
    s.resolve_of_unbound hbindings value, rfl⟩

/-- Entries that are assigned as they stand give every cell what a log of them says. -/
lemma valuesAt_eq_loggedAt (hlog : ∀ e ∈ log, ∃ name value place, e = .pair name value ∧
      m.names.find? name = some place ∧ assignment? s m e = some ⟨place, name, value⟩)
    (place : Nat) : Assignment.valuesAt place (log.filterMap (assignment? s m)) =
      loggedAt m.names place log := by
  induction log with
  | nil => rfl
  | cons e log ih =>
    obtain ⟨name, value, p, rfl, hp, hassigned⟩ := hlog e (by simp)
    rw [List.filterMap_cons_some hassigned, Assignment.valuesAt_cons,
      ih fun e he => hlog e (List.mem_cons_of_mem _ he), ← loggedAt_single hp, ← loggedAt_append,
      List.singleton_append]

/-- Without bindings, assignments to known parameters do what they say, one after the other. -/
lemma each_assignment (hbindings : m.bindings = ∅) (hlog : ∀ e ∈ log, ∃ name value place,
      e = .pair name value ∧ m.names.find? name = some place ∧
        Role.ofName s.marks name = .assignment name) :
    (each (entry s deeper chain) log m).fault = none ∧
      (each (entry s deeper chain) log m).memory.names = m.names ∧
        ∀ place : Nat, (each (entry s deeper chain) log m).memory.cells[place]? =
          (m.cells[place]?).map (Cell.assignAll s.marks (loggedAt m.names place log)) := by
  have hassigned : ∀ e ∈ log, ∃ name value place, e = .pair name value ∧
      m.names.find? name = some place ∧ assignment? s m e = some ⟨place, name, value⟩ := by
    intro e he
    obtain ⟨name, value, place, rfl, hplace, hrole⟩ := hlog e he
    exact ⟨name, value, place, rfl, hplace, assignment?_of_unbound hbindings hrole hplace value⟩
  have hes : ∀ e ∈ log, (assignment? s m e).isSome = true := by
    intro e he
    obtain ⟨_, _, _, -, -, ha⟩ := hassigned e he
    rw [ha, Option.isSome_some]
  rw [each_assignments hes]
  refine ⟨rfl, Memory.storeAll_names _ _, fun place => ?_⟩
  exact (Memory.storeAll_cells _ _ _).trans (by rw [valuesAt_eq_loggedAt hassigned])

end Interpret

lemma Role.ofName_of_isDefined {r : Registry} {name : Text} {place : Nat} (hsound : r.memory.Sound)
    (hname : r.settings.marks.variableOf? name = none)
    (hplace : r.memory.names.find? name = some place) :
    ofName r.settings.marks name = .assignment name := by
  cases hd : Directive.find? name with
  | none => simp only [ofName, hname, hd]
  | some d =>
    obtain rfl := (Directive.find?_eq_some_iff name d).mp hd
    simp [hsound.unreserved d] at hplace

namespace Registry

namespace FreshCopy

variable {r fresh : Registry} {log : List Entry} {name : Text} {place : Nat}

lemma loggedAt_eq {place' : Nat} (h : r.FreshCopy fresh)
    (hplace : r.memory.names.find? name = some place)
    (hplace' : fresh.memory.names.find? name = some place') (log : List Entry) :
    loggedAt fresh.memory.names place' log = loggedAt r.memory.names place log := by
  apply loggedAt_congr
  intro other value _
  rw [← hplace, ← hplace']
  exact h.shared other name

/-- A log that accounts for all values gives them to a copy without values. -/
lemma parse_log (h : r.FreshCopy fresh) (hsound : r.memory.Sound)
    (haccounts : r.memory.Accounts r.settings.marks log)
    (hnames : ∀ name, r.isDefined name = true → r.settings.marks.variableOf? name = none) :
    (fresh.parse (quotedEntries r.settings.marks log)).fault = none ∧
      ∀ name, (fresh.parse (quotedEntries r.settings.marks log)).memory.cell? name =
        r.memory.cell? name := by
  have hlog : ∀ e ∈ log, ∃ name value place, e = .pair name value ∧
      fresh.memory.names.find? name = some place ∧
        Role.ofName fresh.settings.marks name = .assignment name := by
    intro e he
    obtain ⟨name, value, place, rfl, hplace⟩ := haccounts.named e he
    obtain ⟨place', c, -, hplace', -⟩ := h.exists_place hsound hplace
    have hvariable := hnames name (by simp [isDefined, Table.contains, hplace])
    exact ⟨name, value, place', rfl, hplace',
      h.marks ▸ Role.ofName_of_isDefined hsound hvariable hplace⟩
  have hscan : scan fresh.settings.marks (quotedEntries r.settings.marks log) = .ok log := by
    rw [h.marks]
    exact scan_quotedEntries _ _
  rw [parse_of_scan hscan, Interpret.entries_eq_each]
  obtain ⟨hfault, hkept, hcells⟩ := Interpret.each_assignment h.unbound hlog
  refine ⟨hfault, fun name => ?_⟩
  simp only [Memory.cell?, hkept, hcells]
  cases hplace : r.memory.names.find? name with
  | none =>
    have hnone := h.cells name
    simp only [Memory.cell?, hplace, Option.bind_none, Option.map_none] at hnone
    cases hplace' : fresh.memory.names.find? name with
    | none => rfl
    | some place' =>
      rw [hplace', Option.bind_some] at hnone
      simp [hnone]
  | some place =>
    obtain ⟨place', c, hc, hplace', hc'⟩ := h.exists_place hsound hplace
    simp only [hplace', Option.bind_some, hc', hc, Option.map_some, h.marks,
      h.loggedAt_eq hplace hplace']
    exact congrArg some (haccounts.cells place c hc).symm

end FreshCopy

/-- The log is a complete account. As long as nothing that was assigned is forgotten, what has been
logged from the start, written down and parsed by a registry with the same parameters and without
values and variables, is parsed to its end and gives every parameter the text it has. The
definitions and aliases alone make such a registry. -/
theorem history_replays {settings : Settings} {operations : List Operation}
    (hmarks : ∀ marks, .useMarks marks ∈ operations → marks = settings.marks)
    (honce : .keepHistory ∉ operations)
    (hkept : ∀ h ∈ happenings ⟨settings, .empty⟩ (.keepHistory :: operations), ¬h.clears)
    (hnames : ∀ name, (performAll ⟨settings, .empty⟩ (.keepHistory :: operations)).isDefined name →
      settings.marks.variableOf? name = none) :
    let r := performAll ⟨settings, .empty⟩ (.keepHistory :: operations)
    r.FreshCopy (performAll ⟨settings, .empty⟩ (operations.filter Operation.isNaming)) ∧
      ∀ fresh, r.FreshCopy fresh →
        let replayed := fresh.parse (quotedEntries settings.marks r.history)
        replayed.fault = none ∧ ∀ name,
          (replayed.memory.cell? name).map Cell.raw = (r.memory.cell? name).map Cell.raw := by
  intro r
  let start : Registry := ⟨settings, { Memory.empty with history := some [] }⟩
  have hclear : start.ClearCopy ⟨settings, .empty⟩ := ⟨rfl, rfl, rfl, rfl⟩
  refine ⟨(hclear.performAll hmarks).freshCopy, fun fresh hfresh => ?_⟩
  have hstart : start.memory.Accounts start.settings.marks [] :=
    ⟨rfl, by simp, by simp [start, Memory.empty]⟩
  have hsound : start.memory.Sound := ⟨Memory.Sound.empty.placed, Memory.Sound.empty.named,
    Memory.Sound.empty.unreserved, Memory.Sound.empty.nonempty⟩
  have hdefined : start.memory.DefinedBy [] := ⟨rfl, fun _ _ hd => nomatch hd⟩
  obtain ⟨hsame, log, hlog⟩ :=
    performAll_accounts (r := start) hmarks honce hkept hstart hsound hdefined
  have hsame : r.settings.marks = settings.marks := hsame
  have hlog : r.memory.Accounts r.settings.marks log := hsame ▸ hlog
  have hgrown : r.memory.Sound := (performAll_grows hsound hdefined operations).sound
  have hhistory : r.history = log := by simp [history, hlog.history]
  obtain ⟨hfault, hcells⟩ := hfresh.parse_log hgrown hlog (hsame ▸ hnames)
  rw [hsame, ← hhistory] at hfault hcells
  exact ⟨hfault, fun name => congrArg (Option.map Cell.raw) (hcells name)⟩

/-- Values by way of a variable, an alias and a flag, in a parse that fails at its end. -/
theorem history_replays_failing :
    let operations : List Operation := [.define ['x'], .defineRepeatable ['l'],
      .addAlias ['l'] ['m'], .defineFlag ['v'], .parse ['$', 'a', '=', '1', ' ', 'x', '=', '$', '$',
        'a', ' ', 'l', '=', '[', ' ', ']', ' ', 'v', ' ', 'm', '=', 'c', ' ', 'y', '=', '1']]
    let r := performAll ⟨.standard, .empty⟩ (.keepHistory :: operations)
    let fresh := performAll ⟨.standard, .empty⟩ (operations.take 4)
    let log : Text := ['[', 'x', ']', '=', '[', '1', ']', ' ', '[', 'l', ']', '=', '[', ' ', ']',
      ' ', '[', 'v', ']', '=', '[', 't', 'r', 'u', 'e', ']', ' ', '[', 'm', ']', '=', '[', 'c', ']']
    quotedEntries .standard r.history = log ∧ (fresh.parse log).fault = none ∧
      ∀ name, ((fresh.parse log).memory.cell? name).map Cell.raw =
        (r.memory.cell? name).map Cell.raw := by
  intro operations r fresh log
  have hnames : r.memory.names.rows = [(['x'], 0), (['l'], 1), (['m'], 1), (['v'], 2)] := by cbv
  have hunmarked (name : Text) (hname : r.isDefined name) :
      Settings.standard.marks.variableOf? name = none := by
    refine Option.eq_none_iff_forall_ne_some.mpr fun v hv => ?_
    obtain rfl := Marks.variableOf?_eq_some_iff.mp hv
    have hnone : r.memory.names.find? ('$' :: v) = none := by
      rw [Table.find?, hnames]
      rfl
    exact absurd (hnone ▸ hname : (none : Option Nat).isSome) Bool.false_ne_true
  have hhappened : happenings ⟨.standard, .empty⟩ (.keepHistory :: operations) =
      [.event (.bound ['a'] ['1']), .event (.stored 0 ['x'] ['1']), .event (.stored 1 ['l'] [' ']),
        .event (.stored 2 ['v'] ['t', 'r', 'u', 'e']), .event (.stored 1 ['m'] ['c'])] := by cbv
  have hlog : quotedEntries .standard r.history = log := by cbv
  have hkept : ∀ h ∈ happenings ⟨.standard, .empty⟩ (.keepHistory :: operations), ¬h.clears := by
    simp [hhappened, Happening.clears]
  obtain ⟨hcopy, hreplays⟩ := history_replays (by simp [operations]) (by simp [operations]) hkept
    hunmarked
  exact ⟨hlog, hlog ▸ hreplays fresh hcopy⟩

end Registry

end ParamLang
