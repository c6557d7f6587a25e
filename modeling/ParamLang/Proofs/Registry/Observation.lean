import ParamLang.Proofs.Registry.Depth
import ParamLang.Proofs.Registry.Limit
import ParamLang.Proofs.Plain

/-! Observation. Dumps may be inserted anywhere among entries, whatever they ask for: they add their
own lines, and nothing else comes out differently. -/
namespace ParamLang

/-- An entry that is given, or a dump that is inserted among those given. -/
inductive Watched
  | given (e : Entry)
  | inserted (operand : Text)

namespace Watched

def given? : Watched → Option Entry
  | .given e => some e
  | .inserted _ => none

def entry : Watched → Entry
  | .given e => e
  | .inserted operand => .pair Directive.dump.name operand

/-- All elements in order, each with what stands before it. -/
def places (ws : List Watched) : List (List Watched × Watched) := ws.inits.zip ws

lemma places_cons (w : Watched) (ws : List Watched) :
    places (w :: ws) = ([], w) :: (places ws).map (Prod.map (w :: ·) id) := by
  simp [places, List.zip_map_left]

lemma places_concat (ws : List Watched) (w : Watched) :
    places (ws ++ [w]) = places ws ++ [(ws, w)] := by
  induction ws with
  | nil => rfl
  | cons first ws ih => simp [places_cons, ih]

end Watched

namespace Outcome

lemma each_concat {α : Type} (act : α → Memory → Outcome) (as : List α) (a : α) (m : Memory) :
    each act (as ++ [a]) m = (each act as m).andThen (act a) := by
  have hlast : each act [a] = act a := funext fun m => andThen_unchanged (act a m)
  rw [each_append, hlast]

lemma dumped_andThen (o : Outcome) (next : Memory → Outcome) :
    (o.andThen next).dumped = o.dumped ++
      match o.fault with
      | some _ => []
      | none => (next o.memory).dumped := by
  cases h : o.fault <;> simp [dumped, andThen, h]

end Outcome

namespace Interpret

open Outcome

section

variable (s : Settings) (depth : Nat) (chain : List Text) (m : Memory) (ws : List Watched)

/-- The outcome of the given entries alone. -/
def unwatched : Outcome := each (entryAt s depth chain) (ws.filterMap Watched.given?) m

/-- The outcome of the given entries and the inserted dumps. -/
def watched : Outcome := each (entryAt s depth chain) (ws.map Watched.entry) m

/-- The lines of an element behind others: what it dumps where the given entries before it lead, and
nothing if they end in a fault. -/
def linesAfter (place : List Watched × Watched) : List (Text × Text) :=
  let reached := unwatched s depth chain m place.1
  match reached.fault with
  | some _ => []
  | none =>
    match place.2 with
    | .given e => (entryAt s depth chain e reached.memory).dumped
    | .inserted operand => Dump.lines s reached.memory operand

end

variable {s : Settings} {depth : Nat} {chain : List Text} {m : Memory}

lemma entryAt_dump (operand : Text) (m : Memory) :
    entryAt s depth chain (.pair Directive.dump.name operand) m = dump s operand m := by
  rw [entryAt, entry, pair_of_hasRole (hasRole_directive s m .dump)]
  rfl

lemma dumped_dump (operand : Text) (m : Memory) :
    (dump s operand m).dumped = Dump.lines s m operand := by
  simp [dump, noted, dumped, List.filterMap_map]

lemma dump_sameButDumps (operand : Text) (m : Memory) :
    (unchanged m).SameButDumps (dump s operand m) := ⟨rfl, rfl, dump_undumped s operand m⟩

lemma watched_concat (ws : List Watched) (w : Watched) :
    watched s depth chain m (ws ++ [w]) =
      (watched s depth chain m ws).andThen (entryAt s depth chain w.entry) := by
  rw [watched, List.map_append, List.map_singleton, each_concat, watched]

lemma unwatched_concat_given (ws : List Watched) (e : Entry) :
    unwatched s depth chain m (ws ++ [.given e]) =
      (unwatched s depth chain m ws).andThen (entryAt s depth chain e) := by
  simp only [unwatched, List.filterMap_append]
  exact each_concat _ _ e m

lemma unwatched_concat_inserted (ws : List Watched) (operand : Text) :
    unwatched s depth chain m (ws ++ [.inserted operand]) = unwatched s depth chain m ws := by
  have hgiven : [Watched.inserted operand].filterMap Watched.given? = [] := rfl
  rw [unwatched, List.filterMap_append, hgiven, List.append_nil, unwatched]

/-- Inserted dumps only observe. -/
lemma watched_sameButDumps (ws : List Watched) :
    (unwatched s depth chain m ws).SameButDumps (watched s depth chain m ws) := by
  induction ws using List.reverseRecOn with
  | nil => exact ⟨rfl, rfl, rfl⟩
  | append_singleton ws w ih =>
    rw [watched_concat]
    cases w with
    | given e =>
      rw [unwatched_concat_given]
      exact ih.andThen ⟨rfl, rfl, rfl⟩
    | inserted operand =>
      -- beside the dump, the given entries alone do nothing
      rw [unwatched_concat_inserted, ← andThen_unchanged (unwatched s depth chain m ws)]
      refine ih.andThen ?_
      rw [Watched.entry, entryAt_dump]
      exact dump_sameButDumps operand _

/-- An element adds the lines it has in its place. -/
lemma dumped_watched_concat (ws : List Watched) (w : Watched) :
    (watched s depth chain m (ws ++ [w])).dumped =
      (watched s depth chain m ws).dumped ++ linesAfter s depth chain m (ws, w) := by
  have hsame : (unwatched s depth chain m ws).SameButDumps (watched s depth chain m ws) :=
    watched_sameButDumps ws
  rw [watched_concat, dumped_andThen, hsame.fault, hsame.memory, linesAfter]
  cases w with
  | given e => rfl
  | inserted operand => simp only [Watched.entry, entryAt_dump, dumped_dump]

lemma dumped_unwatched_concat (ws : List Watched) (e : Entry) :
    (unwatched s depth chain m (ws ++ [.given e])).dumped =
      (unwatched s depth chain m ws).dumped ++ linesAfter s depth chain m (ws, .given e) := by
  rw [unwatched_concat_given, dumped_andThen]
  rfl

end Interpret

open Interpret in
/-- A dump only observes. Dumps inserted among entries, at any depth and whatever they ask for,
change neither the end nor anything that happens besides dumps. The lines are those of all elements
in order, of which the given entries have theirs without the dumps too, and each dump that is reached
shows what the given entries before it have left. -/
theorem Registry.dump_observes (r : Registry) (depth : Nat) (chain : List Text)
    (ws : List Watched) :
    let without := unwatched r.settings depth chain r.memory ws
    let between := watched r.settings depth chain r.memory ws
    let lines := linesAfter r.settings depth chain r.memory
    without.SameButDumps between ∧
      between.dumped = (Watched.places ws).flatMap lines ∧
      without.dumped = ((Watched.places ws).filter (·.2.given?.isSome)).flatMap lines := by
  refine ⟨watched_sameButDumps ws, ?_, ?_⟩
  · induction ws using List.reverseRecOn with
    | nil => rfl
    | append_singleton ws w ih =>
      rw [dumped_watched_concat, ih, Watched.places_concat, List.flatMap_append,
        List.flatMap_singleton]
  · induction ws using List.reverseRecOn with
    | nil => rfl
    | append_singleton ws w ih =>
      rw [Watched.places_concat, List.filter_append, List.flatMap_append, ← ih]
      cases w with
      | given e =>
        rw [dumped_unwatched_concat]
        simp [Watched.given?]
      | inserted operand =>
        rw [unwatched_concat_inserted]
        simp [Watched.given?]

end ParamLang
