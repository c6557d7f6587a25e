import ParamLang.Proofs.Registry.Nesting

/-! The moments of an interpretation: each entry that comes up in it, at whatever depth, with the
memory it meets. Entries come up one after the other, and in the place of an entry those that it
brings in. -/
namespace ParamLang

/-- An entry that comes up, under a chain and with a number of levels left below it. -/
structure Moment where
  settings : Settings
  levels : Nat
  chain : List Text
  entry : Entry
  memory : Memory

/-- An element of two lists, given by what is before it, is in the first one or in the second. -/
lemma concat_prefix_append {α : Type} {earlier as bs : List α} {a : α}
    (h : earlier ++ [a] <+: as ++ bs) :
    earlier ++ [a] <+: as ∨ ∃ before, earlier = as ++ before ∧ before ++ [a] <+: bs := by
  obtain hfirst | hlonger := List.prefix_or_prefix_of_prefix h (List.prefix_append as bs)
  · exact .inl hfirst
  · obtain heq | ⟨before, rfl⟩ := List.prefix_concat_iff.mp hlonger
    · exact .inl (heq ▸ List.prefix_refl _)
    · rw [List.append_assoc, List.prefix_append_right_inj] at h
      exact .inr ⟨before, rfl, h⟩

/-- The event is noted, with the earlier ones before it. -/
def Outcome.Notes (o : Outcome) (earlier : List Event) (e : Event) : Prop :=
  earlier ++ [e] <+: o.events

lemma Outcome.Notes.of_andThen {earlier : List Event} {e : Event} {o : Outcome}
    {next : Memory → Outcome} (h : (o.andThen next).Notes earlier e) :
    o.Notes earlier e ∨ o.fault = none ∧
      ∃ before, earlier = o.events ++ before ∧ (next o.memory).Notes before e := by
  cases hfault : o.fault with
  | some fault => exact .inl (by simpa [Notes, andThen, hfault] using h)
  | none =>
    have hevents : earlier ++ [e] <+: o.events ++ (next o.memory).events := by
      simpa [Notes, andThen, hfault] using h
    exact (concat_prefix_append hevents).imp_right fun hnext => ⟨rfl, hnext⟩

lemma Outcome.Notes.mem {earlier : List Event} {e : Event} {o : Outcome} (h : o.Notes earlier e) :
    e ∈ o.events := h.subset (by simp)

lemma Outcome.notes_one {first event : Event} {earlier : List Event} {m : Memory}
    (h : (noted [first] m).Notes earlier event) : earlier = [] ∧ event = first := by
  match earlier with
  | [] => exact ⟨rfl, by simpa [Notes, noted] using h⟩
  | a :: rest => simp [Notes, noted] at h

lemma Outcome.notes_two {first second event : Event} {earlier : List Event} {m : Memory}
    (h : (noted [first, second] m).Notes earlier event) :
    earlier = [] ∧ event = first ∨ earlier = [first] ∧ event = second := by
  match earlier with
  | [] => exact .inl ⟨rfl, by simpa [Notes, noted] using h⟩
  | [a] => exact .inr (by simpa [Notes, noted] using h)
  | a :: b :: rest => simp [Notes, noted] at h

/-- A part of what is done: it comes after the earlier events, and if it fails, all ends with it. -/
structure Outcome.Contains (o : Outcome) (earlier : List Event) (part : Outcome) : Prop where
  noted : earlier ++ part.events <+: o.events
  failed : ∀ fault, part.fault = some fault → o = ⟨part.memory, earlier ++ part.events, some fault⟩

namespace Outcome

variable {o part : Outcome} {earlier : List Event} {next : Memory → Outcome}

lemma contains_self (o : Outcome) : o.Contains [] o where
  noted := List.prefix_refl _
  failed _ hfault := by rw [List.nil_append, ← hfault]

lemma Contains.andThen (h : o.Contains earlier part) : (o.andThen next).Contains earlier part where
  noted := by
    refine h.noted.trans ?_
    cases hfault : o.fault <;> simp [Outcome.andThen, hfault]
  failed fault hfault := by
    rw [h.failed fault hfault]
    rfl

/-- What comes next is done after all that comes first, if that does not fail. -/
lemma Contains.after (h : (next o.memory).Contains earlier part) (hdone : o.fault = none) :
    (o.andThen next).Contains (o.events ++ earlier) part where
  noted := by
    simp only [Outcome.andThen, hdone, List.append_assoc]
    exact (List.prefix_append_right_inj _).mpr h.noted
  failed fault hfault := by
    simp only [Outcome.andThen, hdone, h.failed fault hfault, List.append_assoc]

/-- What is noted before and after a run stands around its events, the latter if it does not fail. -/
lemma Contains.around {before after : List Event} {m : Memory} {run : Memory → Outcome}
    (h : o.Contains earlier (((Outcome.noted before m).andThen run).andThen
      (Outcome.noted after))) :
    ((run m).fault = none → earlier ++ before ++ (run m).events ++ after <+: o.events) ∧
      ∀ fault, (run m).fault = some fault →
        o = ⟨(run m).memory, earlier ++ before ++ (run m).events, some fault⟩ := by
  constructor
  · intro hdone
    simpa [Outcome.andThen, Outcome.noted, hdone] using h.noted
  · intro fault hfault
    have hfailed := h.failed fault (by simp [Outcome.andThen, Outcome.noted, hfault])
    simpa [Outcome.andThen, Outcome.noted, hfault] using hfailed

end Outcome

/-- Events around the entries of a source, noted by the entry that brings them in. -/
def Event.isInclusion : Event → Bool
  | .requested _ => true
  | .entered _ => true
  | .left => true
  | _ => false

namespace Moment

/-- What the interpretation of the entry does. -/
def outcome (now : Moment) : Outcome :=
  Interpret.entry now.settings (Interpret.deeperAt now.settings now.levels) now.chain now.entry
    now.memory

lemma outcome_runs (now : Moment) : now.outcome.RunsFrom now.settings now.memory :=
  Interpret.entry_runs (Interpret.runsDeeper_deeperAt _ _) _ _ _

end Moment

/-- The moments of an interpretation of entries, each with the events before it. -/
inductive Interpret.Reaches (s : Settings) :
    Nat → List Text → List Entry → Memory → List Event → Moment → Prop
  | here (levels : Nat) (chain : List Text) (e : Entry) (rest : List Entry) (m : Memory) :
      Reaches s levels chain (e :: rest) m [] ⟨s, levels, chain, e, m⟩
  | next {levels : Nat} {chain : List Text} {e : Entry} {rest : List Entry} {m : Memory}
      {first : Outcome} {past : List Event} {now : Moment}
      (hfirst : Moment.outcome ⟨s, levels, chain, e, m⟩ = first) (hdone : first.fault = none)
      (later : Reaches s levels chain rest first.memory past now) :
      Reaches s levels chain (e :: rest) m (first.events ++ past) now
  | inside {levels : Nat} {chain : List Text} {e : Entry} {rest : List Entry} {m : Memory}
      {nested : Nested} {past : List Event} {now : Moment} (hbrings : Brings s chain m e nested)
      (inner : Reaches s levels nested.chain nested.entries m past now) :
      Reaches s (levels + 1) chain (e :: rest) m (nested.before ++ past) now

/-- The moments of the parses among operations in order, each with what happens before it. -/
inductive Registry.Reaches : Registry → List Operation → List Happening → Moment → Prop
  | inside {r : Registry} {text : Text} {es : List Entry} {rest : List Operation}
      {past : List Event} {now : Moment} (hscan : scan r.settings.marks text = .ok es)
      (inner : Interpret.Reaches r.settings r.settings.maxDepth [] es r.memory past now) :
      Reaches r (.parse text :: rest) (past.map .event) now
  | next {r : Registry} {operation : Operation} {rest : List Operation} {past : List Happening}
      {now : Moment} (later : Reaches (r.perform operation).registry rest past now) :
      Reaches r (operation :: rest) (r.happenedIn operation ++ past) now

namespace Interpret

variable {s : Settings} {levels : Nat} {chain : List Text} {es : List Entry} {m : Memory}
  {past : List Event} {now : Moment}

lemma Brings.run_before {e : Entry} {nested : Nested} (h : Brings s chain m e nested) :
    Run s m nested.before m := by
  cases h with
  | expanded hvalue hscan => exact .nil m
  | branch hrole hoperands htest hbranch hscan => exact .nil m
  | spliced hrole hoperand hoperands hroles hincluder hanswer =>
    exact .cons (.requested m _) (.cons (.entered m _) (.nil m))

lemma Reaches.settings_eq (h : Reaches s levels chain es m past now) : now.settings = s := by
  induction h with
  | here => rfl
  | next hfirst hdone later ih => exact ih
  | inside hbrings inner ih => exact ih

/-- The memory at a moment is what the events before it make of the first one. -/
lemma Reaches.run (h : Reaches s levels chain es m past now) : Run s m past now.memory := by
  induction h with
  | here levels chain e rest m => exact .nil m
  | @next levels chain e rest m first past now hfirst hdone later ih =>
    have hrun := Moment.outcome_runs ⟨s, levels, chain, e, m⟩
    rw [hfirst] at hrun
    exact hrun.append ih
  | inside hbrings inner ih => exact hbrings.run_before.append ih

lemma Brings.chain_length_le {e : Entry} {nested : Nested} (h : Brings s chain m e nested) :
    nested.chain.length ≤ chain.length + 1 := by
  cases h <;> simp

/-- Every source that is being included has taken a level. -/
lemma Reaches.chain_length_le (h : Reaches s levels chain es m past now) :
    now.chain.length + now.levels ≤ chain.length + levels := by
  induction h with
  | here => exact Nat.le_refl _
  | next hfirst hdone later ih => exact ih
  | inside hbrings inner ih =>
    have hlength := hbrings.chain_length_le
    omega

lemma Brings.isInclusion {e : Entry} {nested : Nested} (h : Brings s chain m e nested) :
    ∀ event ∈ nested.before ++ nested.after, event.isInclusion = true := by
  cases h <;> simp [Event.isInclusion]

/-- What is done at a moment is a part of the interpretation. -/
lemma Reaches.contains (h : Reaches s levels chain es m past now) :
    (entries s levels chain es m).Contains past now.outcome := by
  induction h with
  | here levels chain e rest m =>
    rw [entries_eq_each]
    exact (Outcome.contains_self _).andThen
  | next hfirst hdone later ih =>
    subst hfirst
    rw [entries_eq_each] at ih ⊢
    exact ih.after hdone
  | @inside levels chain e rest m nested past now hbrings inner ih =>
    have hnested : ((Outcome.noted nested.before m).andThen
        (entries s levels nested.chain nested.entries)).Contains (nested.before ++ past)
        now.outcome := Outcome.Contains.after ih rfl
    rw [entries_eq_each, Outcome.each, deeperAt, entry_of_brings hbrings]
    exact hnested.andThen.andThen

/-- The event is noted by the entries that the entry brings in. -/
def NotedInside (now : Moment) (earlier : List Event) (event : Event) : Prop :=
  ∃ below nested before, now.levels = below + 1 ∧
    Brings now.settings now.chain now.memory now.entry nested ∧ earlier = nested.before ++ before ∧
      (entries now.settings below nested.chain nested.entries now.memory).Notes before event

/-- An event is one of what an entry does itself, or of what it brings in, or stands around that. -/
lemma notes_outcome {now : Moment} {earlier : List Event} {event : Event}
    (h : now.outcome.Notes earlier event) :
    Own now.settings now.memory now.entry now.outcome ∨ NotedInside now earlier event ∨
      ∃ below nested, now.levels = below + 1 ∧
        Brings now.settings now.chain now.memory now.entry nested ∧
          (earlier ++ [event] <+: nested.before ∨ event ∈ nested.after) := by
  obtain ⟨hlevel, nested, hbrings⟩ | hown := entry_accounts now.settings
    (deeperAt now.settings now.levels) now.chain now.entry now.memory
  · obtain ⟨s, levels, chain, e, m⟩ := now
    cases levels with
    | zero => simp [deeperAt] at hlevel
    | succ levels =>
      rw [Moment.outcome, deeperAt, entry_of_brings hbrings] at h
      obtain hinner | ⟨-, after, -, hafter⟩ := h.of_andThen
      · obtain hbefore | ⟨-, before, hearlier, hnested⟩ := hinner.of_andThen
        · exact .inr (.inr ⟨levels, nested, rfl, hbrings, .inl hbefore⟩)
        · exact .inr (.inl ⟨levels, nested, before, rfl, hbrings, hearlier, hnested⟩)
      · exact .inr (.inr ⟨levels, nested, rfl, hbrings, .inr hafter.mem⟩)
  · exact .inl hown

lemma own_or_inside {now : Moment} {earlier : List Event} {event : Event}
    (hevent : event.isInclusion = false) (h : now.outcome.Notes earlier event) :
    (Own now.settings now.memory now.entry now.outcome ∧ now.outcome.Notes earlier event) ∨
      NotedInside now earlier event := by
  obtain hown | hinside | ⟨below, nested, -, hbrings, haround⟩ := notes_outcome h
  · exact .inl ⟨hown, h⟩
  · exact .inr hinside
  · have hmem : event ∈ nested.before ++ nested.after := by
      rw [List.mem_append]
      exact haround.imp_left fun hbefore => hbefore.subset (by simp)
    simp [hbrings.isInclusion event hmem] at hevent

/-- The earlier events are those before a moment of the interpretation and others after them, and
the property holds of the moment and of those others. -/
def NotedWithin (P : Moment → List Event → Prop) (earlier : List Event) (s : Settings)
    (levels : Nat) (chain : List Text) (es : List Entry) (m : Memory) : Prop :=
  ∃ past now before, Reaches s levels chain es m past now ∧ P now before ∧ earlier = past ++ before

section NotedWithin

variable {P : Moment → List Event → Prop} {event : Event} {earlier : List Event}
  (hstep : ∀ now earlier, now.outcome.Notes earlier event →
    P now earlier ∨ NotedInside now earlier event)
include hstep

lemma notedWithin_of_inner
    (hinner : ∀ below, levels = below + 1 → ∀ chain es m earlier,
      (entries s below chain es m).Notes earlier event → NotedWithin P earlier s below chain es m)
    (h : (entries s levels chain es m).Notes earlier event) :
    NotedWithin P earlier s levels chain es m := by
  rw [entries_eq_each] at h
  induction es generalizing m earlier with
  | nil => simpa [Outcome.each, Outcome.unchanged] using h.mem
  | cons e rest ih =>
    obtain hfirst | ⟨hdone, before, rfl, hrest⟩ := h.of_andThen
    · obtain hnow | ⟨below, nested, before, rfl, hbrings, rfl, hnested⟩ :=
        hstep ⟨s, levels, chain, e, m⟩ earlier hfirst
      · exact ⟨[], _, earlier, .here levels chain e rest m, hnow, rfl⟩
      · obtain ⟨past, now, own, hreaches, hnow, rfl⟩ := hinner below rfl _ _ m _ hnested
        exact ⟨_, now, own, .inside hbrings hreaches, hnow, by rw [List.append_assoc]⟩
    · obtain ⟨past, now, own, hreaches, hnow, rfl⟩ := ih hrest
      exact ⟨_, now, own, .next rfl hdone hreaches, hnow, by rw [List.append_assoc]; rfl⟩

/-- An event is noted at a moment, as no entry brings in others without end. -/
lemma notedWithin_of_notes (h : (entries s levels chain es m).Notes earlier event) :
    NotedWithin P earlier s levels chain es m := by
  induction levels generalizing chain es m earlier with
  | zero => exact notedWithin_of_inner hstep (fun _ hbelow => nomatch hbelow) h
  | succ levels ih =>
    refine notedWithin_of_inner hstep ?_ h
    rintro below ⟨⟩ chain es m earlier hnotes
    exact ih hnotes

end NotedWithin

end Interpret

namespace Registry

/-- Events happen in parses only, and only in those of fragments that can be scanned. -/
lemma exists_parse_of_happenedIn {r : Registry} {operation : Operation} {event : Event}
    (h : .event event ∈ r.happenedIn operation) : ∃ text es, operation = .parse text ∧
      scan r.settings.marks text = .ok es := by
  cases operation with
  | parse text =>
    cases hscan : scan r.settings.marks text with
    | error fault =>
      simp [happenedIn, perform, withOutcome, parse_of_misread hscan, Outcome.failed] at h
    | ok es => exact ⟨text, es, rfl, hscan⟩
  | reset => simp [happenedIn] at h
  | define | defineWithDefault | defineRepeatable | defineFlag | addAlias =>
    simp [happenedIn, perform, changed_events] at h
  | _ => simp [happenedIn, perform, configured, withOutcome, Outcome.unchanged] at h

/-- Every event of a parse is noted at a moment, by what the entry there does itself. -/
lemma exists_moment {r : Registry} {operations : List Operation} {earlier : List Happening}
    {event : Event} (hevent : event.isInclusion = false)
    (h : earlier ++ [.event event] <+: r.happenings operations) :
    ∃ past now before, r.Reaches operations past now ∧
      Interpret.Own now.settings now.memory now.entry now.outcome ∧
        now.outcome.Notes before event ∧ earlier = past ++ before.map .event := by
  induction operations generalizing r earlier with
  | nil => simp [happenings] at h
  | cons operation rest ih =>
    obtain hfirst | ⟨later, rfl, hrest⟩ := concat_prefix_append h
    · have hmem : .event event ∈ r.happenedIn operation := hfirst.subset (by simp)
      obtain ⟨text, es, rfl, hscan⟩ := exists_parse_of_happenedIn hmem
      obtain ⟨events, hprefix, hevents⟩ := List.prefix_map_iff.mp hfirst
      obtain ⟨before, single, rfl, rfl, hsingle⟩ := List.append_eq_map_iff.mp hevents
      obtain ⟨_, rfl, ⟨⟩⟩ := List.map_eq_singleton_iff.mp hsingle
      have hparse : (r.parse text).Notes before event := hprefix
      rw [parse_of_scan hscan] at hparse
      obtain ⟨past, now, own, hreaches, ⟨hown, hnotes⟩, rfl⟩ :=
        Interpret.notedWithin_of_notes (fun _ _ => Interpret.own_or_inside hevent) hparse
      exact ⟨_, now, own, .inside hscan hreaches, hown, hnotes, List.map_append⟩
    · obtain ⟨past, now, own, hreaches, hown, hnotes, rfl⟩ := ih hrest
      exact ⟨_, now, own, .next hreaches, hown, hnotes, by rw [List.append_assoc]⟩

/-- What is done at a moment happens right after what happens before it. -/
lemma Reaches.happens {r : Registry} {operations : List Operation} {past : List Happening}
    {now : Moment} (h : r.Reaches operations past now) :
    past ++ now.outcome.events.map .event <+: r.happenings operations := by
  induction h with
  | @inside r text es rest past now hscan inner =>
    have hparse := inner.contains.noted
    rw [← parse_of_scan hscan] at hparse
    rw [← List.map_append]
    exact (hparse.map _).trans (List.prefix_append _ _)
  | next later ih =>
    rw [List.append_assoc]
    exact (List.prefix_append_right_inj _).mpr ih

end Registry

end ParamLang
