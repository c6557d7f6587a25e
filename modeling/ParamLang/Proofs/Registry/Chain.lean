import ParamLang.Proofs.FileSystem
import ParamLang.Proofs.Registry.Depth

/-! The chain of inclusions. Every request carries the sources that are being included when it is
made, neither more nor fewer, however entries are nested, and what answers it is interpreted between
entering its source and leaving it. With files, therefore, no file is ever included inside itself,
and one that has been included before may be included again. -/
namespace ParamLang

/-- The sources being included after an event, from those before it. -/
def Event.nest (sources : List Text) : Event → List Text
  | .entered source => sources ++ [source]
  | .left => sources.dropLast
  | _ => sources

/-- The sources that have been entered and not left again, outermost first. -/
def openSources (sources : List Text) (events : List Event) : List Text :=
  events.foldl Event.nest sources

/-- The last thing that has happened is a request, and it is answered with the source. -/
def Answered (s : Settings) (earlier : List Event) (source : Text) : Prop :=
  ∃ before request includer included, earlier = before ++ [.requested request] ∧
    s.includer = some includer ∧ includer request = .ok included ∧ included.source = source

lemma openSources_append (sources : List Text) (events events' : List Event) :
    openSources sources (events ++ events') = openSources (openSources sources events) events' :=
  List.foldl_append

lemma openSources_of_quiet {events : List Event} (h : ∀ event ∈ events, event.isInclusion = false)
    (sources : List Text) : openSources sources events = sources := by
  induction events with
  | nil => rfl
  | cons event events ih =>
    have hevent : event.nest sources = sources := by
      have := h event (by simp)
      cases event <;> simp_all [Event.isInclusion, Event.nest]
    rw [openSources, List.foldl_cons, hevent]
    exact ih fun event hmem => h event (List.mem_cons_of_mem _ hmem)

lemma Answered.after {s : Settings} {earlier : List Event} {source : Text}
    (h : Answered s earlier source) (past : List Event) : Answered s (past ++ earlier) source := by
  obtain ⟨before, request, includer, included, rfl, hanswer⟩ := h
  exact ⟨past ++ before, request, includer, included, by rw [List.append_assoc], hanswer⟩

namespace Outcome

/-- An outcome that begins under some open sources and, if it comes to its end, ends under others.
What is asked for is asked for under the sources that are open then, of which there are fewer than
the limit, and what is entered is the answer to the request right before. -/
structure Chained (s : Settings) (limit : Nat) (before after : List Text) (o : Outcome) :
    Prop where
  closed : o.fault = none → openSources before o.events = after
  requested : ∀ earlier request, o.Notes earlier (.requested request) →
    request.chain = openSources before earlier ∧ request.chain.length < limit
  entered : ∀ earlier source, o.Notes earlier (.entered source) → Answered s earlier source

variable {s : Settings} {limit : Nat} {chain before between after : List Text} {o : Outcome}
  {m : Memory} {next : Memory → Outcome} {source : Text}

lemma Quiet.chained (h : o.Quiet) : o.Chained s limit chain chain where
  closed _ := openSources_of_quiet h chain
  requested _ _ hnotes := nomatch h _ hnotes.mem
  entered _ _ hnotes := nomatch h _ hnotes.mem

lemma chained_failed (m : Memory) (fault : Fault) : (failed m fault).Chained s limit chain chain :=
  Quiet.chained (only_failed m fault)

lemma Chained.mono {more : Nat} (h : o.Chained s limit before after) (hle : limit ≤ more) :
    o.Chained s more before after where
  closed := h.closed
  requested earlier request hnotes :=
    (h.requested earlier request hnotes).imp_right fun hlength => Nat.lt_of_lt_of_le hlength hle
  entered := h.entered

lemma Chained.andThen (h : o.Chained s limit before between)
    (hnext : ∀ m, (next m).Chained s limit between after) :
    (o.andThen next).Chained s limit before after where
  closed hfault := by
    cases hfirst : o.fault with
    | some fault => simp [Outcome.andThen, hfirst] at hfault
    | none =>
      have hsecond : (next o.memory).fault = none := by
        simpa [Outcome.andThen, hfirst] using hfault
      simp only [Outcome.andThen, hfirst]
      rw [openSources_append, h.closed hfirst, (hnext _).closed hsecond]
  requested earlier request hnotes := by
    obtain hfirst | ⟨hdone, past, rfl, hsecond⟩ := hnotes.of_andThen
    · exact h.requested earlier request hfirst
    · rw [openSources_append, h.closed hdone]
      exact (hnext _).requested past request hsecond
  entered earlier source hnotes := by
    obtain hfirst | ⟨-, past, rfl, hsecond⟩ := hnotes.of_andThen
    · exact h.entered earlier source hfirst
    · exact ((hnext _).entered past source hsecond).after o.events

lemma chained_each {α : Type} {act : α → Memory → Outcome}
    (h : ∀ a m, (act a m).Chained s limit chain chain) (as : List α) (m : Memory) :
    (each act as m).Chained s limit chain chain := by
  induction as generalizing m with
  | nil => exact Quiet.chained (only_unchanged m)
  | cons a as ih => exact (h a m).andThen ih

lemma chained_attempt {α : Type} {result : Except Fault α} {next : α → Outcome}
    (h : ∀ a, (next a).Chained s limit chain chain) :
    (attempt m result next).Chained s limit chain chain := by
  cases result with
  | error fault => exact chained_failed m fault
  | ok a => exact h a

lemma chained_requested {request : InclusionRequest} (hchain : request.chain = chain)
    (hlimit : chain.length < limit) :
    (noted [.requested request] m).Chained s limit chain chain where
  closed _ := rfl
  requested earlier asked hnotes := by
    obtain ⟨rfl, ⟨⟩⟩ := notes_one hnotes
    exact ⟨hchain, hchain ▸ hlimit⟩
  entered earlier source hnotes := nomatch (notes_one hnotes).2

/-- A source is entered right after the request that it answers. -/
lemma chained_entered {includer : Includer} {request : InclusionRequest} {included : Included}
    (hincluder : s.includer = some includer) (hanswer : includer request = .ok included)
    (hchain : request.chain = chain) (hlimit : chain.length < limit) :
    (noted [.requested request, .entered included.source] m).Chained s limit chain
      (chain ++ [included.source]) where
  closed _ := rfl
  requested earlier asked hnotes := by
    obtain ⟨rfl, ⟨⟩⟩ | ⟨-, ⟨⟩⟩ := notes_two hnotes
    exact ⟨hchain, hchain ▸ hlimit⟩
  entered earlier source hnotes := by
    obtain ⟨-, ⟨⟩⟩ | ⟨rfl, ⟨⟩⟩ := notes_two hnotes
    exact ⟨[], request, includer, included, rfl, hincluder, hanswer, rfl⟩

lemma chained_left : (noted [.left] m).Chained s limit (chain ++ [source]) chain where
  closed _ := List.dropLast_concat
  requested _ _ hnotes := nomatch (notes_one hnotes).2
  entered _ _ hnotes := nomatch (notes_one hnotes).2

/-- A request that is answered, with what the entries of the source do one level deeper. -/
lemma chained_splice {run : Interpret.Deeper} {includer : Includer} {request : InclusionRequest}
    {included : Included} (hincluder : s.includer = some includer)
    (hanswer : includer request = .ok included) (hchain : request.chain = chain)
    (hlimit : chain.length < limit)
    (hrun : ∀ m, (run (chain ++ [included.source]) included.entries m).Chained s limit
      (chain ++ [included.source]) (chain ++ [included.source])) :
    ((noted [.requested request] m).andThen (Interpret.splice run chain included)).Chained s limit
      chain chain := by
  -- The entering goes with the request: apart from it, nothing says where the source comes from.
  have hsplit : (noted [.requested request] m).andThen (Interpret.splice run chain included) =
      ((noted [.requested request, .entered included.source] m).andThen
        (run (chain ++ [included.source]) included.entries)).andThen (noted [.left]) := by
    rw [Interpret.noted_cons _ [.entered included.source], andThen_assoc, andThen_assoc]
    congr
    funext m
    exact andThen_assoc _ _ _
  have hentered := chained_entered (m := m) hincluder hanswer hchain hlimit
  rw [hsplit]
  exact (hentered.andThen hrun).andThen fun m => chained_left

lemma chained_answered {run : Interpret.Deeper} {includer : Includer}
    (hincluder : s.includer = some includer) (hlimit : chain.length < limit)
    (hrun : ∀ source es m, (run (chain ++ [source]) es m).Chained s limit (chain ++ [source])
      (chain ++ [source]))
    (file : Text) (request : InclusionRequest) (hchain : request.chain = chain) :
    ((noted [.requested request] m).andThen fun m =>
      Interpret.answered run chain file m (includer request)).Chained s limit chain chain := by
  cases hanswer : includer request with
  | error cause => exact (chained_requested hchain hlimit).andThen fun m => chained_failed m _
  | ok included => exact chained_splice hincluder hanswer hchain hlimit fun m => hrun _ _ m

end Outcome

namespace Interpret

open Outcome

variable {s : Settings} {levels : Nat} {deeper : Option Deeper} {run : Deeper}

/-- What runs entries with one level less keeps to the chain it is given. -/
def ChainedDeeper (s : Settings) (levels : Nat) (deeper : Option Deeper) : Prop :=
  ∀ run ∈ deeper, ∃ below, levels = below + 1 ∧
    ∀ chain es m, (run chain es m).Chained s (chain.length + below) chain chain

lemma fragment_chained (h : ChainedDeeper s levels deeper) (chain : List Text) (text : Text)
    (m : Memory) :
    (fragment s deeper chain text m).Chained s (chain.length + levels) chain chain := by
  cases deeper with
  | none => exact chained_failed m _
  | some run =>
    obtain ⟨below, rfl, hrun⟩ := h run rfl
    exact chained_attempt fun es => (hrun chain es m).mono (by omega)

lemma inclusion_chained (h : ChainedDeeper s levels deeper) (chain : List Text) (operand : Text)
    (m : Memory) :
    (inclusion s deeper chain operand m).Chained s (chain.length + levels) chain chain := by
  cases deeper with
  | none => exact chained_failed m _
  | some run =>
    obtain ⟨below, rfl, hrun⟩ := h run rfl
    rw [inclusion_eq]
    refine chained_attempt fun operands => chained_attempt fun names => ?_
    cases hincluder : s.includer with
    | none => exact chained_failed m _
    | some includer =>
      have hwithin (source : Text) (es : List Entry) (m : Memory) :
          (run (chain ++ [source]) es m).Chained s (chain.length + (below + 1))
            (chain ++ [source]) (chain ++ [source]) := by
        refine (hrun (chain ++ [source]) es m).mono ?_
        simp only [List.length_append, List.length_singleton]
        omega
      exact chained_answered hincluder (by omega) hwithin _
        (operands.request names s.marks chain) rfl

lemma entry_chained (h : ChainedDeeper s levels deeper) (chain : List Text) (e : Entry)
    (m : Memory) : (entry s deeper chain e m).Chained s (chain.length + levels) chain chain := by
  cases entry_form s e m with
  | own o hquiet heq =>
    rw [heq]
    exact hquiet.chained
  | fragment text heq =>
    rw [heq]
    exact fragment_chained h chain text m
  | inclusion operand heq =>
    rw [heq]
    exact inclusion_chained h chain operand m

/-- Each level leaves room for one more source. -/
lemma entries_chained (s : Settings) (levels : Nat) (chain : List Text) (es : List Entry)
    (m : Memory) : (entries s levels chain es m).Chained s (chain.length + levels) chain chain := by
  induction levels generalizing chain es m with
  | zero => exact chained_each (entry_chained (by simp [ChainedDeeper]) chain) es m
  | succ levels ih =>
    have hdeeper : ChainedDeeper s (levels + 1) (some (entries s levels)) := by
      rintro run ⟨⟩
      exact ⟨levels, rfl, ih⟩
    exact chained_each (entry_chained hdeeper chain) es m

end Interpret

/-- The request that an inclusion comes to at a moment, and what is done then by its answer. -/
inductive Moment.Asks (now : Moment) (request : InclusionRequest) : Prop
  | refused {includer : Includer} {cause : InclusionFault}
      (hincluder : now.settings.includer = some includer)
      (hanswer : includer request = .error cause)
      (houtcome : now.outcome =
        ⟨now.memory, [.requested request], some (.inclusionFailed request.file cause)⟩)
  | answered {includer : Includer} {included : Included} {below : Nat}
      (hincluder : now.settings.includer = some includer) (hanswer : includer request = .ok included)
      (hlevels : now.levels = below + 1) (hchain : request.chain = now.chain)
      (houtcome : now.outcome =
        ((Outcome.noted [.requested request, .entered included.source] now.memory).andThen
          (Interpret.entries now.settings below (request.chain ++ [included.source])
            included.entries)).andThen (.noted [.left]))

namespace Interpret

open Outcome

variable {m : Memory} {e : Entry} {o : Outcome} {now : Moment} {earlier : List Event}
  {request : InclusionRequest}

/-- By itself an entry asks for nothing, or it asks and is refused. -/
lemma Own.quiet_or {s : Settings} (h : Own s m e o) : o.Quiet ∨
    ∃ request includer cause, s.includer = some includer ∧ includer request = .error cause ∧
      o = ⟨m, [.requested request], some (.inclusionFailed request.file cause)⟩ := by
  cases h with
  | failed => exact .inl (only_failed m _)
  | unanswered _ hincluder hanswer => exact .inr ⟨_, _, _, hincluder, hanswer, rfl⟩
  | unchanged => exact .inl (only_unchanged m)
  | stored => exact .inl (quiet_noted rfl _)
  | bound => exact .inl (quiet_noted rfl _)
  | reset => exact .inl (each_resetName_only (fun _ => rfl) (fun _ => rfl) s _ m)
  | dumped => exact .inl (dump_quiet s _ m)

lemma asks_or_inside (h : now.outcome.Notes earlier (.requested request)) :
    (now.Asks request ∧ earlier = []) ∨ NotedInside now earlier (.requested request) := by
  obtain hown | hinside | ⟨below, nested, hlevels, hbrings, haround⟩ := notes_outcome h
  · obtain hquiet | ⟨asked, includer, cause, hincluder, hanswer, houtcome⟩ := hown.quiet_or
    · exact nomatch hquiet _ h.mem
    · have hnotes : (noted [.requested asked] now.memory).Notes earlier (.requested request) := by
        rwa [houtcome] at h
      obtain ⟨rfl, ⟨⟩⟩ := notes_one hnotes
      exact .inl ⟨.refused hincluder hanswer houtcome, rfl⟩
  · exact .inr hinside
  · have houtcome : now.outcome = ((noted nested.before now.memory).andThen
        (entries now.settings below nested.chain nested.entries)).andThen (noted nested.after) := by
      rw [Moment.outcome, hlevels, deeperAt, entry_of_brings hbrings]
    generalize now.entry = e at hbrings
    cases hbrings with
    | expanded => simp at haround
    | branch => simp at haround
    | spliced hrole hoperand hoperands hroles hincluder hanswer =>
      have hbefore := haround.resolve_right (by simp)
      obtain ⟨rfl, ⟨⟩⟩ | ⟨-, ⟨⟩⟩ := notes_two (m := now.memory) hbefore
      exact .inl ⟨.answered hincluder hanswer hlevels rfl houtcome, rfl⟩

end Interpret

lemma Registry.parse_chained (r : Registry) (text : Text) :
    (r.parse text).Chained r.settings r.settings.maxDepth [] [] := by
  refine Outcome.chained_attempt fun es => ?_
  simpa using Interpret.entries_chained r.settings r.settings.maxDepth [] es r.memory

/-- Entering only what is not open yet keeps the open sources distinct. -/
lemma Outcome.Chained.nodup {s : Settings} {limit : Nat} {after : List Text} {o : Outcome}
    {system : FileSystem} {base : Text} {earlier : List Event} (h : o.Chained s limit [] after)
    (hincluder : s.includer = some (system.includer base)) (hearlier : earlier <+: o.events) :
    (openSources [] earlier).Nodup := by
  -- Events are added at the end, and only a source that is entered can meet one that is open.
  induction earlier using List.reverseRecOn with
  | nil => exact List.nodup_nil
  | append_singleton earlier event ih =>
    have hbefore := ih ((List.prefix_append earlier [event]).trans hearlier)
    rw [openSources_append]
    cases event with
    | entered source =>
      obtain ⟨before, request, includer, included, rfl, hsome, hanswer, rfl⟩ :=
        h.entered earlier source hearlier
      obtain rfl : system.includer base = includer := by simpa [hincluder] using hsome
      have hchain := (h.requested before request
        ((List.prefix_append _ [.entered included.source]).trans hearlier)).1
      have hnew := (FileSystem.selects_of_includer hanswer).1
      have hsame : openSources [] (before ++ [.requested request]) = openSources [] before :=
        openSources_append _ _ _
      rw [hchain, ← hsame] at hnew
      exact hbefore.append (List.nodup_singleton _) (by simpa using hnew)
    | left => exact hbefore.sublist (List.dropLast_sublist _)
    | _ => exact hbefore

namespace Registry

variable {r : Registry} {text : Text} {earlier : List Event} {request : InclusionRequest}

/-- Every request is made at a moment of the parse. -/
lemma exists_asks (h : (r.parse text).Notes earlier (.requested request)) : ∃ now : Moment,
    now.Asks request ∧ now.settings = r.settings ∧ Run r.settings r.memory earlier now.memory ∧
      now.chain.length + now.levels ≤ r.settings.maxDepth ∧
      (r.parse text).Contains earlier now.outcome := by
  cases hscan : scan r.settings.marks text with
  | error fault =>
    rw [parse_of_misread hscan] at h
    exact nomatch h.mem
  | ok es =>
    rw [parse_of_scan hscan] at h ⊢
    obtain ⟨past, now, _, hreaches, ⟨hasks, rfl⟩, rfl⟩ :=
      Interpret.notedWithin_of_notes (fun _ _ => Interpret.asks_or_inside) h
    have hlength := hreaches.chain_length_le
    rw [List.length_nil, Nat.zero_add] at hlength
    rw [List.append_nil]
    exact ⟨now, hasks, hreaches.settings_eq, hreaches.run, hlength, hreaches.contains⟩

/-- What follows a request. If it is refused, all ends with it. If it is answered, the source is
entered and its entries are interpreted, with the source as the last one of the chain. If they come
to their end, that source is the last one open, and it is left; if not, all ends with them. -/
theorem parse_answers (h : (r.parse text).Notes earlier (.requested request)) :
    ∃ includer m, r.settings.includer = some includer ∧ Run r.settings r.memory earlier m ∧
      (∀ cause, includer request = .error cause → r.parse text =
        ⟨m, earlier ++ [.requested request], some (.inclusionFailed request.file cause)⟩) ∧
      ∀ included, includer request = .ok included → ∃ levels,
        request.chain.length + levels < r.settings.maxDepth ∧
          let inner := Interpret.entries r.settings levels (request.chain ++ [included.source])
            included.entries m
          let events := earlier ++ [.requested request, .entered included.source] ++ inner.events
          (inner.fault = none → openSources [] events = request.chain ++ [included.source] ∧
            events ++ [.left] <+: (r.parse text).events) ∧
          ∀ fault, inner.fault = some fault →
            r.parse text = ⟨inner.memory, events, some fault⟩ := by
  obtain ⟨now, hasks, hsettings, hrun, hlength, hcontains⟩ := exists_asks h
  cases hasks with
  | @refused includer cause hincluder hanswer houtcome =>
    rw [hsettings] at hincluder
    refine ⟨includer, now.memory, hincluder, hrun, fun other hother => ?_, fun included hother => ?_⟩
    · obtain rfl : cause = other := by simpa [hanswer] using hother
      rw [houtcome] at hcontains
      exact hcontains.failed _ rfl
    · simp [hanswer] at hother
  | @answered includer included below hincluder hanswer hlevels hsame houtcome =>
    rw [hsettings] at hincluder houtcome
    rw [houtcome] at hcontains
    obtain ⟨hdone, hfailed⟩ := hcontains.around
    refine ⟨includer, now.memory, hincluder, hrun, fun cause hother => ?_, fun other hother => ?_⟩
    · simp [hanswer] at hother
    · obtain rfl : included = other := by simpa [hanswer] using hother
      refine ⟨below, ?_, fun hfault => ⟨?_, hdone hfault⟩, hfailed⟩
      · rw [hsame]
        omega
      · have hchain := ((r.parse_chained text).requested earlier request h).1
        have hclosed := (Interpret.entries_chained r.settings below
          (request.chain ++ [included.source]) included.entries now.memory).closed hfault
        rw [openSources_append, openSources_append, ← hchain]
        exact hclosed

/-- At every request the chain is the sources that are being included at the time, each of them the
source of an answer, and leaves a level for what is asked for. With files no source is ever among
them twice, and a cycle is answered for the files that are among them and for no others. -/
theorem parse_chain (r : Registry) (text : Text) :
    (∀ earlier request, (r.parse text).Notes earlier (.requested request) →
      request.chain = openSources [] earlier ∧ request.chain.length + 1 ≤ r.settings.maxDepth) ∧
    (∀ earlier source, (r.parse text).Notes earlier (.entered source) →
      Answered r.settings earlier source) ∧
    ∀ system base, r.settings.includer = some (FileSystem.includer system base) →
      (∀ earlier, earlier <+: (r.parse text).events → (openSources [] earlier).Nodup) ∧
      ∀ earlier request path, (r.parse text).Notes earlier (.requested request) →
        (system.includer base request = .error (.cycle path) ↔
          system.canonical (FileSystem.locate base (openSources [] earlier) request.file) =
            .ok path ∧ path ∈ openSources [] earlier) := by
  have hchained := r.parse_chained text
  refine ⟨fun earlier request hnotes => ?_, hchained.entered, fun system base hincluder => ⟨?_, ?_⟩⟩
  · obtain ⟨hchain, hlength⟩ := hchained.requested earlier request hnotes
    exact ⟨hchain, hlength⟩
  · exact fun earlier hearlier => hchained.nodup hincluder hearlier
  · intro earlier request path hnotes
    rw [FileSystem.includer_eq_cycle_iff, (hchained.requested earlier request hnotes).1]

/-- A file that is included again after it has been left, by way of a condition, and then one that
is asked for while it is being included. -/
theorem parse_chain_cycle :
    let a : Text := ['/', 'a']
    let b : Text := ['/', 'b']
    let file (path : Text) : Except FileFault Text :=
      if path = a then
        .ok ['i', 'n', 'c', 'l', 'u', 'd', 'e', '=', 'b', ' ', 'c', 'o', 'n', 'd', 'i', 't', 'i',
          'o', 'n', '=', '[', 'i', 'f', '=', '1', ' ', 't', 'h', 'e', 'n', '=', '[', 'i', 'n', 'c',
          'l', 'u', 'd', 'e', '=', 'b', ']', ']']
      else .ok ['c', 'o', 'n', 'd', 'i', 't', 'i', 'o', 'n', '=', '[', 'i', 'f', '=', '$', '$', 'v',
        ' ', 't', 'h', 'e', 'n', '=', '[', 'i', 'n', 'c', 'l', 'u', 'd', 'e', '=', 'a', ']', ']',
        ' ', '$', 'v', '=', '1']
    let system : FileSystem := ⟨.ok, file⟩
    let r : Registry :=
      ⟨{ Settings.standard with includer := some (system.includer ['/']) }, .empty⟩
    let text : Text := ['i', 'n', 'c', 'l', 'u', 'd', 'e', '=', 'a']
    let asked (file : Text) (chain : List Text) : InclusionRequest :=
      ⟨file, none, none, none, .standard, chain⟩
    let earlier : List Event := [.requested (asked ['a'] []), .entered a,
      .requested (asked ['b'] [a]), .entered b, .bound ['v'] ['1'], .left,
      .requested (asked ['b'] [a]), .entered b]
    ((r.parse text).Notes earlier (.requested (asked ['a'] [a, b])) ∧
      (r.parse text).fault = some (.inclusionFailed ['a'] (.cycle a))) ∧
    ([a, b] = openSources [] earlier ∧ Answered r.settings (earlier.take 7) b ∧
      (openSources [] earlier).Nodup ∧
      system.includer ['/'] (asked ['a'] [a, b]) = .error (.cycle a)) := by
  intro a b file system r text asked earlier
  have hevents : (r.parse text).events = earlier ++ [.requested (asked ['a'] [a, b])] := by cbv
  have hfault : (r.parse text).fault = some (.inclusionFailed ['a'] (.cycle a)) := by cbv
  have hnotes : (r.parse text).Notes earlier (.requested (asked ['a'] [a, b])) := by
    rw [Outcome.Notes, hevents]
  have hentered : (r.parse text).Notes (earlier.take 7) (.entered b) :=
    (List.prefix_append earlier [_]).trans hnotes
  obtain ⟨hrequested, hanswered, hfiles⟩ := r.parse_chain text
  obtain ⟨hdistinct, hcycle⟩ := hfiles system ['/'] rfl
  have hopen : [a, b] = openSources [] earlier := (hrequested _ _ hnotes).1
  have hlocated : FileSystem.locate ['/'] (openSources [] earlier) ['a'] = a := by decide
  have hmem : a ∈ openSources [] earlier := by simp [← hopen]
  refine ⟨⟨hnotes, hfault⟩, hopen, hanswered _ _ hentered, ?_, ?_⟩
  · exact hdistinct earlier ((List.prefix_append earlier [_]).trans hnotes)
  · exact (hcycle _ _ a hnotes).mpr ⟨congrArg Except.ok hlocated, hmem⟩

end Registry

end ParamLang
