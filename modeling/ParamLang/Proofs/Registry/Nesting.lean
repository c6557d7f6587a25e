import ParamLang.Proofs.Registry.Happening

/-! Nesting. An entry brings in others, which are interpreted in its place and one level deeper, or
it does what it does by itself. -/
namespace ParamLang

/-- The branch that is taken when the test comes to a text. -/
def ConditionOperands.branch? (operands : ConditionOperands) (test : Text) : Option Text :=
  if Interpret.holds test then some operands.thenBranch else operands.elseBranch

def InclusionOperands.request (operands : InclusionOperands) (names : Option Remap) (marks : Marks)
    (chain : List Text) : InclusionRequest where
  file := operands.file
  names := names
  extractor := operands.extractor
  extractorParameters := operands.extractorParameters
  marks := marks
  chain := chain

/-- What a pair is by its resolved name. -/
inductive Role
  | binding (v : Text)
  | directive (d : Directive)
  | assignment (name : Text)
  deriving DecidableEq

def Role.ofName (marks : Marks) (name : Text) : Role :=
  match marks.variableOf? name with
  | some v => .binding v
  | none =>
    match Directive.find? name with
    | some d => .directive d
    | none => .assignment name

namespace Interpret

open Outcome

/-- The name of a pair resolves to one that gives it the role. -/
def HasRole (s : Settings) (m : Memory) (name : Text) (role : Role) : Prop :=
  ∃ resolved, s.resolve m name = .ok resolved ∧ .ofName s.marks resolved.text = role

/-- Entries to interpret in the place of another, and what is noted before and after them. -/
structure Nested where
  before : List Event
  chain : List Text
  entries : List Entry
  after : List Event

/-- The entries that an entry brings in: those of an expanded value, of the branch of a condition
or of a source that is included. -/
inductive Brings (s : Settings) (chain : List Text) (m : Memory) : Entry → Nested → Prop
  | expanded {value text : Text} {es : List Entry} (hvalue : s.resolve m value = .ok ⟨text, true⟩)
      (hscan : scan s.marks text = .ok es) : Brings s chain m (.value value) ⟨[], chain, es, []⟩
  | branch {name operand branch : Text} {operands : ConditionOperands} {test : Resolved}
      {es : List Entry} (hrole : HasRole s m name (.directive .condition))
      (hoperands : ConditionOperands.read s.marks operand = .ok operands)
      (htest : (s.resolver m .empty).resolve operands.test = .ok test)
      (hbranch : operands.branch? test.text = some branch) (hscan : scan s.marks branch = .ok es) :
      Brings s chain m (.pair name operand) ⟨[], chain, es, []⟩
  | spliced {name operand : Text} {resolved : Resolved} {operands : InclusionOperands}
      {names : Option Remap} {includer : Includer} {included : Included}
      (hrole : HasRole s m name (.directive .inclusion))
      (hoperand : s.resolve m operand = .ok resolved)
      (hoperands : InclusionOperands.read s.marks resolved.text = .ok operands)
      (hroles : remap s.marks operands.names = .ok names) (hincluder : s.includer = some includer)
      (hanswer : includer (operands.request names s.marks chain) = .ok included) :
      Brings s chain m (.pair name operand)
        ⟨[.requested (operands.request names s.marks chain), .entered included.source],
          chain ++ [included.source], included.entries, [.left]⟩

/-- The value that an entry gives, and the name of the parameter it is for: an assignment, a flag
to turn on, or a value for the parameter with the empty name. -/
inductive Stores (s : Settings) (m : Memory) : Entry → Text → Text → Prop
  | assignment {name target value : Text} {resolved : Resolved}
      (hrole : HasRole s m name (.assignment target)) (hvalue : s.resolve m value = .ok resolved) :
      Stores s m (.pair name value) target resolved.text
  | flag {value text : Text} (hvalue : s.resolve m value = .ok ⟨text, false⟩)
      (hflag : isFlag m value = true) : Stores s m (.value value) value Cell.onText
  | positional {value text : Text} (hvalue : s.resolve m value = .ok ⟨text, false⟩)
      (hflag : isFlag m value = false) (hempty : m.names.contains [] = true) :
      Stores s m (.value value) [] value

/-- What an entry does by itself, when it brings in no others. -/
inductive Own (s : Settings) (m : Memory) : Entry → Outcome → Prop
  | failed (e : Entry) (fault : Fault) : Own s m e (failed m fault)
  | unanswered (e : Entry) {request : InclusionRequest} {includer : Includer}
      {cause : InclusionFault} (hincluder : s.includer = some includer)
      (hanswer : includer request = .error cause) :
      Own s m e ⟨m, [.requested request], some (.inclusionFailed request.file cause)⟩
  | unchanged (e : Entry) : Own s m e (unchanged m)
  | stored {e : Entry} {place : Nat} {name value : Text} (hstores : Stores s m e name value)
      (hplace : m.names.find? name = some place) :
      Own s m e (noted [.stored place name value] (m.store s.marks place name value))
  | bound {name v value : Text} {resolved : Resolved} (hrole : HasRole s m name (.binding v))
      (hvalue : s.resolve m value = .ok resolved) :
      Own s m (.pair name value) (noted [.bound v resolved.text] (m.bind v resolved.text))
  | reset {name operand : Text} {resolved : Resolved} {names : List Text}
      (hrole : HasRole s m name (.directive .reset)) (hoperand : s.resolve m operand = .ok resolved)
      (hroles : elements s.marks resolved.text = .ok names) :
      Own s m (.pair name operand) (each (resetName s) names m)
  | dumped {name operand : Text} (hrole : HasRole s m name (.directive .dump)) :
      Own s m (.pair name operand) (dump s operand m)

/-- What interprets entries with the given number of levels left, its own not among them. -/
def deeperAt (s : Settings) : Nat → Option Deeper
  | 0 => none
  | levels + 1 => some (entries s levels)

variable {s : Settings} {deeper : Option Deeper} {run : Deeper} {chain : List Text} {m : Memory}

lemma entries_eq_each (s : Settings) (levels : Nat) (chain : List Text) (es : List Entry)
    (m : Memory) : entries s levels chain es m = each (entry s (deeperAt s levels) chain) es m := by
  cases levels <;> rfl

lemma runsDeeper_deeperAt (s : Settings) (levels : Nat) : RunsDeeper s (deeperAt s levels) := by
  cases levels with
  | zero => simp [RunsDeeper, deeperAt]
  | succ levels =>
    rintro run ⟨⟩
    exact entries_runs s levels

/-- Interprets a pair in a role. -/
def inRole (s : Settings) (deeper : Option Deeper) (chain : List Text) (value : Text)
    (m : Memory) : Role → Outcome
  | .binding v => bindVariable s v value m
  | .directive d => directive s deeper chain value m d
  | .assignment name => attempt m (s.resolve m value) fun v => store s name v.text m

lemma pair_eq (name value : Text) : pair s deeper chain name value m =
    attempt m (s.resolve m name) fun resolved =>
      inRole s deeper chain value m (.ofName s.marks resolved.text) := by
  simp only [pair, Role.ofName]
  congr
  funext resolved
  cases s.marks.variableOf? resolved.text with
  | some v => rfl
  | none => cases Directive.find? resolved.text <;> rfl

lemma pair_of_hasRole {name : Text} {role : Role} (h : HasRole s m name role) (value : Text) :
    pair s deeper chain name value m = inRole s deeper chain value m role := by
  obtain ⟨resolved, hresolved, rfl⟩ := h
  rw [pair_eq, hresolved, attempt]

lemma condition_eq (operand : Text) : condition s deeper chain operand m =
    attempt m (ConditionOperands.read s.marks operand) fun operands =>
      attempt m ((s.resolver m .empty).resolve operands.test) fun test =>
        match operands.branch? test.text with
        | some branch => fragment s deeper chain branch m
        | none => unchanged m := by
  simp only [condition, ConditionOperands.branch?]
  congr
  funext operands
  congr
  funext test
  split
  · rfl
  · cases operands.elseBranch <;> rfl

lemma attempt_own {α : Type} {e : Entry} {result : Except Fault α} {next : α → Outcome}
    (h : ∀ a, result = .ok a → Own s m e (next a)) : Own s m e (attempt m result next) := by
  cases result with
  | error fault => exact .failed e fault
  | ok a => exact h a rfl

lemma store_own {e : Entry} {name value : Text} (h : Stores s m e name value) :
    Own s m e (store s name value m) :=
  attempt_own fun _ hplace => .stored h (Memory.place_eq_ok_iff.mp hplace)

lemma bindVariable_own {name v : Text} (hrole : HasRole s m name (.binding v)) (value : Text) :
    Own s m (.pair name value) (bindVariable s v value m) := by
  unfold bindVariable
  split
  · exact .failed _ _
  · split
    · exact .unchanged _
    · exact attempt_own fun resolved hvalue => .bound hrole hvalue

/-- An entry either brings in others, if a level is left for them, or does what it does itself. -/
def Accounts (s : Settings) (deeper : Option Deeper) (chain : List Text) (e : Entry) (m : Memory)
    (o : Outcome) : Prop :=
  (deeper.isSome ∧ ∃ nested, Brings s chain m e nested) ∨ Own s m e o

lemma attempt_accounts {α : Type} {e : Entry} {result : Except Fault α} {next : α → Outcome}
    (h : ∀ a, result = .ok a → Accounts s deeper chain e m (next a)) :
    Accounts s deeper chain e m (attempt m result next) := by
  cases result with
  | error fault => exact .inr (.failed e fault)
  | ok a => exact h a rfl

lemma fragment_accounts {e : Entry} {text : Text} (h : ∀ es, scan s.marks text = .ok es →
    ∃ nested, Brings s chain m e nested) :
    Accounts s deeper chain e m (fragment s deeper chain text m) := by
  cases deeper with
  | none => exact .inr (.failed e _)
  | some run => exact attempt_accounts fun es hscan => .inl ⟨rfl, h es hscan⟩

lemma isolated_accounts (value : Text) :
    Accounts s deeper chain (.value value) m (isolated s deeper chain value m) := by
  refine attempt_accounts fun resolved hvalue => ?_
  obtain ⟨text, _ | _⟩ := resolved
  · rw [if_neg Bool.false_ne_true]
    split
    · rename_i hflag
      exact .inr (store_own (.flag hvalue hflag))
    · rename_i hflag
      split
      · rename_i hempty
        exact .inr (store_own (.positional hvalue (Bool.eq_false_iff.mpr hflag) hempty))
      · exact .inr (.failed _ _)
  · rw [if_pos rfl]
    exact fragment_accounts fun es hscan => ⟨_, .expanded hvalue hscan⟩

lemma condition_accounts {name : Text} (hrole : HasRole s m name (.directive .condition))
    (operand : Text) :
    Accounts s deeper chain (.pair name operand) m (condition s deeper chain operand m) := by
  rw [condition_eq]
  refine attempt_accounts fun operands hoperands => attempt_accounts fun test htest => ?_
  split
  · rename_i hbranch
    exact fragment_accounts fun es hscan => ⟨_, .branch hrole hoperands htest hbranch hscan⟩
  · exact .inr (.unchanged _)

lemma inclusion_accounts {name operand : Text} {resolved : Resolved}
    (hrole : HasRole s m name (.directive .inclusion))
    (hoperand : s.resolve m operand = .ok resolved) :
    Accounts s deeper chain (.pair name operand) m (inclusion s deeper chain resolved.text m) := by
  cases deeper with
  | none => exact .inr (.failed _ _)
  | some run =>
    refine attempt_accounts fun operands hoperands => attempt_accounts fun names hroles => ?_
    cases hincluder : s.includer with
    | none => exact .inr (.failed _ _)
    | some includer =>
      cases hanswer : includer (operands.request names s.marks chain) with
      | ok included =>
        exact .inl ⟨rfl, _, .spliced hrole hoperand hoperands hroles hincluder hanswer⟩
      | error cause =>
        have hown := Own.unanswered (m := m) (.pair name operand) hincluder hanswer
        simp only [InclusionOperands.request] at hanswer
        simp only [hanswer]
        exact .inr hown

lemma directive_accounts {name : Text} {d : Directive} (hrole : HasRole s m name (.directive d))
    (operand : Text) :
    Accounts s deeper chain (.pair name operand) m (directive s deeper chain operand m d) := by
  cases d with
  | condition => exact condition_accounts hrole operand
  | inclusion => exact attempt_accounts fun o hoperand => inclusion_accounts hrole hoperand
  | reset =>
    refine attempt_accounts fun o hoperand => attempt_accounts fun names hroles => ?_
    exact .inr (.reset hrole hoperand hroles)
  | dump => exact .inr (.dumped hrole)

lemma entry_accounts (s : Settings) (deeper : Option Deeper) (chain : List Text) (e : Entry)
    (m : Memory) : Accounts s deeper chain e m (entry s deeper chain e m) := by
  cases e with
  | value value => exact isolated_accounts value
  | pair name value =>
    rw [entry, pair_eq]
    refine attempt_accounts fun resolved hresolved => ?_
    cases hrole : Role.ofName s.marks resolved.text with
    | binding v => exact .inr (bindVariable_own ⟨resolved, hresolved, hrole⟩ value)
    | directive d => exact directive_accounts ⟨resolved, hresolved, hrole⟩ value
    | assignment p =>
      exact .inr (attempt_own fun v hvalue =>
        store_own (.assignment ⟨resolved, hresolved, hrole⟩ hvalue))

/-- An entry that gives a value to a parameter does nothing but store it. -/
lemma entry_of_stores {e : Entry} {name value : Text} (h : Stores s m e name value) :
    entry s deeper chain e m = store s name value m := by
  cases h with
  | assignment hrole hvalue => rw [entry, pair_of_hasRole hrole, inRole, hvalue, attempt]
  | flag hvalue hflag =>
    simp only [entry, isolated, hvalue, attempt, hflag, Bool.false_eq_true, if_false, if_true]
  | positional hvalue hflag hempty =>
    simp only [entry, isolated, hvalue, attempt, hflag, hempty, Bool.false_eq_true, if_false,
      if_true]

lemma noted_cons (e : Event) (events : List Event) (m : Memory) :
    noted (e :: events) m = (noted [e] m).andThen (noted events) := rfl

/-- An entry that brings in others does what these do. -/
lemma entry_of_brings {e : Entry} {nested : Nested} (h : Brings s chain m e nested) :
    entry s (some run) chain e m =
      ((noted nested.before m).andThen (run nested.chain nested.entries)).andThen
        (noted nested.after) := by
  cases h with
  | expanded hvalue hscan =>
    simp only [entry, isolated, hvalue, attempt, fragment, hscan, if_true]
    exact (andThen_unchanged _).symm
  | branch hrole hoperands htest hbranch hscan =>
    simp only [entry, pair_of_hasRole hrole, inRole, directive, condition_eq, hoperands, htest,
      hbranch, attempt, fragment, hscan]
    exact (andThen_unchanged _).symm
  | @spliced name operand resolved operands names includer included hrole hoperand hoperands hroles
      hincluder hanswer =>
    have hsplice : inclusion s (some run) chain resolved.text m =
        (noted [.requested (operands.request names s.marks chain)] m).andThen
          (splice run chain included) := by
      simp only [InclusionOperands.request] at hanswer
      simp only [inclusion, hoperands, hroles, hincluder, attempt, hanswer,
        InclusionOperands.request]
    simp only [entry, pair_of_hasRole hrole, inRole, directive, hoperand, attempt, hsplice]
    rw [noted_cons _ [.entered included.source], andThen_assoc, andThen_assoc]
    congr
    funext m
    exact andThen_assoc _ _ _

end Interpret

end ParamLang
