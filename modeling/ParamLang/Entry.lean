import ParamLang.Token

/-! Entries of a fragment: names with values, and values without a name. They are assembled from
the tokens, so an entry never depends on how its parts were quoted. -/
namespace ParamLang

inductive Entry
  | value (value : Text)
  | pair (name value : Text)
  deriving DecidableEq, Repr

/-- Whether a fragment may hold values without a name. -/
inductive IsolatedPolicy
  | allowed
  | forbidden
  deriving DecidableEq, Repr

/-- The entries read from a fragment, and what ended the reading early, if anything did. -/
structure EntryRun where
  entries : List Entry
  misread : Option Misread
  deriving DecidableEq, Repr

namespace EntryRun

def stopped (misread : Misread) : EntryRun := ⟨[], some misread⟩

def push (entry : Entry) (run : EntryRun) : EntryRun := ⟨entry :: run.entries, run.misread⟩

/-- A value without a name, known as such when the reading stands at `position`. -/
def isolated (policy : IsolatedPolicy) (value : Text) (position : Nat) (run : EntryRun) :
    EntryRun :=
  match policy with
  | .allowed => run.push (.value value)
  | .forbidden => stopped ⟨.isolatedValue, position - 1⟩

/-- A literal is a value, or with a separator and another literal after it a pair. -/
def assemble (policy : IsolatedPolicy) (ending : Except Misread Nat) :
    List (Token × Nat) → EntryRun
  | [] =>
    match ending with
    | .ok _ => ⟨[], none⟩
    | .error misread => stopped misread
  | (.separator, position) :: _ => stopped ⟨.misplacedSeparator, position - 1⟩
  | [(.literal name, _)] =>
    match ending with
    | .ok position => isolated policy name position ⟨[], none⟩
    | .error misread => stopped misread
  | (.literal name, _) :: (.literal next, position) :: rest =>
    isolated policy name position (assemble policy ending ((.literal next, position) :: rest))
  | [(.literal _, _), (.separator, _)] =>
    match ending with
    | .ok position => stopped ⟨.danglingSeparator, position - 1⟩
    | .error misread => stopped misread
  | (.literal _, _) :: (.separator, _) :: (.separator, position) :: _ =>
    stopped ⟨.danglingSeparator, position - 1⟩
  | (.literal name, _) :: (.separator, _) :: (.literal value, _) :: rest =>
    (assemble policy ending rest).push (.pair name value)

def ofTokens (policy : IsolatedPolicy) (run : TokenRun) : EntryRun :=
  assemble policy run.ending run.tokens

def ofText (policy : IsolatedPolicy) (m : Marks) (fragment : Text) : EntryRun :=
  ofTokens policy (.ofText m fragment)

end EntryRun

/-- The entries of a fragment that may hold values without a name. -/
def scan (m : Marks) (fragment : Text) : Except Fault (List Entry) :=
  let run := EntryRun.ofText .allowed m fragment
  match run.misread with
  | none => .ok run.entries
  | some misread => .error (misread.fault fragment)

end ParamLang
