import ParamLang.Resolution
import ParamLang.Inclusion.Request
import ParamLang.Registry.Memory

/-! The settings under which fragments are interpreted. -/
namespace ParamLang

/-- Where dumped lines go: they are kept for the caller, or written to a log out of its sight. -/
inductive Sink
  | kept
  | logged
  deriving DecidableEq, Repr

/-- The lines that a caller sees. -/
def Sink.visible (lines : List (Text × Text)) : Sink → List (Text × Text)
  | kept => lines
  | logged => []

structure Settings where
  marks : Marks
  /-- The limit for nested interpretation and for nested substitution. -/
  maxDepth : Nat
  includer : Option Includer
  sink : Sink

namespace Settings

def standard : Settings := ⟨.standard, 100, none, .logged⟩

def resolver (s : Settings) (m : Memory) (undefined : UndefinedPolicy) : Resolver :=
  ⟨m.bindings, s.marks.sigil, undefined, s.maxDepth⟩

/-- Substitutes the variables that are bound. -/
def resolve (s : Settings) (m : Memory) (text : Text) : Except Fault Resolved :=
  (s.resolver m .keep).resolve text

end Settings

end ParamLang
