import ParamLang.Registry.Basic

/-! Operations that change a registry. -/
namespace ParamLang

inductive Operation
  | useMarks (marks : Marks)
  | limitDepth (depth : Nat)
  | useIncluder (includer : Includer)
  | useSink (sink : Sink)
  /-- Begins an empty log of assignments. -/
  | keepHistory
  | define (name : Text)
  | defineWithDefault (name default : Text)
  | defineRepeatable (name : Text)
  | defineFlag (name : Text)
  | addAlias (existing name : Text)
  | reset
  | parse (text : Text)

/-- A registry after an operation, with what the operation did to it. -/
structure Report where
  registry : Registry
  outcome : Outcome

namespace Registry

def configured (r : Registry) (settings : Settings) : Report :=
  ⟨{ r with settings }, .unchanged r.memory⟩

def withOutcome (r : Registry) (outcome : Outcome) : Report :=
  ⟨{ r with memory := outcome.memory }, outcome⟩

/-- A change of the memory that either succeeds or does nothing. -/
def changed (r : Registry) (result : Except Fault Memory) : Report :=
  r.withOutcome (.attempt r.memory result .unchanged)

def perform (r : Registry) : Operation → Report
  | .useMarks marks => r.configured { r.settings with marks }
  | .limitDepth maxDepth => r.configured { r.settings with maxDepth }
  | .useIncluder includer => r.configured { r.settings with includer := some includer }
  | .useSink sink => r.configured { r.settings with sink }
  | .keepHistory => r.withOutcome (.unchanged { r.memory with history := some [] })
  | .define name => r.changed (r.memory.define name .mandatory)
  | .defineWithDefault name default => r.changed (r.memory.define name (.withDefault default))
  | .defineRepeatable name => r.changed (r.memory.define name .accumulating)
  | .defineFlag name => r.changed (r.memory.define name .flag)
  | .addAlias existing name => r.changed (r.memory.addAlias existing name)
  | .reset => r.withOutcome (.unchanged r.memory.reset)
  | .parse text => r.withOutcome (r.parse text)

/-- A registry after operations in order. -/
def performAll (r : Registry) (operations : List Operation) : Registry :=
  operations.foldl (fun r operation => (r.perform operation).registry) r

end Registry

end ParamLang
