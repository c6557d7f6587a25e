import ParamLang.Registry.Interpret
import ParamLang.Parameter.View

/-! Registries of parameters: definitions, the values that fragments give them, and access to
both. -/
namespace ParamLang

structure Registry where
  settings : Settings
  memory : Memory

namespace Registry

def new : Registry := ⟨.standard, .empty⟩

/-- Interprets a fragment entry by entry. What was done before a fault stays done. -/
def parse (r : Registry) (text : Text) : Outcome :=
  .attempt r.memory (scan r.settings.marks text) fun es =>
    Interpret.entries r.settings r.settings.maxDepth [] es r.memory

/-- The lines of an outcome that go where the caller sees them. -/
def visible (r : Registry) (o : Outcome) : List (Text × Text) := r.settings.sink.visible o.dumped

def isDefined (r : Registry) (name : Text) : Bool := r.memory.names.contains name

/-- All parameter names, aliases included, in order. -/
def parameterNames (r : Registry) : List Text := Text.sorted r.memory.names.names

/-- A parameter under one of its names. -/
def view (r : Registry) (name : Text) : Except Fault View :=
  match r.memory.cell? name with
  | some cell => .ok ⟨name, cell, r.settings.marks⟩
  | none => .error (.undefinedParameter name)

def variableValue? (r : Registry) (name : Text) : Option Text := r.memory.bindings.find? name

/-- The assignments logged so far. -/
def history (r : Registry) : List Entry := r.memory.history.getD []

def resolve (r : Registry) (text : Text) : Except Fault Resolved :=
  r.settings.resolve r.memory text

end Registry

end ParamLang
