import ParamLang.Directive
import ParamLang.Parameter.Cell

/-! The memory of a registry: cells with their names, variables, and the log of assignments. -/
namespace ParamLang

structure Memory where
  cells : List Cell
  /-- The place of each parameter's cell. Aliases share a place. -/
  names : Table Nat
  /-- The values of the variables that are bound. -/
  bindings : Table Text
  /-- Every assignment in order, if a log is kept. -/
  history : Option (List Entry)
  deriving DecidableEq

namespace Memory

def empty : Memory := ⟨[], ∅, ∅, none⟩

def cell? (m : Memory) (name : Text) : Option Cell := (m.names.find? name).bind (m.cells[·]?)

/-- A new name must be neither a directive's nor a parameter's. -/
def checkNew (m : Memory) (name : Text) : Except Fault Unit :=
  if (Directive.find? name).isSome then .error (.reservedName name)
  else if m.names.contains name then .error (.duplicateDefinition name)
  else .ok ()

/-- Gives a name a cell of its own. -/
def define (m : Memory) (name : Text) (cell : Cell) : Except Fault Memory := do
  m.checkNew name
  .ok { m with cells := m.cells ++ [cell], names := m.names.put name m.cells.length }

def place (m : Memory) (name : Text) : Except Fault Nat :=
  match m.names.find? name with
  | some place => .ok place
  | none => .error (.undefinedParameter name)

/-- Gives a parameter another name. -/
def addAlias (m : Memory) (existing name : Text) : Except Fault Memory := do
  let place ← m.place existing
  m.checkNew name
  .ok { m with names := m.names.put name place }

/-- Assigns to the cell at a place, and logs the name used. -/
def store (m : Memory) (marks : Marks) (place : Nat) (name value : Text) : Memory :=
  { m with
    cells := m.cells.modify place (Cell.assign marks value)
    history := m.history.map fun log => log ++ [.pair name value] }

def clear (m : Memory) (place : Nat) : Memory :=
  { m with cells := m.cells.modify place Cell.clear }

def bind (m : Memory) (name value : Text) : Memory :=
  { m with bindings := m.bindings.put name value }

def unbind (m : Memory) (name : Text) : Memory :=
  { m with bindings := m.bindings.erase name }

/-- Forgets all values and variables. Definitions and the log stay. -/
def reset (m : Memory) : Memory :=
  { m with cells := m.cells.map Cell.clear, bindings := ∅ }

end Memory

end ParamLang
