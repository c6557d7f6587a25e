import ParamLang.Table
import ParamLang.Reference
import ParamLang.Fault

/-! Substitution of variables. A value is substituted as far as it resolves itself, and the text
rebuilt from such values is resolved again, because new references may stand at its seams. -/
namespace ParamLang

/-- What a reference to an unbound variable becomes: itself, or nothing. -/
inductive UndefinedPolicy
  | keep
  | empty
  deriving DecidableEq, Repr

structure Resolver where
  bindings : Table Text
  sigil : Char
  undefined : UndefinedPolicy
  /-- The depth beyond which no text is resolved. -/
  limit : Nat

/-- The text after substitution, and whether anything was substituted. -/
structure Resolved where
  text : Text
  changed : Bool
  deriving DecidableEq, Repr

namespace Resolver

/-- The variables being expanded, each with the depth of the text that refers to it. -/
abbrev Active := Table Nat

/-- A text rebuilt from its segments. -/
structure Rebuilt where
  resolved : Resolved
  active : Active

def Rebuilt.prepend (text : Text) (changed : Bool) (r : Rebuilt) : Rebuilt :=
  ⟨⟨text ++ r.resolved.text, changed || r.resolved.changed⟩, r.active⟩

/-- A variable that was entered from another depth is being expanded inside itself. -/
def isCycle (active : Active) (name : Text) (depth : Nat) : Bool :=
  match active.find? name with
  | none => false
  | some entered => entered != depth

/-- Rebuilds a text at a depth, where `deeper` resolves a text one level below it. -/
def rebuild (r : Resolver) (deeper : Text → Active → Except Fault Rebuilt) (depth : Nat) :
    List Segment → Active → Except Fault Rebuilt
  | [], active => .ok ⟨⟨[], false⟩, active⟩
  | .literal text :: rest, active => do
    .ok ((← rebuild r deeper depth rest active).prepend text false)
  | .reference form name :: rest, active =>
    match r.bindings.find? name with
    | none => do
      let tail ← rebuild r deeper depth rest active
      match r.undefined with
      | .keep => .ok (tail.prepend (form.write r.sigil name) false)
      | .empty => .ok (tail.prepend [] true)
    | some value => do
      if isCycle active name depth then .error (.variableCycle name)
      let expanded ← deeper value (active.put name depth)
      let tail ← rebuild r deeper depth rest (expanded.active.erase name)
      .ok (tail.prepend expanded.resolved.text true)

/-- Resolves a text with the given number of levels left, its own included. -/
def resolveAt (r : Resolver) : Nat → Text → Active → Except Fault Rebuilt
  | 0, _, _ => .error (.nestingTooDeep r.limit)
  | levels + 1, text, active => do
    let segments := Segment.ofText r.sigil text
    let built ← rebuild r (resolveAt r levels) (r.limit - levels) segments active
    if built.resolved.changed then
      let again ← resolveAt r levels built.resolved.text built.active
      .ok ⟨⟨again.resolved.text, true⟩, again.active⟩
    else .ok ⟨⟨text, false⟩, built.active⟩

def resolve (r : Resolver) (text : Text) : Except Fault Resolved := do
  .ok (← resolveAt r (r.limit + 1) text ∅).resolved

end Resolver

end ParamLang
