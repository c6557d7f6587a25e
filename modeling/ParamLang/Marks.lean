import ParamLang.Text.Alphanumeric
import ParamLang.Fault

/-! The five characters that carry meaning in a fragment. They are configurable, so every reader
and writer of fragments takes them as an argument. -/
namespace ParamLang

/-- Characters of a variable's name. -/
def isNameChar (c : Char) : Bool := Text.isAlphanumeric c || c == '-' || c == '_'

/-- Blanks and the characters of names cannot be marks. -/
def isUsableMark (c : Char) : Bool := !Text.isBlank c && !isNameChar c

structure Marks where
  opener : Char
  closer : Char
  separator : Char
  escape : Char
  /-- The character that variable definitions and references begin with. -/
  sigil : Char
  usable : ∀ c ∈ [opener, closer, separator, escape, sigil], isUsableMark c = true
  distinct : [opener, closer, separator, escape, sigil].Nodup
  deriving DecidableEq

namespace Marks

/-- The first fault among candidate marks: one that cannot be a mark, or one that occurs again. -/
def firstFault : List Char → Option Fault
  | [] => none
  | c :: cs =>
    if isUsableMark c = false then some (.unusableMark c)
    else if c ∈ cs then some (.conflictingMarks c c)
    else firstFault cs

theorem firstFault_eq_none_iff (cs : List Char) :
    firstFault cs = none ↔ (∀ c ∈ cs, isUsableMark c = true) ∧ cs.Nodup := by
  induction cs with
  | nil => simp [firstFault]
  | cons c cs ih =>
    simp only [firstFault]
    by_cases hu : isUsableMark c = false
    · simp [hu]
    · by_cases hc : c ∈ cs
      · simp [hu, hc]
      · simp only [hu, hc, if_false]
        simp_all

def make (opener closer separator escape sigil : Char) : Except Fault Marks :=
  match h : firstFault [opener, closer, separator, escape, sigil] with
  | some fault => .error fault
  | none => .ok {
      opener, closer, separator, escape, sigil
      usable := ((firstFault_eq_none_iff _).mp h).1
      distinct := ((firstFault_eq_none_iff _).mp h).2 }

/-- Square brackets, an equals sign, a backslash and a dollar sign. -/
def standard : Marks where
  opener := '['
  closer := ']'
  separator := '='
  escape := '\\'
  sigil := '$'
  usable := List.all_eq_true.mp (by decide)
  distinct := by decide

def toList (m : Marks) : List Char := [m.opener, m.closer, m.separator, m.escape, m.sigil]

/-- The variable that a name with the sigil in front stands for. -/
def variableOf? (m : Marks) : Text → Option Text
  | [] => none
  | c :: name => if c = m.sigil then some name else none

theorem variableOf?_eq_some_iff {m : Marks} {name v : Text} :
    m.variableOf? name = some v ↔ name = m.sigil :: v := by
  cases name with
  | nil => simp [variableOf?]
  | cons c name => by_cases hc : c = m.sigil <;> simp [variableOf?, hc]

/-- The characters that lose their meaning after an escape. -/
def isEscapable (m : Marks) (c : Char) : Bool :=
  c == m.opener || c == m.closer || c == m.separator || c == m.escape || Text.isBlank c

/-- What an escape and the character after it stand for. Before a character without a meaning to
lose, the escape is kept. -/
def unescape (m : Marks) (c : Char) : Text := if m.isEscapable c then [c] else [m.escape, c]

/-- The characters that end a bracket or change its depth. -/
def isBracketing (m : Marks) (c : Char) : Bool :=
  c == m.opener || c == m.closer || c == m.escape

def quoteBody (m : Marks) (value : Text) : Text :=
  value.flatMap fun c => if m.isBracketing c then [m.escape, c] else [c]

/-- A bracketed literal that reads back as the value. -/
def quote (m : Marks) (value : Text) : Text := m.opener :: m.quoteBody value ++ [m.closer]

end Marks

end ParamLang
