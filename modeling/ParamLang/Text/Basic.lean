import ParamLang.Text.Blank

/-! Texts as lists of characters, with the cuts that the rest of the library makes in them. -/
namespace ParamLang

/-- Positions in a text count characters. -/
abbrev Text := List Char

namespace Text

def trimStart (t : Text) : Text := t.dropWhile isBlank

def trimEnd (t : Text) : Text := (t.reverse.dropWhile isBlank).reverse

def trim (t : Text) : Text := trimEnd (trimStart t)

/-- The pieces between the characters that satisfy `cut`, empty ones included. -/
def pieces (cut : Char → Bool) : Text → List Text
  | [] => [[]]
  | c :: t =>
    if cut c then [] :: pieces cut t
    else match pieces cut t with
      | [] => [[c]]
      | p :: ps => (c :: p) :: ps

theorem pieces_ne_nil (cut : Char → Bool) (t : Text) : pieces cut t ≠ [] := by
  cases t with
  | nil => simp [pieces]
  | cons c t =>
    simp only [pieces]
    split
    · simp
    · split <;> simp

/-- The maximal runs of characters that are not blank. -/
def words (t : Text) : List Text := (pieces isBlank t).filter fun w => !w.isEmpty

/-- Whether a text is a lower-case word in any mix of ASCII cases. -/
def isWord (word t : Text) : Bool := t.map Char.toLower == word

def isLineFeed (c : Char) : Bool := c == '\n'

def dropFinalReturn (line : Text) : Text :=
  if line.getLast? = some '\r' then line.dropLast else line

/-- The lines of a text. A line ends with a line feed or with a carriage return and a line feed;
the last line may lack its end, and then keeps a carriage return. -/
def lines (t : Text) : List Text :=
  let ps := pieces isLineFeed t
  ps.dropLast.map dropFinalReturn ++ ps.getLast?.toList.filter fun l => !l.isEmpty

def joinLines (ls : List Text) : Text := ['\n'].intercalate ls

/-- The length of the excerpts that faults show. -/
def excerptLength : Nat := 24

def excerpt (t : Text) (position : Nat) : Text := (t.drop position).take excerptLength

/-- Lexicographic order by code point. -/
def precedes : Text → Text → Bool
  | [], _ => true
  | _ :: _, [] => false
  | a :: s, b :: t => if a = b then precedes s t else decide (a.toNat < b.toNat)

/-- Texts in increasing order. -/
def sorted (ts : List Text) : List Text := ts.mergeSort precedes

end Text

end ParamLang
