import ParamLang.Text.Basic

/-! Paths as they are written: pieces between slashes. Empty pieces and single dots name nothing,
except that a path may begin with a slash or a dot. -/
namespace ParamLang.Path

def isSlash (c : Char) : Bool := c == '/'

def pieces (path : Text) : List Text := Text.pieces isSlash path

def joinPieces (ps : List Text) : Text := ['/'].intercalate ps

def isAbsolute (path : Text) : Bool := path.head? == some '/'

/-- Pieces that name nothing within a path. -/
def isIdle (piece : Text) : Bool := piece == [] || piece == ['.']

/-- The slash or dot that a path begins with, and the pieces after it. -/
def split : Text → Text × List Text
  | '/' :: body => (['/'], pieces body)
  | ['.'] => (['.'], [])
  | '.' :: '/' :: body => (['.', '/'], pieces body)
  | body => ([], pieces body)

def dropIdleEnd (ps : List Text) : List Text := (ps.reverse.dropWhile isIdle).reverse

/-- The folder that a path names an element of. The root and the empty path have none. -/
def parent? (path : Text) : Option Text :=
  let (lead, body) := split path
  let named := dropIdleEnd body
  if named = [] then
    match lead with
    | '.' :: _ => some []
    | _ => none
  else
    let folder := dropIdleEnd named.dropLast
    if folder = [] then some (lead.take 1) else some (lead ++ joinPieces folder)

/-- An element of a folder. An absolute element stands for itself. -/
def join (folder element : Text) : Text :=
  if isAbsolute element then element
  else if folder = [] ∨ folder.getLast? = some '/' then folder ++ element
  else folder ++ '/' :: element

end ParamLang.Path
