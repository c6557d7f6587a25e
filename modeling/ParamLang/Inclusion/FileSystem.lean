import ParamLang.Inclusion.Request
import ParamLang.Inclusion.Extract
import ParamLang.Inclusion.Path

/-! Inclusion of files. Each file is known by its canonical path, so a file that is being included
is recognised under any of its names. -/
namespace ParamLang

/-- What inclusion asks of a file system. -/
structure FileSystem where
  canonical : Text → Except FileFault Text
  read : Text → Except FileFault Text

namespace FileSystem

/-- Where a file is looked for: beside the innermost source being included, or else in the base
folder. -/
def locate (base : Text) (chain : List Text) (file : Text) : Text :=
  Path.join ((chain.getLast?.bind Path.parent?).getD base) file

def unreadable {α : Type} (path : Text) : Except FileFault α → Except InclusionFault α
  | .ok a => .ok a
  | .error cause => .error (.unreadable path cause)

/-- Includes files below a base folder. -/
def includer (system : FileSystem) (base : Text) : Includer := fun request => do
  let path := locate base request.chain request.file
  let source ← unreadable path (system.canonical path)
  if request.chain.contains source then .error (.cycle source)
  let content ← unreadable source (system.read source)
  let fragment ← Extract.fragment content request.extractor request.extractorParameters
  let entries ← request.scan fragment
  .ok ⟨source, request.select entries⟩

/-- The base folder of an includer that is given none. -/
def defaultBase : Text := ['.']

end FileSystem

end ParamLang
