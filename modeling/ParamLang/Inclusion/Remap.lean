import ParamLang.Table
import ParamLang.Entry

/-! Remaps: which entries of an included source are kept, and under which names. -/
namespace ParamLang

/-- The names that are kept, each with the name it is kept under. -/
structure Remap where
  renames : Table Text
  deriving DecidableEq

namespace Remap

/-- The name that an entry mentions, and the name it is to have. -/
def mention : Entry → Text × Text
  | .value name => (name, name)
  | .pair source target => (source, target)

/-- The last mention of a name decides. -/
def ofEntries (entries : List Entry) : Remap := ⟨.ofList (entries.map mention)⟩

def read (m : Marks) (fragment : Text) : Except Fault Remap := (scan m fragment).map ofEntries

def applyEntry (remap : Remap) : Entry → Option Entry
  | .value _ => none
  | .pair name value => (remap.renames.find? name).map fun target => .pair target value

/-- Keeps the pairs whose name is mentioned, renamed, and drops all else. -/
def apply (remap : Remap) (entries : List Entry) : List Entry :=
  entries.filterMap remap.applyEntry

theorem apply_append (remap : Remap) (a b : List Entry) :
    remap.apply (a ++ b) = remap.apply a ++ remap.apply b :=
  List.filterMap_append

end Remap

end ParamLang
