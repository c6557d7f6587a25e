import ParamLang.Inclusion.Remap

/-! The inclusion of other sources. An includer answers a request with the entries of a source, as
if what it holds had been written in place. -/
namespace ParamLang

structure InclusionRequest where
  file : Text
  names : Option Remap
  extractor : Option Text
  extractorParameters : Option Text
  marks : Marks
  /-- The sources being included, outermost first. -/
  chain : List Text
  deriving DecidableEq

/-- Entries, and the name of the source they come from. -/
structure Included where
  source : Text
  entries : List Entry
  deriving DecidableEq, Repr

abbrev Includer := InclusionRequest → Except InclusionFault Included

namespace InclusionRequest

/-- The entries that a request lets through. -/
def select (request : InclusionRequest) (entries : List Entry) : List Entry :=
  match request.names with
  | some remap => remap.apply entries
  | none => entries

/-- The entries of an included fragment. -/
def scan (request : InclusionRequest) (fragment : Text) : Except InclusionFault (List Entry) :=
  match ParamLang.scan request.marks fragment with
  | .ok entries => .ok entries
  | .error fault => .error (.malformed fault)

end InclusionRequest

end ParamLang
