import ParamLang.Inclusion.Request

/-! Inclusion from memory: sources by name, each a fragment or a ready list of entries. A chain of
inclusions is not checked for cycles. -/
namespace ParamLang

inductive ScriptedSource
  /-- A fragment is included whole, whatever names are asked for. -/
  | fragment (text : Text)
  /-- Entries are remapped, and may go by another source name. -/
  | entries (source : Option Text) (entries : List Entry)
  deriving DecidableEq, Repr

def ScriptedSource.answer (request : InclusionRequest) :
    ScriptedSource → Except InclusionFault Included
  | fragment text => do .ok ⟨request.file, ← request.scan text⟩
  | entries source es => .ok ⟨source.getD request.file, request.select es⟩

def scriptedIncluder (sources : Table ScriptedSource) : Includer := fun request =>
  match sources.find? request.file with
  | some source => source.answer request
  | none => .error (.missingSection request.file)

end ParamLang
