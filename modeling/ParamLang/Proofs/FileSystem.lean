import ParamLang.Inclusion.FileSystem
import ParamLang.Proofs.Result

/-! What the inclusion of files answers. A file that is being included already is a cycle, under
whatever path it is asked for, and what is let through of another file are the entries asked for. -/
namespace ParamLang

namespace FileSystem

variable {system : FileSystem} {base : Text} {request : InclusionRequest}

/-- What a source gives to a request, if it is not being included already. -/
def contents (system : FileSystem) (request : InclusionRequest) (source : Text) :
    Except InclusionFault Included := do
  let content ← unreadable source (system.read source)
  let fragment ← Extract.fragment content request.extractor request.extractorParameters
  let entries ← request.scan fragment
  .ok ⟨source, request.select entries⟩

lemma includer_eq (system : FileSystem) (base : Text) (request : InclusionRequest) :
    let path := locate base request.chain request.file
    system.includer base request = unreadable path (system.canonical path) >>= fun source =>
      if source ∈ request.chain then .error (.cycle source)
      else system.contents request source := by
  simp only [includer, contents, List.contains_iff_mem]
  congr

lemma unreadable_eq_ok_iff {α : Type} {path : Text} {result : Except FileFault α} {a : α} :
    unreadable path result = .ok a ↔ result = .ok a := by
  cases result <;> simp [unreadable]

lemma unreadable_ne_cycle {α : Type} (path : Text) (result : Except FileFault α) (source : Text) :
    unreadable path result ≠ .error (.cycle source) := by
  cases result <;> simp [unreadable]

lemma fragment_ne_cycle (content : Text) (extractor parameters : Option Text) (source : Text) :
    Extract.fragment content extractor parameters ≠ .error (.cycle source) := by
  simp only [Extract.fragment, Extract.extract]
  split
  · simp
  · split
    · split <;> simp
    · simp

lemma scan_ne_cycle (request : InclusionRequest) (fragment source : Text) :
    request.scan fragment ≠ .error (.cycle source) := by
  unfold InclusionRequest.scan
  cases ParamLang.scan request.marks fragment <;> simp

lemma contents_ne_cycle (source path : Text) :
    system.contents request source ≠ .error (.cycle path) := by
  intro h
  obtain hread | ⟨content, -, h⟩ := bind_eq_error_iff.mp h
  · exact unreadable_ne_cycle _ _ _ hread
  · obtain hextract | ⟨fragment, -, h⟩ := bind_eq_error_iff.mp h
    · exact fragment_ne_cycle _ _ _ _ hextract
    · obtain hscan | ⟨entries, -, h⟩ := bind_eq_error_iff.mp h
      · exact scan_ne_cycle _ _ _ hscan
      · cases h

/-- A cycle is what is answered for a file that is among the sources being included, under whatever
path it is asked for, and for no other. -/
lemma includer_eq_cycle_iff {path : Text} :
    system.includer base request = .error (.cycle path) ↔
      system.canonical (locate base request.chain request.file) = .ok path ∧
        path ∈ request.chain := by
  rw [includer_eq, bind_eq_error_iff]
  constructor
  · rintro (h | ⟨source, hsource, h⟩)
    · exact absurd h (unreadable_ne_cycle _ _ _)
    · split at h
      · rename_i hmem
        obtain ⟨⟨⟩⟩ := h
        exact ⟨unreadable_eq_ok_iff.mp hsource, hmem⟩
      · exact absurd h (contents_ne_cycle source path)
  · rintro ⟨hpath, hmem⟩
    exact .inr ⟨path, unreadable_eq_ok_iff.mpr hpath, if_pos hmem⟩

/-- What is answered comes from a source that is not being included, and holds nothing but what the
request lets through. -/
lemma selects_of_includer {included : Included} (h : system.includer base request = .ok included) :
    included.source ∉ request.chain ∧ ∃ es, included.entries = request.select es := by
  rw [includer_eq, bind_eq_ok_iff] at h
  obtain ⟨source, -, h⟩ := h
  split at h
  · cases h
  · rename_i hmem
    simp only [contents, bind_eq_ok_iff] at h
    obtain ⟨content, -, fragment, -, entries, -, ⟨⟩⟩ := h
    exact ⟨hmem, entries, rfl⟩

end FileSystem

end ParamLang
