import ParamLang.Inclusion.Remap
import ParamLang.Proofs.Result
import ParamLang.Proofs.Table

/-! Entries under a remap. It keeps the pairs whose name its fragment mentions, in their order, and
gives each the name of the last mention of its own. A name that was given is not looked up again. -/
namespace ParamLang.Remap

/-- What entries become under mentions of names, each with the name it is to have. -/
inductive Renames (mentions : List (Text × Text)) : List Entry → List Entry → Prop
  | nil : Renames mentions [] []
  | isolated (value : Text) {es kept : List Entry} (rest : Renames mentions es kept) :
      Renames mentions (.value value :: es) kept
  | foreign {name : Text} (value : Text) {es kept : List Entry}
      (hname : name ∉ mentions.map Prod.fst) (rest : Renames mentions es kept) :
      Renames mentions (.pair name value :: es) kept
  | renamed {name target : Text} (value : Text) {es kept : List Entry}
      (hname : LastNamed mentions name target) (rest : Renames mentions es kept) :
      Renames mentions (.pair name value :: es) (.pair target value :: kept)

variable {m : Marks} {fragment name target value : Text} {remap : Remap}
  {entries es kept : List Entry}

/-- A fragment gives a remap just when it can be scanned. -/
lemma read_eq_ok_iff : read m fragment = .ok remap ↔
    ∃ entries, scan m fragment = .ok entries ∧ ofEntries entries = remap := by
  cases hscan : scan m fragment <;> simp [read, Except.map, hscan]

lemma find?_ofEntries : (ofEntries entries).renames.find? name = some target ↔
    LastNamed (entries.map mention) name target := lastNamed_iff.symm

lemma applyEntry_of_lastNamed (h : LastNamed (entries.map mention) name target) (value : Text) :
    (ofEntries entries).applyEntry (.pair name value) = some (.pair target value) := by
  rw [applyEntry, find?_ofEntries.mpr h, Option.map_some]

lemma applyEntry_of_not_mem (h : name ∉ (entries.map mention).map Prod.fst) (value : Text) :
    (ofEntries entries).applyEntry (.pair name value) = none := by
  have hnone : (ofEntries entries).renames.find? name = none := by
    cases hfound : (ofEntries entries).renames.find? name with
    | none => rfl
    | some target => exact absurd (exists_lastNamed_iff.mp ⟨target, find?_ofEntries.mp hfound⟩) h
  rw [applyEntry, hnone, Option.map_none]

lemma Renames.apply_eq (h : Renames (entries.map mention) es kept) :
    (ofEntries entries).apply es = kept := by
  induction h with
  | nil => rfl
  | isolated value rest ih => exact ih
  | foreign value hname rest ih =>
    rw [apply, List.filterMap_cons_none (applyEntry_of_not_mem hname value)]
    exact ih
  | renamed value hname rest ih =>
    rw [apply, List.filterMap_cons_some (applyEntry_of_lastNamed hname value)]
    exact congrArg _ ih

lemma renames_apply (entries es : List Entry) :
    Renames (entries.map mention) es ((ofEntries entries).apply es) := by
  suffices h : ∃ kept, Renames (entries.map mention) es kept by
    obtain ⟨kept, hkept⟩ := h
    rwa [hkept.apply_eq]
  induction es with
  | nil => exact ⟨[], .nil⟩
  | cons e es ih =>
    obtain ⟨kept, hkept⟩ := ih
    cases e with
    | value value => exact ⟨kept, .isolated value hkept⟩
    | pair name value =>
      by_cases hname : name ∈ (entries.map mention).map Prod.fst
      · obtain ⟨target, htarget⟩ := exists_lastNamed_iff.mpr hname
        exact ⟨_, .renamed value htarget hkept⟩
      · exact ⟨kept, .foreign value hname hkept⟩

/-- Every fragment that can be scanned gives a remap, and the remap keeps and renames just what the
fragment mentions. It takes entries one by one, whatever stands beside them, and a name that leads
to another one leads no further. -/
theorem read_renames {m : Marks} {fragment : Text} {entries : List Entry}
    (h : scan m fragment = .ok entries) :
    ∃ remap, read m fragment = .ok remap ∧
      (∀ es kept, remap.apply es = kept ↔ Renames (entries.map mention) es kept) ∧
      (∀ es es', remap.apply (es ++ es') = remap.apply es ++ remap.apply es') ∧
      ∀ name target further, LastNamed (entries.map mention) name target →
        LastNamed (entries.map mention) target further → ∀ value value',
          remap.apply [.pair name value, .pair target value'] =
            [.pair target value, .pair further value'] := by
  refine ⟨ofEntries entries, read_eq_ok_iff.mpr ⟨entries, h, rfl⟩, fun es kept => ⟨?_, ?_⟩,
    apply_append _, ?_⟩
  · rintro rfl
    exact renames_apply entries es
  · exact Renames.apply_eq
  · intro name target further hname htarget value value'
    exact Renames.apply_eq (.renamed value hname (.renamed value' htarget .nil))

/-- Names in a chain, one mentioned twice and one that stands alone. -/
theorem read_renames_chain :
    let fragment : Text := ['a', '=', 'x', ' ', 'b', '=', 'c', ' ', 'd', ' ', 'a', '=', 'b']
    let entries : List Entry :=
      [.pair ['a'] ['x'], .pair ['b'] ['c'], .value ['d'], .pair ['a'] ['b']]
    let es : List Entry := [.pair ['a'] ['1'], .value ['d'], .pair ['b'] ['2'], .pair ['x'] ['3'],
      .pair ['a'] ['1'], .pair ['d'] ['$']]
    scan .standard fragment = .ok entries ∧
      ∃ remap, read .standard fragment = .ok remap ∧
        remap.apply es = [.pair ['b'] ['1'], .pair ['c'] ['2'], .pair ['b'] ['1'],
          .pair ['d'] ['$']] := by
  intro fragment entries es
  have hscan : scan .standard fragment = .ok entries := by cbv
  obtain ⟨remap, hread, hrenames, -⟩ := read_renames hscan
  have ha : LastNamed (entries.map mention) ['a'] ['b'] :=
    ⟨[(['a'], ['x']), (['b'], ['c']), (['d'], ['d'])], [], rfl, by simp⟩
  have hb : LastNamed (entries.map mention) ['b'] ['c'] :=
    ⟨[(['a'], ['x'])], [(['d'], ['d']), (['a'], ['b'])], rfl, by simp⟩
  have hd : LastNamed (entries.map mention) ['d'] ['d'] :=
    ⟨[(['a'], ['x']), (['b'], ['c'])], [(['a'], ['b'])], rfl, by simp⟩
  have hx : ['x'] ∉ (entries.map mention).map Prod.fst := by decide
  have hkept := Renames.renamed ['1'] ha <| .isolated ['d'] <| .renamed ['2'] hb <|
    .foreign ['3'] hx <| .renamed ['1'] ha <| .renamed ['$'] hd .nil
  exact ⟨hscan, remap, hread, (hrenames es _).mpr hkept⟩

end ParamLang.Remap
