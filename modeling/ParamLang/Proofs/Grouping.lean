import ParamLang.Proofs.Operands

/-! The grammar of entries: which tokens form values and pairs, and which is the first fault in
tokens that do not. -/
namespace ParamLang

/-- Whether the tokens after entries leave them as they are. A separator would make a name of a
value before it. -/
def Parted (es : List Entry) (rest : List Token) : Prop :=
  rest.head? = some .separator → ∀ v, es.getLast? ≠ some (.value v)

/-- The first fault in tokens: after some entries there is a separator where another entry should
begin, or a name and a separator with no value after them. -/
inductive GroupFault : List Token → Misreading → Prop
  | misplaced {es : List Entry} {rest : List Token} (h : Parted es (.separator :: rest)) :
      GroupFault (es.flatMap Entry.tokens ++ .separator :: rest) .misplacedSeparator
  | dangling (es : List Entry) (name : Text) {rest : List Token}
      (h : ∀ v, rest.head? ≠ some (.literal v)) :
      GroupFault (es.flatMap Entry.tokens ++ .literal name :: .separator :: rest) .danglingSeparator

variable {m : Marks} {t : Text} {e : Entry} {es : List Entry} {rest tokens : List Token}
  {kind : Misreading} {policy : IsolatedPolicy} {ending : Except Misread Nat} {position : Nat}

lemma parted_nil (es : List Entry) : Parted es [] := by simp [Parted]

lemma parted_literal (es : List Entry) (v : Text) (rest : List Token) :
    Parted es (.literal v :: rest) := by simp [Parted]

lemma nil_parted (rest : List Token) : Parted [] rest := by simp [Parted]

lemma parted_of_pair (es : List Entry) (name v : Text) (rest : List Token) :
    Parted (es ++ [.pair name v]) rest := by simp [Parted]

lemma Parted.of_cons (h : Parted (e :: es) rest) : Parted es rest := by
  intro hhead v hlast
  refine h hhead v ?_
  cases es with
  | nil => simp at hlast
  | cons d es => simpa using hlast

/-- An entry may stand in front of entries if the token after it leaves it as it is. -/
lemma Parted.cons (h : Parted es rest)
    (he : Parted [e] (es.flatMap Entry.tokens ++ rest)) : Parted (e :: es) rest := by
  cases es with
  | nil => exact he
  | cons d es =>
    intro hhead v
    simpa using h hhead v

lemma GroupFault.cons (h : GroupFault tokens kind) (he : Parted [e] tokens) :
    GroupFault (e.tokens ++ tokens) kind := by
  cases h with
  | @misplaced es rest hes =>
    have hmisplaced := GroupFault.misplaced (hes.cons he)
    rwa [List.flatMap_cons, List.append_assoc] at hmisplaced
  | dangling es name hrest =>
    have hdangling := GroupFault.dangling (e :: es) name hrest
    rwa [List.flatMap_cons, List.append_assoc] at hdangling

/-- Tokens are those of entries, or they have a first fault. -/
lemma groups_or_fault (tokens : List Token) :
    (∃ es : List Entry, tokens = es.flatMap Entry.tokens) ∨ ∃ kind, GroupFault tokens kind := by
  have hcons {e : Entry} {tokens : List Token} (he : Parted [e] tokens)
      (h : (∃ es : List Entry, tokens = es.flatMap Entry.tokens) ∨ ∃ kind, GroupFault tokens kind) :
      (∃ es : List Entry, e.tokens ++ tokens = es.flatMap Entry.tokens) ∨
        ∃ kind, GroupFault (e.tokens ++ tokens) kind := by
    obtain ⟨es, rfl⟩ | ⟨kind, hkind⟩ := h
    · exact .inl ⟨e :: es, rfl⟩
    · exact .inr ⟨kind, hkind.cons he⟩
  match tokens with
  | [] => exact .inl ⟨[], rfl⟩
  | .separator :: rest => exact .inr ⟨_, .misplaced (nil_parted _)⟩
  | [.literal v] => exact .inl ⟨[.value v], rfl⟩
  | .literal v :: .literal w :: rest =>
    exact hcons (e := .value v) (parted_literal _ w rest) (groups_or_fault (.literal w :: rest))
  | [.literal name, .separator] => exact .inr ⟨_, .dangling [] name (by simp)⟩
  | .literal name :: .separator :: .separator :: rest => exact .inr ⟨_, .dangling [] name (by simp)⟩
  | .literal name :: .separator :: .literal v :: rest =>
    exact hcons (e := .pair name v) (parted_of_pair [] name v rest) (groups_or_fault rest)

lemma Parted.head?_ne {v : Text} (h : Parted (.value v :: es) rest) :
    (es.flatMap Entry.tokens ++ rest).head? ≠ some .separator := by
  cases es with
  | nil => exact fun hhead => h hhead v rfl
  | cons e es =>
    intro hhead
    cases e <;> simp [Entry.tokens] at hhead

namespace EntryRun

/-- Entries are assembled one after the other up to tokens that leave them as they are. -/
lemma misread_assemble_append (position : Nat) (h : Parted es rest) {read : List (Token × Nat)}
    (hread : read.map Prod.fst = es.flatMap Entry.tokens ++ rest) :
    ∃ tail, tail.map Prod.fst = rest ∧
      (assemble .allowed (.ok position) read).misread =
        (assemble .allowed (.ok position) tail).misread := by
  induction es generalizing read with
  | nil => exact ⟨read, hread, rfl⟩
  | cons e es ih =>
    cases e with
    | value v =>
      obtain ⟨⟨tok, p⟩, read, rfl, rfl, hrest⟩ := List.map_eq_cons_iff.mp hread
      obtain ⟨tail, htail, hmisread⟩ := ih h.of_cons hrest
      refine ⟨tail, htail, ?_⟩
      rw [← hmisread, assemble_value position v p (hrest ▸ h.head?_ne)]
      rfl
    | pair name v =>
      obtain ⟨⟨tok, p⟩, read, rfl, rfl, h'⟩ := List.map_eq_cons_iff.mp hread
      obtain ⟨⟨tok', q⟩, read, rfl, rfl, h''⟩ := List.map_eq_cons_iff.mp h'
      obtain ⟨⟨tok'', r⟩, read, rfl, rfl, hrest⟩ := List.map_eq_cons_iff.mp h''
      obtain ⟨tail, htail, hmisread⟩ := ih h.of_cons hrest
      refine ⟨tail, htail, ?_⟩
      rw [← hmisread, assemble_pair]
      rfl

/-- The first fault in the tokens of a fragment is the one that ends the assembly. -/
lemma exists_misread_of_groupFault (position : Nat) (h : GroupFault tokens kind)
    {read : List (Token × Nat)} (hread : read.map Prod.fst = tokens) :
    ∃ p, (assemble .allowed (.ok position) read).misread = some ⟨kind, p⟩ := by
  cases h with
  | misplaced hes =>
    obtain ⟨tail, htail, hmisread⟩ := misread_assemble_append position hes hread
    obtain ⟨⟨tok, p⟩, tail, rfl, rfl, -⟩ := List.map_eq_cons_iff.mp htail
    exact ⟨p - 1, by rw [hmisread, assemble]; rfl⟩
  | dangling es name hrest =>
    obtain ⟨tail, htail, hmisread⟩ :=
      misread_assemble_append position (parted_literal es name _) hread
    obtain ⟨⟨tok, p⟩, tail, rfl, rfl, h'⟩ := List.map_eq_cons_iff.mp htail
    obtain ⟨⟨tok', q⟩, tail, rfl, rfl, rfl⟩ := List.map_eq_cons_iff.mp h'
    rw [hmisread]
    cases tail with
    | nil => exact ⟨position - 1, rfl⟩
    | cons head tail =>
      obtain ⟨tok, p⟩ := head
      cases tok with
      | separator => exact ⟨p - 1, rfl⟩
      | literal v => exact absurd rfl (hrest v)

lemma pair_of_mem_forbidden {read : List (Token × Nat)}
    (h : e ∈ (assemble .forbidden ending read).entries) : ∃ name v, e = .pair name v := by
  fun_induction assemble .forbidden ending read with
  | case10 name p q v r rest ih =>
    obtain rfl | h := List.mem_cons.mp h
    · exact ⟨name, v, rfl⟩
    · exact ih h
  | _ => simp_all [stopped, isolated]

lemma exists_pairEntries (h : ∀ e ∈ es, ∃ name v, e = .pair name v) :
    ∃ pairs, es = pairEntries pairs := by
  induction es with
  | nil => exact ⟨[], rfl⟩
  | cons e es ih =>
    obtain ⟨pairs, rfl⟩ := ih fun d hd => h d (List.mem_cons_of_mem e hd)
    obtain ⟨name, v, rfl⟩ := h e (by simp)
    exact ⟨(name, v) :: pairs, rfl⟩

/-- Where values without a name are forbidden, a fragment is read just when it holds pairs alone,
and then as it is read where they are allowed. -/
lemma assemble_forbidden_iff {read : List (Token × Nat)} :
    assemble .forbidden ending read = ⟨es, none⟩ ↔
      assemble .allowed ending read = ⟨es, none⟩ ∧ ∀ e ∈ es, ∃ name v, e = .pair name v := by
  constructor
  · intro h
    obtain ⟨⟨position, rfl⟩, htokens⟩ := tokens_of_assemble h
    refine ⟨assemble_tokens position es htokens, fun e he => ?_⟩
    have hmem : e ∈ (assemble .forbidden (.ok position) read).entries := by rwa [h]
    exact pair_of_mem_forbidden hmem
  · rintro ⟨h, hpairs⟩
    obtain ⟨⟨position, rfl⟩, htokens⟩ := tokens_of_assemble h
    obtain ⟨pairs, rfl⟩ := exists_pairEntries hpairs
    exact assemble_pairs .forbidden position htokens

end EntryRun

lemma scan_eq_ok_iff_ofText : scan m t = .ok es ↔ EntryRun.ofText .allowed m t = ⟨es, none⟩ := by
  generalize hrun : EntryRun.ofText .allowed m t = run
  obtain ⟨entries, _ | misread⟩ := run <;> simp [scan, hrun]

/-- The entries of a fragment in which every value must have a name. -/
lemma ofText_forbidden_iff : EntryRun.ofText .forbidden m t = ⟨es, none⟩ ↔
    scan m t = .ok es ∧ ∀ e ∈ es, ∃ name v, e = .pair name v := by
  rw [scan_eq_ok_iff_ofText]
  exact EntryRun.assemble_forbidden_iff

variable (hrun : (TokenRun.ofText m t).Gives tokens)
include hrun

lemma scan_eq_ok_iff_of_gives : scan m t = .ok es ↔ tokens = es.flatMap Entry.tokens := by
  rw [scan_eq_ok_iff]
  constructor
  · exact fun h => hrun.1.symm.trans h.1
  · exact fun h => h ▸ hrun

lemma scan_eq_error_iff_of_gives :
    (∃ position, scan m t = .error (Misread.fault ⟨kind, position⟩ t)) ↔
      GroupFault tokens kind := by
  have hfault {kind : Misreading} (h : GroupFault tokens kind) :
      ∃ position, scan m t = .error (Misread.fault ⟨kind, position⟩ t) := by
    obtain ⟨htokens, fin, hending⟩ := hrun
    obtain ⟨p, hp⟩ := EntryRun.exists_misread_of_groupFault fin h htokens
    exact ⟨p, by simp only [scan, EntryRun.ofText, EntryRun.ofTokens, hending, hp]⟩
  refine ⟨?_, hfault⟩
  rintro ⟨position, herror⟩
  obtain ⟨es, hes⟩ | ⟨found, hfound⟩ := groups_or_fault tokens
  · simp [(scan_eq_ok_iff_of_gives hrun).mpr hes] at herror
  · obtain ⟨p, hp⟩ := hfault hfound
    rw [herror] at hp
    simp only [Except.error.injEq, Misread.fault, Fault.misread.injEq] at hp
    exact hp.1 ▸ hfound

end ParamLang
