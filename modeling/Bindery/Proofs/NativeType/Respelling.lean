import Bindery.Proofs.NativeType.CleanName

/-!
# Canonical spellings that name another type

A canonical spelling is looked up by reading it once more.  Where the first part of
a name shows as a qualifier and other parts follow it, the `::` behind it is read as
the start of the name: the text names another type, whose spelling has a blank in
the place of that `::`.  All other canonical spellings stand for themselves.
-/

namespace Bindery

open Text

namespace NativeType

open Grammar

/-- The canonical spelling shows the first part of a longer name as a qualifier. -/
def Respelled (type : NativeType) : Prop :=
  type.Misread ∧ type.name.scopes ≠ []

instance (type : NativeType) : Decidable type.Respelled :=
  inferInstanceAs (Decidable (_ ∧ _))

section Parts

variable {type : NativeType} {first : String} {others : List String}

theorem constness_canonicalPieces (notConst : type.isConst = false) :
    (canonicalPieces type).constness = [] := by
  rw [canonicalPieces, notConst]
  rfl

theorem sign_canonicalPieces (unsigned : type.signedness = none) :
    (canonicalPieces type).sign = [] := by
  rw [canonicalPieces, unsigned]

theorem exists_isIdentPart_of_spellsName {name : ScopedName} {piece : List Char}
    (spelled : SpellsName name piece) : ∃ c ∈ piece, isIdentPart c = true := by
  obtain ⟨idents, scope, -, rfl⟩ := spelled
  have starts := begins_isIdentStart_pathChars name.parts_ne_nil idents
  cases path : pathChars name.parts with
  | nil =>
      rw [path] at starts
      cases starts
  | cons c rest =>
      rw [path, begins_cons] at starts
      exact ⟨c, by simp, isIdentPart_of_isIdentStart starts⟩

/-- Behind `const` no name is left to read. -/
theorem parse_canonical_ne_ok_of_lone_const (parts : type.name.parts = ["const"])
    (notConst : type.isConst = false) (unsigned : type.signedness = none) (other : NativeType) :
    parse type.canonical ≠ .ok other := by
  intro parsed
  obtain ⟨pieces, same, spelled⟩ := exists_spell_of_parse parsed
  have ident : IsIdent "const".toList := ⟨rfl, isIdentPart_const⟩
  have name : SpellsName type.name (canonicalPieces type).name := by
    refine ⟨?_, [], .inl rfl, rfl⟩
    simpa [parts] using ident
  have behindLead : pieces.behindLead = (canonicalPieces type).behindLead := by
    rw [← text_canonicalPieces] at same
    exact eq_of_blanks_append_eq spelled.lead isBlanks_nil
      (begins_isBlank_behindLead spelled.constness spelled.sign spelled.name)
      (begins_isBlank_behindLead (spellsConst_canonicalPieces type)
        (spellsSign_canonicalPieces type) name) same
  have otherConst : other.isConst = true := by
    rw [spelled.constAhead, behindLead, wordAhead_const_canonical_iff ident parts]
    exact .inr ⟨unsigned, rfl⟩
  have constness := spelled.constness
  rw [otherConst] at constness
  obtain ⟨blanks, -, isConst⟩ := constness
  have behind : blanks ++ pieces.behindConst = (canonicalPieces type).behindName := by
    have lone : (canonicalPieces type).behindLead =
        "const".toList ++ (canonicalPieces type).behindName := by
      have alone : (canonicalPieces type).name = "const".toList :=
        (congrArg pathChars parts).trans List.intercalate_singleton
      rw [Pieces.behindLead, Pieces.behindConst, constness_canonicalPieces notConst,
        sign_canonicalPieces unsigned, alone]
      rfl
    rw [lone, Pieces.behindLead, isConst, List.append_assoc] at behindLead
    exact List.append_cancel_left behindLead
  obtain ⟨c, member, isPart⟩ := exists_isIdentPart_of_spellsName spelled.name
  have noPart := (ends_behindName_canonicalPieces type c (by simp [← behind, Pieces.behindConst,
    member])).1
  rw [isPart] at noPart
  cases noPart

/-- A `::` of the first spelling is a blank in the second. -/
def ScopeDropped (spelling other : List Char) : Prop :=
  ∃ front rest, Spelling front ∧ spelling = front ++ "::".toList ++ rest ∧
    other = front ++ [' '] ++ rest

theorem ScopeDropped.length {spelling other : List Char} (dropped : ScopeDropped spelling other) :
    spelling.length = other.length + 1 := by
  obtain ⟨front, rest, -, rfl, rfl⟩ := dropped
  have scope : "::".toList.length = 2 := rfl
  simp only [List.length_append, scope, List.length_singleton]
  omega

/-- The `::` is two underscores in the identifier-safe form, and the blank is one. -/
theorem ScopeDropped.length_cleanChars {spelling other : List Char}
    (dropped : ScopeDropped spelling other) :
    (cleanChars spelling).length = (cleanChars other).length + 1 := by
  obtain ⟨front, rest, isSpelling, rfl, rfl⟩ := dropped
  have scope : cleanChars ("::".toList ++ rest) = ['_', '_'] ++ cleanChars rest := rfl
  have blank : cleanChars ([' '] ++ rest) = ['_'] ++ cleanChars rest :=
    Spelling.space.cleanChars_append rest
  rw [List.append_assoc, List.append_assoc, isSpelling.cleanChars_append,
    isSpelling.cleanChars_append, scope, blank]
  simp only [List.length_append, List.length_cons, List.length_nil]
  omega

theorem behindConst_canonicalPieces (parts : type.name.parts = first :: others) (more : others ≠ [])
    (unsigned : type.signedness = none) :
    (canonicalPieces type).behindConst =
      first.toList ++ ("::".toList ++ (pathChars others ++ (canonicalPieces type).behindName)) := by
  have name : (canonicalPieces type).name = first.toList ++ ("::".toList ++ pathChars others) :=
    (congrArg pathChars parts).trans (pathChars_cons first more)
  rw [Pieces.behindConst, sign_canonicalPieces unsigned, name, List.nil_append, List.append_assoc,
    List.append_assoc]

theorem canonical_toList (parts : type.name.parts = first :: others) (more : others ≠ [])
    (unsigned : type.signedness = none) :
    type.canonical.toList = (canonicalPieces type).constness ++ first.toList ++ "::".toList ++
      (pathChars others ++ (canonicalPieces type).behindName) := by
  rw [← text_canonicalPieces, Pieces.text, Pieces.behindLead,
    behindConst_canonicalPieces parts more unsigned, List.append_assoc, List.append_assoc]
  rfl

theorem spellsName_others (idents : ∀ part ∈ others, IsIdent part.toList) (more : others ≠ []) :
    SpellsName (ScopedName.ofParts others) ("::".toList ++ pathChars others) := by
  rw [SpellsName, ScopedName.parts_ofParts more]
  exact ⟨idents, "::".toList, .inr rfl, rfl⟩

theorem not_signAhead_scope (rest : List Char) : ¬ SignAhead ("::".toList ++ rest) := by
  rintro ⟨sign, behind, split, -⟩
  cases sign <;> cases split

/-- A first part `const` is read as the qualifier. -/
theorem parse_canonical_const (idents : ∀ part ∈ others, IsIdent part.toList)
    (parts : type.name.parts = "const" :: others) (more : others ≠ [])
    (unsigned : type.signedness = none) (notConst : type.isConst = false) :
    ∃ other, parse type.canonical = .ok other ∧
      ScopeDropped type.canonical.toList other.canonical.toList := by
  let pieces : Pieces := { canonicalPieces type with
    constness := "const".toList, sign := [], name := "::".toList ++ pathChars others }
  have isCanonical := canonical_toList parts more unsigned
  rw [constness_canonicalPieces notConst, List.nil_append] at isCanonical
  have behindConst : pieces.behindConst = "::".toList ++ (pathChars others ++ pieces.behindName) :=
    List.append_assoc _ _ _
  have text : pieces.text = type.canonical.toList := by
    rw [isCanonical, Pieces.text, Pieces.behindLead, behindConst, List.append_assoc]
    rfl
  have spelled : pieces.Spell ⟨true, none, .ofParts others, type.marks⟩ := {
    lead := isBlanks_nil
    constness := ⟨[], isBlanks_nil, (List.append_nil _).symm⟩
    constAhead := iff_of_true rfl ⟨pieces.behindConst, rfl, behindConst ▸ rfl⟩
    sign := rfl
    signAhead := iff_of_false Bool.false_ne_true (behindConst ▸ not_signAhead_scope _)
    name := spellsName_others idents more
    gap := isBlanks_gap_canonicalPieces type
    marks := rfl
    trail := isBlanks_nil }
  refine ⟨_, parse_of_spell spelled text, "const".toList, pathChars others ++ pieces.behindName,
    .of_isIdentPart isIdentPart_const, isCanonical, ?_⟩
  rw [← text_canonicalPieces, canonicalPieces, ScopedName.parts_ofParts more]
  rfl

/-- A sign qualifier as the first part is read as the qualifier. -/
theorem parse_canonical_sign {sign : Signedness} (idents : ∀ part ∈ others, IsIdent part.toList)
    (parts : type.name.parts = sign.text :: others) (more : others ≠ [])
    (unsigned : type.signedness = none) :
    ∃ other, parse type.canonical = .ok other ∧
      ScopeDropped type.canonical.toList other.canonical.toList := by
  let pieces : Pieces := { canonicalPieces type with
    sign := sign.text.toList, name := "::".toList ++ pathChars others }
  have behindConst : pieces.behindConst = (canonicalPieces type).behindConst := by
    rw [behindConst_canonicalPieces parts more unsigned, Pieces.behindConst, List.append_assoc]
    rfl
  have behindLead : pieces.behindLead = (canonicalPieces type).behindLead :=
    congrArg (pieces.constness ++ ·) behindConst
  have text : pieces.text = type.canonical.toList := by
    rw [← text_canonicalPieces, Pieces.text, behindLead]
    rfl
  have ident : IsIdent sign.text.toList := by
    refine ⟨?_, isIdentPart_sign sign⟩
    cases sign <;> rfl
  have spelled : pieces.Spell { type with signedness := some sign, name := .ofParts others } := {
    lead := isBlanks_nil
    constness := spellsConst_canonicalPieces type
    constAhead := by
      have notConst : sign.text ≠ "const" := by cases sign <;> decide
      rw [behindLead, wordAhead_const_canonical_iff ident parts]
      simp [notConst]
    sign := ⟨[], isBlanks_nil, (List.append_nil _).symm⟩
    signAhead := by
      rw [behindConst, signAhead_canonical_iff ident parts]
      exact iff_of_true rfl (.inr ⟨more, sign, rfl⟩)
    name := spellsName_others idents more
    gap := isBlanks_gap_canonicalPieces type
    marks := rfl
    trail := isBlanks_nil }
  refine ⟨_, parse_of_spell spelled text, pieces.constness ++ sign.text.toList,
    pathChars others ++ pieces.behindName, ?_, canonical_toList parts more unsigned, ?_⟩
  · exact (Spelling.constness type).append (.of_isIdentPart (isIdentPart_sign sign))
  · rw [← text_canonicalPieces, Pieces.text, Pieces.behindLead, Pieces.behindConst, canonicalPieces,
      ScopedName.parts_ofParts more]
    simp only [List.nil_append, List.append_assoc]
    rfl

end Parts

variable {text : String} {type : NativeType}

theorem canonicalSpelling_of_parse (parsed : parse text = .ok type) :
    canonicalSpelling text = type.canonical := by
  unfold canonicalSpelling
  rw [parsed]

theorem parse_canonical_of_respelled (parsed : parse text = .ok type) (respelled : type.Respelled) :
    ∃ other, parse type.canonical = .ok other ∧
      ScopeDropped type.canonical.toList other.canonical.toList := by
  obtain ⟨pieces, -, spelled⟩ := exists_spell_of_parse parsed
  obtain ⟨first, others, parts⟩ := List.exists_cons_of_ne_nil type.name.parts_ne_nil
  obtain ⟨misread, isScoped⟩ := respelled
  obtain ⟨unsigned, shown⟩ := (misread_iff parts).mp misread
  have more := (scopes_ne_nil_iff parts).mp isScoped
  have idents : ∀ part ∈ others, IsIdent part.toList := by
    intro part member
    exact spelled.name.1 part (by simp [parts, member])
  rcases shown with ⟨notConst, rfl⟩ | ⟨-, sign, rfl⟩
  · exact parse_canonical_const idents parts more unsigned notConst
  · exact parse_canonical_sign idents parts more unsigned

/-- Of the types that can be read, exactly those whose spelling shows the first part of a
longer name as a qualifier are looked up under another spelling. -/
theorem canonicalSpelling_canonical_iff (parsed : parse text = .ok type) :
    canonicalSpelling type.canonical = type.canonical ↔ ¬ type.Respelled := by
  constructor
  · intro same respelled
    obtain ⟨other, reread, dropped⟩ := parse_canonical_of_respelled parsed respelled
    rw [canonicalSpelling_of_parse reread] at same
    have length := dropped.length
    rw [← same] at length
    omega
  · intro fine
    obtain ⟨pieces, -, spelled⟩ := exists_spell_of_parse parsed
    by_cases misread : type.Misread
    · -- The name is `const` alone, and the spelling is no type at all.
      obtain ⟨first, others, parts⟩ := List.exists_cons_of_ne_nil type.name.parts_ne_nil
      have single : others = [] := by
        by_contra more
        exact fine ⟨misread, (scopes_ne_nil_iff parts).mpr more⟩
      obtain ⟨unsigned, ⟨notConst, rfl⟩ | ⟨more, -⟩⟩ := (misread_iff parts).mp misread
      · subst single
        have refused := parse_canonical_ne_ok_of_lone_const parts notConst unsigned
        unfold canonicalSpelling
        split
        · next other reread => exact absurd reread (refused other)
        · rfl
      · exact absurd single more
    · apply canonicalSpelling_of_parse
      exact (parse_canonical_iff_not_misread spelled.name.1).mpr misread

/-- The identifier-safe form differs where the spelling does. -/
theorem cleanName_canonicalSpelling_ne (parsed : parse text = .ok type)
    (respelled : type.Respelled) :
    cleanName (canonicalSpelling type.canonical) ≠ cleanName type.canonical := by
  obtain ⟨other, reread, dropped⟩ := parse_canonical_of_respelled parsed respelled
  intro same
  have length := dropped.length_cleanChars
  rw [canonicalSpelling_of_parse reread, cleanName, cleanName, String.ofList_inj] at same
  rw [same] at length
  omega

end NativeType

end Bindery
