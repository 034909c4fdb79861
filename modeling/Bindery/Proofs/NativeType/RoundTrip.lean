import Bindery.Proofs.NativeType.Reading

/-!
# Reading a canonical spelling back

A canonical spelling drops the leading `::` of a name.  Where that was all that kept the
first part of the name from being taken for a qualifier, the spelling is not read back as
the type that it spells.  It is read back in all other cases.
-/

namespace Bindery

open Text

namespace Grammar

section FirstWord

variable {word first : String} {rest : List Char}

/-- Two whole words at the start of one text are the same. -/
theorem wordAhead_append_iff (wordParts : ∀ c ∈ word.toList, isIdentPart c = true)
    (ident : IsIdent first.toList) (ends : begins isIdentPart rest = false) :
    WordAhead word (first.toList ++ rest) ↔ first = word := by
  constructor
  · rintro ⟨behind, split, behindEnds⟩
    have taken := (takeWhile_dropWhile_append ident.parts ends).1
    rw [split, (takeWhile_dropWhile_append wordParts behindEnds).1] at taken
    exact (String.toList_inj.mp taken).symm
  · rintro rfl
    exact ⟨rest, rfl, ends⟩

theorem qualifierAhead_append_iff (wordParts : ∀ c ∈ word.toList, isIdentPart c = true)
    (ident : IsIdent first.toList) (ends : begins isIdentPart rest = false) :
    QualifierAhead word (first.toList ++ rest) ↔
      first = word ∧ NameAhead (rest.dropWhile isBlank) := by
  constructor
  · rintro ⟨behind, split, behindEnds, named⟩
    have same := (wordAhead_append_iff wordParts ident ends).mp ⟨behind, split, behindEnds⟩
    subst same
    rw [List.append_cancel_left_eq] at split
    rw [split]
    exact ⟨rfl, named⟩
  · rintro ⟨rfl, named⟩
    exact ⟨rest, rfl, ends, named⟩

theorem isIdentPart_sign (sign : Signedness) : ∀ c ∈ sign.text.toList, isIdentPart c = true := by
  rw [← List.all_eq_true]
  cases sign <;> rfl

theorem isIdentPart_const : ∀ c ∈ "const".toList, isIdentPart c = true := by
  rw [← List.all_eq_true]
  rfl

end FirstWord

/-- The pieces that a canonical spelling is put together from. -/
def canonicalPieces (type : NativeType) : Pieces where
  lead := []
  constness := if type.isConst then "const".toList ++ [' '] else []
  sign :=
    match type.signedness with
    | some sign => sign.text.toList ++ [' ']
    | none => []
  name := pathChars type.name.parts
  gap := if type.marks.isEmpty then [] else [' ']
  marks := type.marks.map Mark.toChar
  trail := []

theorem text_canonicalPieces (type : NativeType) :
    (canonicalPieces type).text = type.canonical.toList := by
  rcases type with ⟨isConst, signedness, name, marks⟩
  cases isConst <;> cases signedness <;> cases marks <;>
    simp [canonicalPieces, Pieces.text, Pieces.behindLead, Pieces.behindConst,
      Pieces.behindName, NativeType.canonical, Indirection.text, toList_text]

theorem spellsConst_canonicalPieces (type : NativeType) :
    SpellsConst type.isConst (canonicalPieces type).constness := by
  rw [canonicalPieces]
  cases type.isConst with
  | false => rfl
  | true => exact ⟨[' '], isBlanks_space, rfl⟩

theorem spellsSign_canonicalPieces (type : NativeType) :
    SpellsSign type.signedness (canonicalPieces type).sign := by
  rw [canonicalPieces]
  cases type.signedness with
  | none => rfl
  | some sign => exact ⟨[' '], isBlanks_space, rfl⟩

theorem isBlanks_gap_canonicalPieces (type : NativeType) :
    IsBlanks (canonicalPieces type).gap := by
  rw [canonicalPieces]
  cases type.marks.isEmpty with
  | true => exact isBlanks_nil
  | false => exact isBlanks_space

/-- The pieces of a canonical spelling can fail to be a reading of it only in where they
show qualifiers. -/
theorem spell_canonicalPieces_iff {type : NativeType}
    (idents : ∀ part ∈ type.name.parts, IsIdent part.toList) :
    (canonicalPieces type).Spell type ↔
      (type.isConst = true ↔ WordAhead "const" (canonicalPieces type).behindLead) ∧
        (type.signedness.isSome = true ↔ SignAhead (canonicalPieces type).behindConst) := by
  constructor
  · intro spelled
    exact ⟨spelled.constAhead, spelled.signAhead⟩
  · rintro ⟨constAhead, signAhead⟩
    exact {
      lead := isBlanks_nil
      constness := spellsConst_canonicalPieces type
      constAhead := constAhead
      sign := spellsSign_canonicalPieces type
      signAhead := signAhead
      name := ⟨idents, [], .inl rfl, rfl⟩
      gap := isBlanks_gap_canonicalPieces type
      marks := rfl
      trail := isBlanks_nil }

/-- White space in front of text that does not start with any is determined by the text. -/
theorem eq_of_blanks_append_eq {blanks others first second : List Char} (blank : IsBlanks blanks)
    (otherBlank : IsBlanks others) (firstStops : begins isBlank first = false)
    (secondStops : begins isBlank second = false) (same : blanks ++ first = others ++ second) :
    first = second := by
  have dropped := (takeWhile_dropWhile_append blank firstStops).2
  rw [same, (takeWhile_dropWhile_append otherBlank secondStops).2] at dropped
  exact dropped.symm

theorem eq_of_spellsConst_append_eq {isConst : Bool} {piece other first second : List Char}
    (spelled : SpellsConst isConst piece) (otherSpelled : SpellsConst isConst other)
    (firstStops : begins isBlank first = false) (secondStops : begins isBlank second = false)
    (same : piece ++ first = other ++ second) : first = second := by
  cases isConst with
  | false =>
      cases spelled
      cases otherSpelled
      exact same
  | true =>
      rcases spelled with ⟨blanks, blank, rfl⟩
      rcases otherSpelled with ⟨others, otherBlank, rfl⟩
      rw [List.append_assoc, List.append_assoc, List.append_cancel_left_eq] at same
      exact eq_of_blanks_append_eq blank otherBlank firstStops secondStops same

theorem begins_isBlank_behindConst {pieces : Pieces} {type : NativeType}
    (sign : SpellsSign type.signedness pieces.sign) (name : SpellsName type.name pieces.name) :
    begins isBlank pieces.behindConst = false :=
  begins_isBlank_spellsSign sign (begins_isBlank_spellsName name _)

theorem begins_isBlank_behindLead {pieces : Pieces} {type : NativeType}
    (constness : SpellsConst type.isConst pieces.constness)
    (sign : SpellsSign type.signedness pieces.sign) (name : SpellsName type.name pieces.name) :
    begins isBlank pieces.behindLead = false :=
  begins_isBlank_spellsConst constness (begins_isBlank_behindConst sign name)

end Grammar

namespace NativeType

open Grammar

/-- A canonical spelling is read back exactly if its own pieces are a reading of it. -/
theorem parse_canonical_iff_spell {type : NativeType}
    (idents : ∀ part ∈ type.name.parts, IsIdent part.toList) :
    parse type.canonical = .ok type ↔ (canonicalPieces type).Spell type := by
  constructor
  · intro parsed
    rcases exists_spell_of_parse parsed with ⟨pieces, same, spelled⟩
    rw [← text_canonicalPieces] at same
    have name : SpellsName type.name (canonicalPieces type).name := ⟨idents, [], .inl rfl, rfl⟩
    have sign := spellsSign_canonicalPieces type
    have constness := spellsConst_canonicalPieces type
    have behindLead : pieces.behindLead = (canonicalPieces type).behindLead :=
      eq_of_blanks_append_eq spelled.lead isBlanks_nil
        (begins_isBlank_behindLead spelled.constness spelled.sign spelled.name)
        (begins_isBlank_behindLead constness sign name) same
    have behindConst : pieces.behindConst = (canonicalPieces type).behindConst :=
      eq_of_spellsConst_append_eq spelled.constness constness
        (begins_isBlank_behindConst spelled.sign spelled.name)
        (begins_isBlank_behindConst sign name) behindLead
    rw [spell_canonicalPieces_iff idents, ← behindLead, ← behindConst]
    exact ⟨spelled.constAhead, spelled.signAhead⟩
  · intro spelled
    exact parse_of_spell spelled (text_canonicalPieces type)

end NativeType

namespace Grammar

/-! ## Qualifiers in a canonical spelling -/

/-- What stands behind the first part of a name, given its other parts and what stands behind
the name. -/
def behindFirst (others : List String) (tail : List Char) : List Char :=
  if others = [] then tail else "::".toList ++ (pathChars others ++ tail)

section FirstPart

variable {first : String} {others : List String} {tail : List Char}

theorem pathChars_append (first : String) (others : List String) (tail : List Char) :
    pathChars (first :: others) ++ tail = first.toList ++ behindFirst others tail := by
  by_cases single : others = []
  · simp [behindFirst, pathChars, single]
  · simp [behindFirst, pathChars_cons first single, single]

theorem begins_isIdentPart_behindFirst (others : List String)
    (ends : ∀ c ∈ tail, isIdentPart c = false ∧ c ≠ ':') :
    begins isIdentPart (behindFirst others tail) = false := by
  by_cases single : others = []
  · rw [behindFirst, if_pos single]
    exact begins_eq_false_of_forall fun c member => (ends c member).1
  · rw [behindFirst, if_neg single]
    rfl

/-- Behind its first part a name goes on exactly if it has more parts. -/
theorem nameAhead_behindFirst_iff (ends : ∀ c ∈ tail, isIdentPart c = false ∧ c ≠ ':') :
    NameAhead ((behindFirst others tail).dropWhile isBlank) ↔ others ≠ [] := by
  by_cases single : others = []
  · rw [behindFirst, if_pos single]
    have fewer : ∀ c ∈ tail.dropWhile isBlank, isIdentPart c = false ∧ c ≠ ':' :=
      fun c member => ends c ((List.dropWhile_sublist isBlank).subset member)
    exact iff_of_false (not_nameAhead_of_ends fewer) (not_not.mpr single)
  · rw [behindFirst, if_neg single]
    exact ⟨fun _ => single, fun _ => .inr ⟨pathChars others ++ tail, rfl⟩⟩

theorem wordAhead_pathChars_iff {word : String}
    (wordParts : ∀ c ∈ word.toList, isIdentPart c = true) (ident : IsIdent first.toList)
    (ends : ∀ c ∈ tail, isIdentPart c = false ∧ c ≠ ':') :
    WordAhead word (pathChars (first :: others) ++ tail) ↔ first = word := by
  rw [pathChars_append]
  exact wordAhead_append_iff wordParts ident (begins_isIdentPart_behindFirst others ends)

theorem signAhead_pathChars_iff (ident : IsIdent first.toList)
    (ends : ∀ c ∈ tail, isIdentPart c = false ∧ c ≠ ':') :
    SignAhead (pathChars (first :: others) ++ tail) ↔
      others ≠ [] ∧ ∃ sign : Signedness, first = sign.text := by
  rw [pathChars_append, SignAhead, and_comm, ← exists_and_right]
  apply exists_congr
  intro sign
  rw [qualifierAhead_append_iff (isIdentPart_sign sign) ident
    (begins_isIdentPart_behindFirst others ends), nameAhead_behindFirst_iff ends]

end FirstPart

section Qualifiers

variable {type : NativeType} {first : String} {others : List String}

theorem ends_behindName_canonicalPieces (type : NativeType) :
    ∀ c ∈ (canonicalPieces type).behindName, isIdentPart c = false ∧ c ≠ ':' :=
  ends_behindName (isBlanks_gap_canonicalPieces type) rfl isBlanks_nil

theorem wordAhead_const_canonical_iff (ident : IsIdent first.toList)
    (parts : type.name.parts = first :: others) :
    WordAhead "const" (canonicalPieces type).behindLead ↔
      type.isConst = true ∨ type.signedness = none ∧ first = "const" := by
  have ends := ends_behindName_canonicalPieces type
  rcases type with ⟨isConst, signedness, name, marks⟩
  cases isConst with
  | true =>
      have ahead : WordAhead "const" (canonicalPieces ⟨true, signedness, name, marks⟩).behindLead :=
        ⟨_, List.append_assoc _ _ _, rfl⟩
      simp [ahead]
  | false =>
      cases signedness with
      | some sign =>
          have behind : ¬ WordAhead "const"
              (canonicalPieces ⟨false, some sign, name, marks⟩).behindLead := by
            rintro ⟨behind, split, _⟩
            cases sign <;> cases split
          simp [behind]
      | none =>
          have named : (canonicalPieces ⟨false, none, name, marks⟩).behindLead =
              pathChars (first :: others) ++ _ := congrArg (pathChars · ++ _) parts
          rw [named, wordAhead_pathChars_iff isIdentPart_const ident ends]
          simp

theorem signAhead_canonical_iff (ident : IsIdent first.toList)
    (parts : type.name.parts = first :: others) :
    SignAhead (canonicalPieces type).behindConst ↔
      type.signedness.isSome = true ∨ others ≠ [] ∧ ∃ sign : Signedness, first = sign.text := by
  have ends := ends_behindName_canonicalPieces type
  rcases type with ⟨isConst, signedness, name, marks⟩
  cases signedness with
  | some sign =>
      have starts : begins isIdentStart (pathChars (first :: others) ++
          (canonicalPieces ⟨isConst, some sign, name, marks⟩).behindName) = true := by
        rw [pathChars_append]
        exact begins_append_of_begins ident.starts _
      have skipped := (takeWhile_dropWhile_append isBlanks_space
        (begins_isBlank_of_begins_isIdentStart starts)).2
      have ahead : SignAhead (canonicalPieces ⟨isConst, some sign, name, marks⟩).behindConst := by
        refine ⟨sign, _, List.append_assoc _ _ _, rfl, .inl ?_⟩
        rw [← skipped, ← parts] at starts
        exact starts
      simp [ahead]
  | none =>
      have named : (canonicalPieces ⟨isConst, none, name, marks⟩).behindConst =
          pathChars (first :: others) ++ _ := congrArg (pathChars · ++ _) parts
      rw [named, signAhead_pathChars_iff ident ends]
      simp

end Qualifiers

end Grammar

namespace NativeType

open Grammar

/-- The canonical spelling shows a qualifier where the type has a part of its name: the type
has no sign qualifier, and its name starts with `const` although the type is not `const`, or with
a sign qualifier that another part follows. -/
def Misread (type : NativeType) : Prop :=
  type.signedness = none ∧
    (type.isConst = false ∧ type.name.parts.head? = some "const" ∨
      type.name.scopes ≠ [] ∧
        (type.name.parts.head? = some "signed" ∨ type.name.parts.head? = some "unsigned"))

instance (type : NativeType) : Decidable type.Misread :=
  inferInstanceAs (Decidable (_ ∧ _))

theorem scopes_ne_nil_iff {name : ScopedName} {first : String} {others : List String}
    (parts : name.parts = first :: others) : name.scopes ≠ [] ↔ others ≠ [] := by
  rw [ScopedName.parts] at parts
  cases scopes : name.scopes with
  | nil =>
      rw [scopes] at parts
      cases parts
      simp
  | cons scope inner =>
      rw [scopes] at parts
      cases parts
      simp

theorem misread_iff {type : NativeType} {first : String} {others : List String}
    (parts : type.name.parts = first :: others) :
    type.Misread ↔
      type.signedness = none ∧
        (type.isConst = false ∧ first = "const" ∨
          others ≠ [] ∧ ∃ sign : Signedness, first = sign.text) := by
  have someSign : (first = "signed" ∨ first = "unsigned") ↔
      ∃ sign : Signedness, first = sign.text := by
    constructor
    · rintro (rfl | rfl)
      · exact ⟨.signed, rfl⟩
      · exact ⟨.unsigned, rfl⟩
    · rintro ⟨_ | _, rfl⟩
      · exact .inl rfl
      · exact .inr rfl
  simp only [Misread, scopes_ne_nil_iff parts, parts, List.head?_cons, Option.some.injEq,
    someSign]

/-- A spelling of identifiers is read back unless it shows a part of the name as a
qualifier. -/
theorem parse_canonical_iff_not_misread {type : NativeType}
    (idents : ∀ part ∈ type.name.parts, IsIdent part.toList) :
    parse type.canonical = .ok type ↔ ¬ type.Misread := by
  rcases List.exists_cons_of_ne_nil type.name.parts_ne_nil with ⟨first, others, parts⟩
  have ident : IsIdent first.toList := idents first (by simp [parts])
  rw [parse_canonical_iff_spell idents, spell_canonicalPieces_iff idents,
    wordAhead_const_canonical_iff ident parts, signAhead_canonical_iff ident parts,
    misread_iff parts]
  cases type.signedness with
  | some sign => simp
  | none => cases type.isConst <;> simp

/-- The canonical spelling of a type that can be read at all is read back, unless it shows a
part of the name as a qualifier. -/
theorem parse_canonical_eq_ok_iff {text : String} {type : NativeType}
    (parsed : parse text = .ok type) :
    parse type.canonical = .ok type ↔ ¬ type.Misread := by
  rcases exists_spell_of_parse parsed with ⟨pieces, -, spelled⟩
  exact parse_canonical_iff_not_misread spelled.name.1

theorem parse_canonical_eq_ok_iff_scoped_words :
    let masked : NativeType := ⟨false, none, ⟨["const"], "x"⟩, []⟩
    let qualified : NativeType :=
      ⟨true, some .unsigned, ⟨["signed"], "const"⟩, [.pointer, .reference]⟩
    parse "::const::x" = .ok masked ∧ masked.Misread ∧
      parse masked.canonical ≠ .ok masked ∧
      parse " const unsigned ::signed::const*& " = .ok qualified ∧ ¬ qualified.Misread ∧
      parse qualified.canonical = .ok qualified := by
  intro masked qualified
  have maskedRead : parse "::const::x" = .ok masked := by decide +kernel
  have qualifiedRead : parse " const unsigned ::signed::const*& " = .ok qualified := by
    decide +kernel
  have misread : masked.Misread := ⟨rfl, .inl ⟨rfl, rfl⟩⟩
  have fine : ¬ qualified.Misread := by
    rintro ⟨unsigned, _⟩
    cases unsigned
  exact ⟨maskedRead, misread, fun same => (parse_canonical_eq_ok_iff maskedRead).mp same misread,
    qualifiedRead, fine, (parse_canonical_eq_ok_iff qualifiedRead).mpr fine⟩

end NativeType

end Bindery
