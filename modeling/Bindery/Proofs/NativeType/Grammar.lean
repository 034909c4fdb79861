import Bindery.NativeType.Basic
import Bindery.Proofs.Cursor
import Mathlib.Data.List.Basic

/-!
# The grammar of type expressions

A type expression is cut into seven pieces: white space, `const`, a sign qualifier, a
name, white space, marks, white space.  Which words count as qualifiers is settled by
what follows them.
-/

namespace Bindery

namespace ScopedName

/-- Scopes and name, outermost first. -/
def parts (name : ScopedName) : List String :=
  name.scopes ++ [name.name]

theorem parts_ne_nil (name : ScopedName) : name.parts ≠ [] := by
  simp [parts]

theorem parts_ofParts {parts : List String} (some : parts ≠ []) :
    (ofParts parts).parts = parts := by
  rw [ofParts, List.getLast?_eq_some_getLast some]
  exact List.dropLast_append_getLast some

theorem ofParts_parts (name : ScopedName) : ofParts name.parts = name := by
  simp [ofParts, parts]

end ScopedName

namespace Mark

theorem ofChar?_eq_some_iff {c : Char} {mark : Mark} :
    ofChar? c = some mark ↔ c = mark.toChar := by
  constructor
  · intro read
    unfold ofChar? at read
    split at read <;> cases read <;> rfl
  · rintro rfl
    exact ofChar?_toChar mark

/-- Whether a character writes a mark. -/
def isMark (c : Char) : Bool :=
  (ofChar? c).isSome

theorem isMark_iff {c : Char} : isMark c = true ↔ ∃ mark : Mark, c = mark.toChar := by
  simp only [isMark, Option.isSome_iff_exists, ofChar?_eq_some_iff]

end Mark

namespace Indirection

theorem ofChars?_eq_some_iff {chars : List Char} {marks : Indirection} :
    ofChars? chars = some marks ↔ chars = marks.map Mark.toChar := by
  rw [ofChars?]
  induction chars generalizing marks with
  | nil => simp [eq_comm]
  | cons c chars ih =>
      cases marks with
      | nil => simp [List.mapM_cons, Option.bind_eq_some_iff]
      | cons mark marks =>
          simp [List.mapM_cons, Option.bind_eq_some_iff, Mark.ofChar?_eq_some_iff, ih]

theorem exists_marks_of_forall {chars : List Char} (all : ∀ c ∈ chars, Mark.isMark c = true) :
    ∃ marks : Indirection, chars = marks.map Mark.toChar := by
  induction chars with
  | nil => exact ⟨[], rfl⟩
  | cons c chars ih =>
      rcases Mark.isMark_iff.mp (all c List.mem_cons_self) with ⟨mark, rfl⟩
      rcases ih fun other member => all other (List.mem_cons_of_mem _ member) with ⟨marks, rfl⟩
      exact ⟨mark :: marks, rfl⟩

end Indirection

namespace Grammar

open Text

/-- A letter or an underscore, followed by letters, digits and underscores. -/
structure IsIdent (chars : List Char) : Prop where
  starts : begins isIdentStart chars = true
  parts : ∀ c ∈ chars, isIdentPart c = true

/-- A word and the white space behind it. -/
def IsQualifier (word : String) (piece : List Char) : Prop :=
  ∃ blanks, IsBlanks blanks ∧ piece = word.toList ++ blanks

/-- The text of an optional `const`. -/
def SpellsConst : Bool → List Char → Prop
  | false, piece => piece = []
  | true, piece => IsQualifier "const" piece

/-- The text of an optional sign qualifier. -/
def SpellsSign : Option Signedness → List Char → Prop
  | none, piece => piece = []
  | some sign, piece => IsQualifier sign.text piece

/-- Parts of a name, joined by `::`. -/
def pathChars (parts : List String) : List Char :=
  "::".toList.intercalate (parts.map String.toList)

theorem toList_text (name : ScopedName) : name.text.toList = pathChars name.parts :=
  String.toList_intercalate

/-- The text of a name: identifiers joined by `::`, with or without one more `::` in
front. -/
def SpellsName (name : ScopedName) (piece : List Char) : Prop :=
  (∀ part ∈ name.parts, IsIdent part.toList) ∧
    ∃ scope, (scope = [] ∨ scope = "::".toList) ∧ piece = scope ++ pathChars name.parts

/-- A text starts with a whole word. -/
def WordAhead (word : String) (text : List Char) : Prop :=
  ∃ behind, text = word.toList ++ behind ∧ begins isIdentPart behind = false

/-- A text starts as a name does. -/
def NameAhead (text : List Char) : Prop :=
  begins isIdentStart text = true ∨ "::".toList <+: text

/-- A text starts with a whole word, and a name starts behind it and any white space. -/
def QualifierAhead (word : String) (text : List Char) : Prop :=
  ∃ behind, text = word.toList ++ behind ∧ begins isIdentPart behind = false ∧
    NameAhead (behind.dropWhile isBlank)

/-- A text starts with a sign qualifier, and a name starts behind it. -/
def SignAhead (text : List Char) : Prop :=
  ∃ sign : Signedness, QualifierAhead sign.text text

/-! ## Readings -/

/-- What a text is cut into. -/
structure Pieces where
  lead : List Char
  constness : List Char
  sign : List Char
  name : List Char
  gap : List Char
  marks : List Char
  trail : List Char

namespace Pieces

/-- The text behind the name. -/
def behindName (pieces : Pieces) : List Char :=
  pieces.gap ++ (pieces.marks ++ pieces.trail)

/-- The text behind the leading white space and `const`. -/
def behindConst (pieces : Pieces) : List Char :=
  pieces.sign ++ (pieces.name ++ pieces.behindName)

/-- The text behind the leading white space. -/
def behindLead (pieces : Pieces) : List Char :=
  pieces.constness ++ pieces.behindConst

/-- The whole text. -/
def text (pieces : Pieces) : List Char :=
  pieces.lead ++ pieces.behindLead

/-- The pieces are a reading of their text as a type: each spells its part, and `const`
and the sign qualifier are read exactly where the text shows them. -/
structure Spell (pieces : Pieces) (type : NativeType) : Prop where
  lead : IsBlanks pieces.lead
  constness : SpellsConst type.isConst pieces.constness
  constAhead : type.isConst = true ↔ WordAhead "const" pieces.behindLead
  sign : SpellsSign type.signedness pieces.sign
  signAhead : type.signedness.isSome = true ↔ SignAhead pieces.behindConst
  name : SpellsName type.name pieces.name
  gap : IsBlanks pieces.gap
  marks : pieces.marks = type.marks.map Mark.toChar
  trail : IsBlanks pieces.trail

/-- The pieces are a reading of what stands in front of a rest: each spells its part, the
rest has its say in where `const` and the sign qualifier are read, it continues neither the
name nor the white space behind it. -/
structure SpellBefore (pieces : Pieces) (type : NativeType) (rest : List Char) : Prop where
  lead : IsBlanks pieces.lead
  constness : SpellsConst type.isConst pieces.constness
  constAhead : type.isConst = true ↔ WordAhead "const" (pieces.behindLead ++ rest)
  sign : SpellsSign type.signedness pieces.sign
  signAhead : type.signedness.isSome = true ↔ SignAhead (pieces.behindConst ++ rest)
  name : SpellsName type.name pieces.name
  nameEnds : begins isIdentPart (pieces.behindName ++ rest) = false
  noScope : ¬ "::".toList <+: pieces.behindName ++ rest
  gap : IsBlanks pieces.gap
  marks : pieces.marks = type.marks.map Mark.toChar
  trail : IsBlanks pieces.trail
  stops : begins isBlank rest = false

end Pieces

/-- No text starts with both sign qualifiers. -/
theorem sign_eq_of_append_eq {first second : Signedness} {behind rest : List Char}
    (same : first.text.toList ++ behind = second.text.toList ++ rest) : first = second := by
  cases first <;> cases second <;> simp_all [Signedness.text]

instance (chars : List Char) : Decidable (IsIdent chars) :=
  decidable_of_iff (begins isIdentStart chars = true ∧ chars.all isIdentPart = true) <| by
    rw [List.all_eq_true]
    exact ⟨fun ident => ⟨ident.1, ident.2⟩, fun ident => ⟨ident.starts, ident.parts⟩⟩

theorem isIdent_of_begins {part behind : List Char}
    (starts : begins isIdentStart (part ++ behind) = true)
    (all : ∀ c ∈ part, isIdentPart c = true) (ends : begins isIdentPart behind = false) :
    IsIdent part := by
  refine ⟨?_, all⟩
  cases part with
  | cons c chars => exact starts
  | nil =>
      cases behind with
      | nil => exact starts
      | cons c chars =>
          rw [List.nil_append, begins_cons] at starts
          rw [begins_cons, isIdentPart_of_isIdentStart starts] at ends
          cases ends

theorem pathChars_cons (part : String) {others : List String} (more : others ≠ []) :
    pathChars (part :: others) = part.toList ++ ("::".toList ++ pathChars others) := by
  rcases List.exists_cons_of_ne_nil more with ⟨next, rest, rfl⟩
  simp [pathChars]

/-- An identifier on its own is a name. -/
theorem spellsName_simple {name : String} (ident : IsIdent name.toList) :
    SpellsName (.simple name) name.toList := by
  refine ⟨?_, [], .inl rfl, ?_⟩
  · simpa [ScopedName.parts, ScopedName.simple] using ident
  · simp [pathChars, ScopedName.parts, ScopedName.simple]

/-- A name is made of identifier characters and colons. -/
theorem isIdentPart_or_colon_of_mem_pathChars {parts : List String}
    (idents : ∀ part ∈ parts, IsIdent part.toList) :
    ∀ c ∈ pathChars parts, isIdentPart c = true ∨ c = ':' := by
  induction parts with
  | nil => exact fun c member => absurd member List.not_mem_nil
  | cons part others ih =>
      rcases List.forall_mem_cons.mp idents with ⟨ident, otherIdents⟩
      have inPart : ∀ c ∈ part.toList, isIdentPart c = true ∨ c = ':' :=
        fun c member => .inl (ident.parts c member)
      by_cases single : others = []
      · simpa [single, pathChars] using inPart
      · rw [pathChars_cons part single, List.forall_mem_append, List.forall_mem_append]
        exact ⟨inPart, fun c member => .inr (by simpa using member), ih otherIdents⟩

theorem begins_isIdentStart_pathChars {parts : List String} (some : parts ≠ [])
    (idents : ∀ part ∈ parts, IsIdent part.toList) :
    begins isIdentStart (pathChars parts) = true := by
  rcases List.exists_cons_of_ne_nil some with ⟨part, others, rfl⟩
  have starts := (idents part List.mem_cons_self).starts
  by_cases single : others = []
  · simpa [single, pathChars] using starts
  · rw [pathChars_cons part single]
    exact begins_append_of_begins starts _

/-- An identifier is no scope operator. -/
theorem not_scope_of_begins {text : List Char} (starts : begins isIdentStart text = true) :
    ¬ "::".toList <+: text := by
  rintro ⟨behind, rfl⟩
  cases starts

/-! ## Ends of pieces -/

theorem isBlanks_nil : IsBlanks [] := by
  intro c member
  cases member

theorem isBlanks_space : IsBlanks [' '] := by
  intro c member
  rw [List.mem_singleton.mp member]
  rfl

theorem begins_isBlank_spellsName {name : ScopedName} {piece : List Char}
    (spelled : SpellsName name piece) (rest : List Char) :
    begins isBlank (piece ++ rest) = false := by
  rcases spelled with ⟨idents, scope, rfl | rfl, rfl⟩
  · rw [List.nil_append]
    exact begins_isBlank_of_begins_isIdentStart
      (begins_append_of_begins (begins_isIdentStart_pathChars name.parts_ne_nil idents) rest)
  · rfl

theorem begins_isBlank_spellsSign {signedness : Option Signedness} {piece rest : List Char}
    (spelled : SpellsSign signedness piece) (stops : begins isBlank rest = false) :
    begins isBlank (piece ++ rest) = false := by
  cases signedness with
  | none =>
      cases spelled
      exact stops
  | some sign =>
      rcases spelled with ⟨blanks, -, rfl⟩
      cases sign <;> rfl

theorem begins_isBlank_spellsConst {isConst : Bool} {piece rest : List Char}
    (spelled : SpellsConst isConst piece) (stops : begins isBlank rest = false) :
    begins isBlank (piece ++ rest) = false := by
  cases isConst with
  | false =>
      cases spelled
      exact stops
  | true =>
      rcases spelled with ⟨blanks, -, rfl⟩
      rfl

theorem isMark_of_isBlank {c : Char} (blank : isBlank c = true) : Mark.isMark c = false := by
  by_contra mark
  rcases Mark.isMark_iff.mp (by simpa using mark) with ⟨_ | _, rfl⟩
  · cases blank
  · cases blank

theorem begins_isBlank_marks {marks : Indirection} (some : marks ≠ []) (rest : List Char) :
    begins isBlank (marks.map Mark.toChar ++ rest) = false := by
  rcases List.exists_cons_of_ne_nil some with ⟨_ | _, others, rfl⟩
  · rfl
  · rfl

/-- Neither white space nor a mark continues a name. -/
theorem ends_behindName {pieces : Pieces} {marks : Indirection} (gapBlank : IsBlanks pieces.gap)
    (isMarks : pieces.marks = marks.map Mark.toChar) (trailBlank : IsBlanks pieces.trail) :
    ∀ c ∈ pieces.behindName, isIdentPart c = false ∧ c ≠ ':' := by
  have ofBlank {c : Char} (blank : isBlank c = true) : isIdentPart c = false ∧ c ≠ ':' := by
    refine ⟨isIdentPart_of_isBlank blank, ?_⟩
    rintro rfl
    cases blank
  intro c member
  rcases List.mem_append.mp member with inGap | member
  · exact ofBlank (gapBlank c inGap)
  · rcases List.mem_append.mp member with inMarks | inTrail
    · rw [isMarks] at inMarks
      rcases List.mem_map.mp inMarks with ⟨mark, -, rfl⟩
      cases mark <;> decide
    · exact ofBlank (trailBlank c inTrail)

theorem not_scope_of_ends {chars : List Char}
    (ends : ∀ c ∈ chars, isIdentPart c = false ∧ c ≠ ':') : ¬ "::".toList <+: chars := by
  rintro ⟨behind, rfl⟩
  exact (ends ':' List.mem_cons_self).2 rfl

/-- No name starts in what continues no name. -/
theorem not_nameAhead_of_ends {chars : List Char}
    (ends : ∀ c ∈ chars, isIdentPart c = false ∧ c ≠ ':') : ¬ NameAhead chars := by
  rintro (starts | scope)
  · cases chars with
    | nil => cases starts
    | cons c rest =>
        have part := (ends c List.mem_cons_self).1
        rw [isIdentPart_of_isIdentStart starts] at part
        cases part
  · exact not_scope_of_ends ends scope

/-- In front of nothing the pieces are a reading of their own text. -/
theorem Pieces.spellBefore_nil_iff {pieces : Pieces} {type : NativeType} :
    pieces.SpellBefore type [] ↔ pieces.Spell type := by
  constructor
  · intro spelled
    have constAhead := spelled.constAhead
    have signAhead := spelled.signAhead
    rw [List.append_nil] at constAhead signAhead
    exact ⟨spelled.lead, spelled.constness, constAhead, spelled.sign, signAhead, spelled.name,
      spelled.gap, spelled.marks, spelled.trail⟩
  · rintro ⟨lead, constness, constAhead, sign, signAhead, name, gap, marks, trail⟩
    have ends := ends_behindName gap marks trail
    rw [← List.append_nil pieces.behindLead] at constAhead
    rw [← List.append_nil pieces.behindConst] at signAhead
    rw [← List.append_nil pieces.behindName] at ends
    exact ⟨lead, constness, constAhead, sign, signAhead, name,
      begins_eq_false_of_forall fun c member => (ends c member).1, not_scope_of_ends ends, gap,
      marks, trail, rfl⟩

end Grammar

end Bindery
