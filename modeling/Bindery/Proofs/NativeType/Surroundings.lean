import Bindery.Proofs.NativeType.Continuation

/-!
# Text around a type expression

A type expression has room for one `const` and for one run of marks.  Put in front of an
expression without `const`, or behind one without marks, they are read as part of the
type.  Otherwise they are not: with a second `const` the text is no spelling of the type
any more, and marks behind other marks are refused.
-/

namespace Bindery

open Text

namespace Grammar

section Tail

variable {front tail : List Char} (ends : ∀ c ∈ tail, isIdentPart c = false ∧ c ≠ ':')
include ends

theorem apart_of_ends : Apart front tail :=
  .of_begins (begins_eq_false_of_forall fun c member => (ends c member).1)

theorem nameAhead_of_append (named : NameAhead (front ++ tail)) : NameAhead front := by
  cases front with
  | nil => exact absurd named (not_nameAhead_of_ends ends)
  | cons first rest =>
      rcases named with starts | ⟨behind, split⟩
      · exact .inl starts
      · cases rest with
        | cons second others =>
            cases split
            exact .inr ⟨others, rfl⟩
        | nil =>
            have second : ':' :: behind = tail := (List.cons.inj split).2
            exact absurd rfl (ends ':' (second ▸ List.mem_cons_self)).2

theorem nameAhead_of_dropWhile_append (named : NameAhead ((front ++ tail).dropWhile isBlank)) :
    NameAhead (front.dropWhile isBlank) := by
  rw [List.dropWhile_append] at named
  split at named
  · have fewer : ∀ c ∈ tail.dropWhile isBlank, isIdentPart c = false ∧ c ≠ ':' :=
      fun c member => ends c ((List.dropWhile_sublist isBlank).subset member)
    exact absurd named (not_nameAhead_of_ends fewer)
  · exact nameAhead_of_append ends named

theorem signAhead_tail_iff : SignAhead (front ++ tail) ↔ SignAhead front := by
  constructor
  · rintro ⟨sign, behind, split, stops, named⟩
    have apart : Apart front tail := apart_of_ends ends
    rcases exists_behind_of_apart (isIdentPart_sign sign) apart split with ⟨rest, rfl, rfl⟩
    rw [begins_isIdentPart_of_apart (isIdentPart_sign sign) apart] at stops
    exact ⟨sign, rest, rfl, stops, nameAhead_of_dropWhile_append ends named⟩
  · exact fun ahead => ahead.append tail

end Tail

namespace Pieces

section Ahead

variable {pieces : Pieces} (ends : ∀ c ∈ pieces.behindName, isIdentPart c = false ∧ c ≠ ':')
include ends

theorem wordAhead_const_behindLead_iff :
    WordAhead "const" pieces.behindLead ↔
      WordAhead "const" (pieces.constness ++ (pieces.sign ++ pieces.name)) := by
  rw [behindLead, behindConst, ← List.append_assoc pieces.sign, ← List.append_assoc]
  exact wordAhead_apart_iff isIdentPart_const (apart_of_ends ends)

theorem signAhead_behindConst_iff :
    SignAhead pieces.behindConst ↔ SignAhead (pieces.sign ++ pieces.name) := by
  rw [behindConst, ← List.append_assoc]
  exact signAhead_tail_iff ends

end Ahead

namespace Spell

variable {pieces : Pieces} {type : NativeType}

/-- Whatever marks stand behind it, a name is read alike, and so are its qualifiers. -/
theorem withMarks (spelled : pieces.Spell type) {gap trail : List Char} (gapBlank : IsBlanks gap)
    (trailBlank : IsBlanks trail) (marks : Indirection) :
    Spell { pieces with gap := gap, marks := marks.map Mark.toChar, trail := trail }
      { type with marks := marks } := by
  have ends := ends_behindName spelled.gap spelled.marks spelled.trail
  let marked : Pieces := { pieces with gap := gap, marks := marks.map Mark.toChar, trail := trail }
  have markedEnds : ∀ c ∈ marked.behindName, isIdentPart c = false ∧ c ≠ ':' :=
    ends_behindName gapBlank rfl trailBlank
  have constAhead := (wordAhead_const_behindLead_iff ends).trans
    (wordAhead_const_behindLead_iff markedEnds).symm
  have signAhead := (signAhead_behindConst_iff ends).trans
    (signAhead_behindConst_iff markedEnds).symm
  exact ⟨spelled.lead, spelled.constness, spelled.constAhead.trans constAhead, spelled.sign,
    spelled.signAhead.trans signAhead, spelled.name, gapBlank, rfl, trailBlank⟩

/-- A first `const` is read as the qualifier, with the white space behind it. -/
theorem withConst (spelled : pieces.Spell type) :
    Spell { pieces with lead := [], constness := "const".toList ++ ' ' :: pieces.lead }
      { type with isConst := true } := by
  have blank : IsBlanks (' ' :: pieces.lead) := by
    intro c member
    rcases List.mem_cons.mp member with rfl | inLead
    · rfl
    · exact spelled.lead c inLead
  refine ⟨isBlanks_nil, ⟨_, blank, rfl⟩, iff_of_true rfl ⟨_, List.append_assoc _ _ _, rfl⟩,
    spelled.sign, spelled.signAhead, spelled.name, spelled.gap, spelled.marks, spelled.trail⟩

end Spell

end Pieces

theorem SpellsConst.eq_nil_or_qualifier {isConst : Bool} {piece : List Char}
    (spelled : SpellsConst isConst piece) :
    isConst = false ∧ piece = [] ∨ isConst = true ∧ IsQualifier "const" piece := by
  cases isConst with
  | false => exact .inl ⟨rfl, spelled⟩
  | true => exact .inr ⟨rfl, spelled⟩

theorem SpellsSign.eq_nil_or_qualifier {signedness : Option Signedness} {piece : List Char}
    (spelled : SpellsSign signedness piece) :
    signedness = none ∧ piece = [] ∨
      ∃ sign, signedness = some sign ∧ IsQualifier sign.text piece := by
  cases signedness with
  | none => exact .inl ⟨rfl, spelled⟩
  | some sign => exact .inr ⟨sign, rfl, spelled⟩

theorem isMark_of_isIdentPart {c : Char} (part : isIdentPart c = true) : Mark.isMark c = false := by
  by_contra mark
  rcases Mark.isMark_iff.mp (by simpa using mark) with ⟨_ | _, rfl⟩
  · cases part
  · cases part

theorem isMark_of_mem_scope {c : Char} (member : c ∈ "::".toList) : Mark.isMark c = false := by
  have isColon : c = ':' := by simpa using member
  rw [isColon]
  rfl

theorem isMark_of_mem_pathChars {parts : List String}
    (idents : ∀ part ∈ parts, IsIdent part.toList) :
    ∀ c ∈ pathChars parts, Mark.isMark c = false := by
  intro c member
  rcases isIdentPart_or_colon_of_mem_pathChars idents c member with isPart | rfl
  · exact isMark_of_isIdentPart isPart
  · rfl

theorem isMark_of_mem_qualifier {word : String} {piece : List Char}
    (wordParts : ∀ c ∈ word.toList, isIdentPart c = true) (qualifier : IsQualifier word piece) :
    ∀ c ∈ piece, Mark.isMark c = false := by
  rcases qualifier with ⟨blanks, blank, rfl⟩
  rw [List.forall_mem_append]
  exact ⟨fun c member => isMark_of_isIdentPart (wordParts c member),
    fun c member => isMark_of_isBlank (blank c member)⟩

/-- All marks of a spelling stand together behind everything else. -/
theorem Pieces.Spell.isMark_of_mem_front {pieces : Pieces} {type : NativeType}
    (spelled : pieces.Spell type) :
    ∀ c ∈ pieces.lead ++ (pieces.constness ++ (pieces.sign ++ (pieces.name ++ pieces.gap))),
      Mark.isMark c = false := by
  have blank {chars : List Char} (blanks : IsBlanks chars) : ∀ c ∈ chars, Mark.isMark c = false :=
    fun c member => isMark_of_isBlank (blanks c member)
  simp only [List.forall_mem_append]
  refine ⟨blank spelled.lead, ?_, ?_, ?_, blank spelled.gap⟩
  · rcases spelled.constness.eq_nil_or_qualifier with ⟨-, nothing⟩ | ⟨-, qualifier⟩
    · exact blank (nothing ▸ isBlanks_nil)
    · exact isMark_of_mem_qualifier isIdentPart_const qualifier
  · rcases spelled.sign.eq_nil_or_qualifier with ⟨-, nothing⟩ | ⟨sign, -, qualifier⟩
    · exact blank (nothing ▸ isBlanks_nil)
    · exact isMark_of_mem_qualifier (isIdentPart_sign sign) qualifier
  · rcases spelled.name with ⟨idents, scope, isScope, spelledName⟩
    rw [spelledName, List.forall_mem_append]
    refine ⟨?_, isMark_of_mem_pathChars idents⟩
    rcases isScope with rfl | rfl
    · exact blank isBlanks_nil
    · exact fun c member => isMark_of_mem_scope member

/-! ## Characters of identifiers -/

theorem countP_isIdentPart_of_ends {chars : List Char}
    (ends : ∀ c ∈ chars, isIdentPart c = false) : chars.countP isIdentPart = 0 := by
  rw [List.countP_eq_zero]
  intro c member
  rw [ends c member]
  exact Bool.false_ne_true

theorem countP_isIdentPart_qualifier {word : String} {piece : List Char}
    (wordParts : ∀ c ∈ word.toList, isIdentPart c = true) (qualifier : IsQualifier word piece) :
    piece.countP isIdentPart = word.length := by
  rcases qualifier with ⟨blanks, blank, rfl⟩
  have none := countP_isIdentPart_of_ends fun c member => isIdentPart_of_isBlank (blank c member)
  rw [List.countP_append, List.countP_eq_length.mpr wordParts, none, String.length_toList]
  rfl

/-- The identifiers of a spelling are its qualifiers and its name. -/
theorem Pieces.Spell.countP_isIdentPart_text {pieces : Pieces} {type : NativeType}
    (spelled : pieces.Spell type) :
    pieces.text.countP isIdentPart =
      (if type.isConst then "const".length else 0) +
        (type.signedness.elim 0 fun sign => sign.text.length) +
        (pathChars type.name.parts).countP isIdentPart := by
  have blank {chars : List Char} (blanks : IsBlanks chars) : chars.countP isIdentPart = 0 :=
    countP_isIdentPart_of_ends fun c member => isIdentPart_of_isBlank (blanks c member)
  have tail : pieces.behindName.countP isIdentPart = 0 := by
    have ends := ends_behindName spelled.gap spelled.marks spelled.trail
    exact countP_isIdentPart_of_ends fun c member => (ends c member).1
  have constness : pieces.constness.countP isIdentPart =
      if type.isConst then "const".length else 0 := by
    rcases spelled.constness.eq_nil_or_qualifier with ⟨isConst, nothing⟩ | ⟨isConst, qualifier⟩
    · rw [isConst, nothing]
      rfl
    · rw [isConst]
      exact countP_isIdentPart_qualifier isIdentPart_const qualifier
  have sign : pieces.sign.countP isIdentPart =
      type.signedness.elim 0 fun sign => sign.text.length := by
    rcases spelled.sign.eq_nil_or_qualifier with ⟨isNone, nothing⟩ | ⟨sign, isSome, qualifier⟩
    · rw [isNone, nothing]
      rfl
    · rw [isSome]
      exact countP_isIdentPart_qualifier (isIdentPart_sign sign) qualifier
  have name : pieces.name.countP isIdentPart =
      (pathChars type.name.parts).countP isIdentPart := by
    rcases spelled.name with ⟨-, scope, rfl | rfl, spelledName⟩
    · rw [spelledName, List.nil_append]
    · rw [spelledName, List.countP_append]
      exact Nat.zero_add _
  rw [Pieces.text, Pieces.behindLead, Pieces.behindConst, List.countP_append, List.countP_append,
    List.countP_append, List.countP_append, blank spelled.lead, constness, sign, name, tail]
  omega

end Grammar

namespace NativeType

open Grammar

variable {text : String} {type : NativeType}

/-- `const` in front of a type expression without it. -/
theorem parse_const_append (parsed : parse text = .ok type) (notConst : type.isConst = false) :
    parse ("const " ++ text) = .ok { type with isConst := true } := by
  rcases exists_spell_of_parse parsed with ⟨pieces, same, spelled⟩
  apply parse_of_spell spelled.withConst
  have none : pieces.constness = [] := by
    have constness := spelled.constness
    rwa [notConst] at constness
  rw [String.toList_append, ← same, Pieces.text, Pieces.text, Pieces.behindLead, Pieces.behindLead,
    none]
  simp [Pieces.behindConst, Pieces.behindName]

/-- Marks behind a type expression without any. -/
theorem parse_append_marks (parsed : parse text = .ok type) (unmarked : type.marks = [])
    (marks : Indirection) :
    parse (text ++ (" " ++ Indirection.text marks)) = .ok { type with marks := marks } := by
  rcases exists_spell_of_parse parsed with ⟨pieces, same, spelled⟩
  have gapBlank : IsBlanks (pieces.gap ++ (pieces.trail ++ [' '])) :=
    List.forall_mem_append.mpr
      ⟨spelled.gap, List.forall_mem_append.mpr ⟨spelled.trail, isBlanks_space⟩⟩
  apply parse_of_spell (spelled.withMarks gapBlank isBlanks_nil marks)
  have none : pieces.marks = [] := by
    rw [spelled.marks, unmarked, List.map_nil]
  rw [String.toList_append, ← same]
  simp [Pieces.text, Pieces.behindLead, Pieces.behindConst, Pieces.behindName, none,
    Indirection.text]

/-- A text with marks is refused with white space and more marks behind it. -/
theorem parse_append_marks_ne_ok {marks : Indirection} (some : marks ≠ [])
    (marked : ∃ c ∈ text.toList, Mark.isMark c = true) (type : NativeType) :
    parse (text ++ (" " ++ Indirection.text marks)) ≠ .ok type := by
  intro parsed
  rcases exists_spell_of_parse parsed with ⟨pieces, same, spelled⟩
  have isMarks : ∀ c ∈ pieces.marks, Mark.isMark c = true := by
    rw [spelled.marks, List.forall_mem_map]
    exact fun mark _ => Mark.isMark_iff.mpr ⟨mark, rfl⟩
  have notBlank : ¬ IsBlanks (' ' :: marks.map Mark.toChar) := by
    intro blank
    rcases List.exists_cons_of_ne_nil some with ⟨mark, others, rfl⟩
    have isBlank := blank mark.toChar (by simp)
    cases mark <;> cases isBlank
  have split :
      (pieces.lead ++ (pieces.constness ++ (pieces.sign ++ (pieces.name ++ pieces.gap)))) ++
        (pieces.marks ++ pieces.trail) = text.toList ++ ' ' :: marks.map Mark.toChar := by
    rw [String.toList_append] at same
    simpa [Pieces.text, Pieces.behindLead, Pieces.behindConst, Pieces.behindName,
      Indirection.text] using same
  -- The text ends inside what is read in front of the marks, or its last part is read as
  -- marks; then only white space may follow.
  rcases List.append_eq_append_iff.mp split with ⟨rest, -, behind⟩ | ⟨rest, whole, -⟩
  · rcases List.append_eq_append_iff.mp behind with ⟨last, -, trail⟩ | ⟨last, inMarks, trail⟩
    · exact notBlank fun c member => spelled.trail c (trail ▸ List.mem_append_right last member)
    · cases last with
      | nil => exact notBlank (trail ▸ spelled.trail)
      | cons c others =>
          cases (List.cons.inj trail).1
          have isMark := isMarks ' ' (by simp [inMarks])
          cases isMark
  · rcases marked with ⟨c, member, isMark⟩
    have unmarked := spelled.isMark_of_mem_front c (whole ▸ List.mem_append_left rest member)
    rw [isMark] at unmarked
    cases unmarked

/-- With one more `const` in front a text is no spelling of the type, whatever its marks. -/
theorem parse_const_append_ne_ok (parsed : parse text = .ok type) (tail : String)
    (marks : Indirection) :
    parse ("const " ++ text ++ tail) ≠ .ok { type with marks := marks } := by
  intro reparsed
  rcases exists_spell_of_parse parsed with ⟨pieces, same, spelled⟩
  rcases exists_spell_of_parse reparsed with ⟨more, sameMore, spelledMore⟩
  have count := spelledMore.countP_isIdentPart_text
  rw [sameMore, String.toList_append, String.toList_append, List.countP_append,
    List.countP_append, ← same, spelled.countP_isIdentPart_text] at count
  have five : "const ".toList.countP isIdentPart = 5 := by decide
  dsimp only at count
  omega

theorem exists_isMark_of_parse (parsed : parse text = .ok type) (some : type.marks ≠ []) :
    ∃ c ∈ text.toList, Mark.isMark c = true := by
  rcases exists_spell_of_parse parsed with ⟨pieces, same, spelled⟩
  rcases List.exists_cons_of_ne_nil some with ⟨mark, others, isMarks⟩
  refine ⟨mark.toChar, ?_, Mark.isMark_iff.mpr ⟨mark, rfl⟩⟩
  have marks := spelled.marks
  rw [isMarks] at marks
  rw [← same]
  simp [Pieces.text, Pieces.behindLead, Pieces.behindConst, Pieces.behindName, marks]

/-- Marks around a type expression that has some are refused. -/
theorem parse_around_ne_ok (parsed : parse text = .ok type) (alreadyMarked : type.marks ≠ [])
    {marks : Indirection} (some : marks ≠ []) (front : String) (other : NativeType) :
    parse (front ++ text ++ (if marks.isEmpty then "" else " " ++ Indirection.text marks)) ≠
      .ok other := by
  rw [List.isEmpty_eq_false_iff.mpr some, if_neg Bool.false_ne_true]
  rcases exists_isMark_of_parse parsed alreadyMarked with ⟨c, member, isMark⟩
  apply parse_append_marks_ne_ok some
  rw [String.toList_append]
  exact ⟨c, List.mem_append_right _ member, isMark⟩

/-- What stands around a type expression is read as part of the type exactly if there is
room for it. -/
theorem parse_around_iff (parsed : parse text = .ok type) (isConst : Bool) (marks : Indirection) :
    parse ((if isConst then "const " else "") ++ text ++
        (if marks.isEmpty then "" else " " ++ Indirection.text marks)) =
      .ok { type with isConst := isConst || type.isConst, marks := type.marks ++ marks } ↔
    ¬ (isConst = true ∧ type.isConst = true ∨ marks ≠ [] ∧ type.marks ≠ []) := by
  constructor
  · rintro around (⟨rfl, alreadyConst⟩ | ⟨some, alreadyMarked⟩)
    · rw [if_pos rfl, Bool.true_or, ← alreadyConst] at around
      exact parse_const_append_ne_ok parsed _ _ around
    · exact parse_around_ne_ok parsed alreadyMarked some _ _ around
  · intro room
    rw [not_or] at room
    have front : parse ((if isConst then "const " else "") ++ text) =
        .ok { type with isConst := isConst || type.isConst } := by
      cases isConst with
      | false => simpa using parsed
      | true => exact parse_const_append parsed (by simpa using room.1)
    by_cases none : marks = []
    · simpa [none] using front
    · have unmarked : type.marks = [] := by simpa [none] using room.2
      rw [List.isEmpty_eq_false_iff.mpr none, if_neg Bool.false_ne_true, unmarked, List.nil_append]
      exact parse_append_marks front unmarked marks

end NativeType

end Bindery
