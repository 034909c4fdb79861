import Bindery.Proofs.NativeType.Continuation

/-!
# Where reading a type stops

A text that is no type is refused at a place.  Either the text in front of the place is a
type, and the rest is too much, or a name is missing there: with any identifier in the place
of the rest, the text in front of it is a type.  What is read in front of the place is read
alike without the rest, although the rest has its say in what counts as a qualifier.
-/

namespace Bindery

open Text

namespace Grammar

/-- Parts of a name, with `::` behind each. -/
def openedChars (parts : List String) : List Char :=
  parts.flatMap fun part => part.toList ++ "::".toList

theorem pathChars_concat (parts : List String) (last : String) :
    pathChars (parts ++ [last]) = openedChars parts ++ last.toList := by
  induction parts with
  | nil => simp [pathChars, openedChars]
  | cons part others ih =>
      rw [List.cons_append, pathChars_cons part (by simp), ih]
      simp [openedChars]

/-- A name up to the place of a part: perhaps `::`, and identifiers with `::` behind each. -/
def OpensName (piece : List Char) : Prop :=
  ∃ scope parts, (scope = [] ∨ scope = "::".toList) ∧ (∀ part ∈ parts, IsIdent part.toList) ∧
    piece = scope ++ openedChars parts

namespace OpensName

variable {piece : List Char}

theorem spellsName (opens : OpensName piece) {last : String} (ident : IsIdent last.toList) :
    ∃ name, SpellsName name (piece ++ last.toList) := by
  rcases opens with ⟨scope, parts, isScope, idents, rfl⟩
  have isParts : (ScopedName.ofParts (parts ++ [last])).parts = parts ++ [last] :=
    ScopedName.parts_ofParts (by simp)
  refine ⟨.ofParts (parts ++ [last]), ?_, scope, isScope, ?_⟩
  · rw [isParts, List.forall_mem_append, List.forall_mem_singleton]
    exact ⟨idents, ident⟩
  · rw [isParts, pathChars_concat, List.append_assoc]

theorem nameAhead (opens : OpensName piece) (some : piece ≠ []) : NameAhead piece := by
  rcases opens with ⟨scope, parts, rfl | rfl, idents, rfl⟩
  · cases parts with
    | nil => exact absurd rfl some
    | cons part others =>
        have starts := (idents part List.mem_cons_self).starts
        rw [openedChars, List.flatMap_cons, List.append_assoc]
        exact .inl (begins_append_of_begins starts _)
  · exact .inr (List.prefix_append _ _)

theorem getLast?_eq (opens : OpensName piece) (opened : piece ≠ []) :
    piece.getLast? = some ':' := by
  rcases opens with ⟨scope, parts, isScope, -, rfl⟩
  rcases List.eq_nil_or_concat parts with rfl | ⟨others, last, rfl⟩
  · rcases isScope with rfl | rfl
    · exact absurd rfl opened
    · rfl
  · simp [openedChars]

end OpensName

/-! ## Types that lack a part of their name -/

/-- What a text is cut into up to the place of a part of the name. -/
structure Opening where
  lead : List Char
  constness : List Char
  sign : List Char
  name : List Char

namespace Opening

/-- The text behind the leading white space and `const`. -/
def behindConst (opening : Opening) : List Char :=
  opening.sign ++ opening.name

/-- The text behind the leading white space. -/
def behindLead (opening : Opening) : List Char :=
  opening.constness ++ opening.behindConst

/-- The whole text. -/
def text (opening : Opening) : List Char :=
  opening.lead ++ opening.behindLead

/-- In front of a rest where a part of the name is missing, the pieces are a reading of
what a type starts with. -/
structure Spell (opening : Opening) (isConst : Bool) (signedness : Option Signedness)
    (rest : List Char) : Prop where
  lead : IsBlanks opening.lead
  constness : SpellsConst isConst opening.constness
  constAhead : isConst = true ↔ WordAhead "const" (opening.behindLead ++ rest)
  sign : SpellsSign signedness opening.sign
  signAhead : signedness.isSome = true ↔ SignAhead (opening.behindConst ++ rest)
  signStops : signedness.isSome = true → begins isBlank (opening.name ++ rest) = false
  name : OpensName opening.name
  unnamed : opening.name = [] → ¬ NameAhead rest

namespace Spell

variable {opening : Opening} {isConst : Bool} {signedness : Option Signedness} {rest : List Char}
  (spelled : opening.Spell isConst signedness rest)
include spelled

/-- A word that nothing follows as a name is no sign qualifier. -/
theorem signedness_eq_none (unnamed : opening.name = []) : signedness = none := by
  by_contra signed
  rcases Option.ne_none_iff_exists'.mp signed with ⟨sign, rfl⟩
  rcases spelled.sign with ⟨blanks, blank, isSign⟩
  rcases spelled.signAhead.mp rfl with ⟨other, behind, split, -, named⟩
  have stops := spelled.signStops rfl
  rw [unnamed, List.nil_append] at stops
  rw [behindConst, isSign, unnamed, List.append_nil, List.append_assoc] at split
  cases sign_eq_of_append_eq split
  rw [List.append_cancel_left_eq] at split
  rw [← split, (takeWhile_dropWhile_append blank stops).2] at named
  exact spelled.unnamed unnamed named

/-- What is read ends in white space or a colon, unless it is nothing or `const`. -/
theorem behindLead_cases :
    opening.behindLead = [] ∨ opening.behindLead = "const".toList ∨
      ∃ c ∈ opening.behindLead.getLast?, isIdentPart c = false := by
  by_cases unnamed : opening.name = []
  · have noSign := spelled.sign
    rw [spelled.signedness_eq_none unnamed] at noSign
    have onlyConst : opening.behindLead = opening.constness := by
      rw [behindLead, behindConst, unnamed, show opening.sign = [] from noSign]
      simp
    rw [onlyConst]
    cases isConst with
    | false => exact .inl spelled.constness
    | true =>
        rcases spelled.constness with ⟨blanks, blank, isWord⟩
        rcases List.eq_nil_or_concat blanks with rfl | ⟨others, last, rfl⟩
        · exact .inr (.inl (by rw [isWord, List.append_nil]))
        · refine .inr (.inr ⟨last, ?_, isIdentPart_of_isBlank (blank last (by simp))⟩)
          rw [isWord, List.concat_eq_append, ← List.append_assoc]
          exact List.getLast?_concat
  · refine .inr (.inr ⟨':', ?_, rfl⟩)
    rw [behindLead, behindConst, ← List.append_assoc, List.getLast?_append_of_ne_nil _ unnamed]
    exact spelled.name.getLast?_eq unnamed

/-- A sign qualifier is read alike whichever identifier is put in the place of the rest. -/
theorem signAhead_iff {word : String} (ident : IsIdent word.toList) :
    signedness.isSome = true ↔ SignAhead (opening.behindConst ++ word.toList) := by
  rcases ident with ⟨starts, all⟩
  cases signed : signedness with
  | some sign =>
      have ahead := spelled.signAhead.mp (by rw [signed]; rfl)
      have qualifier := spelled.sign
      rw [signed] at qualifier
      rcases qualifier with ⟨blanks, blank, isSign⟩
      -- What makes it a qualifier stands in front of the place already.
      have opened : opening.name ≠ [] := by
        intro unnamed
        cases signed.symm.trans (spelled.signedness_eq_none unnamed)
      rw [behindConst, isSign, List.append_assoc sign.text.toList] at ahead ⊢
      have onItsOwn := signAhead_of_append rest blank (spelled.name.nameAhead opened) ahead
      exact iff_of_true rfl (onItsOwn.append word.toList)
  | none =>
      have noSign := spelled.sign
      have noneAhead := spelled.signAhead
      rw [signed] at noSign noneAhead
      have onlyName : opening.behindConst = opening.name := by
        rw [behindConst, show opening.sign = [] from noSign, List.nil_append]
      rw [onlyName] at noneAhead ⊢
      refine iff_of_false Bool.false_ne_true ?_
      by_cases unnamed : opening.name = []
      · -- An identifier on its own is a name, whatever word it is.
        rw [unnamed, List.nil_append]
        rintro ⟨sign, behind, isWord, stops, named⟩
        cases behind with
        | nil => exact not_nameAhead_nil named
        | cons c others =>
            have part := all c (by simp [isWord])
            rw [begins_cons, part] at stops
            cases stops
      · have last := spelled.name.getLast?_eq unnamed
        rw [signAhead_apart_iff (.of_last (Option.mem_def.mpr last) rfl) starts]
        rintro (ahead | ⟨sign, blanks, blank, isName⟩)
        · exact Bool.false_ne_true (noneAhead.mpr (ahead.append rest))
        · -- The name is opened by a colon, and a qualifier has none.
          have colon : ':' ∈ sign.text.toList ++ blanks := isName ▸ List.mem_of_getLast? last
          rcases List.mem_append.mp colon with inWord | inBlanks
          · cases isIdentPart_sign sign ':' inWord
          · cases blank ':' inBlanks

/-- Behind white space or a colon, any identifier completes the type. -/
theorem completed {c : Char} (isLast : c ∈ opening.behindLead.getLast?)
    (ends : isIdentPart c = false) {word : String} (ident : IsIdent word.toList) :
    ∃ name, Pieces.Spell
      ⟨opening.lead, opening.constness, opening.sign, opening.name ++ word.toList, [], [], []⟩
      ⟨isConst, signedness, name, []⟩ := by
  rcases spelled.name.spellsName ident with ⟨name, spellsName⟩
  -- No word reaches over the last character, so `const` is read alike in front of both texts.
  have constAhead : isConst = true ↔ WordAhead "const" (opening.behindLead ++ word.toList) := by
    rw [spelled.constAhead, wordAhead_apart_iff isIdentPart_const (.of_last isLast ends),
      wordAhead_apart_iff isIdentPart_const (.of_last isLast ends)]
  have signAhead := spelled.signAhead_iff ident
  rw [behindLead, List.append_assoc] at constAhead
  rw [behindConst, List.append_assoc] at constAhead signAhead
  refine ⟨name, spelled.lead, spelled.constness, ?_, spelled.sign, ?_, spellsName, isBlanks_nil,
    rfl, isBlanks_nil⟩
  · simpa [Pieces.behindLead, Pieces.behindConst, Pieces.behindName] using constAhead
  · simpa [Pieces.behindConst, Pieces.behindName] using signAhead

end Spell

end Opening

/-- A single word is a name, unless it is `const`. -/
theorem Pieces.spell_word {lead : List Char} (blank : IsBlanks lead) {word : String}
    (ident : IsIdent word.toList) (other : word ≠ "const") :
    Pieces.Spell ⟨lead, [], [], word.toList, [], [], []⟩ ⟨false, none, .simple word, []⟩ := by
  have noConst : ¬ WordAhead "const" (word.toList ++ []) := by
    rw [wordAhead_append_iff isIdentPart_const ident (begins_nil _)]
    exact other
  have noSign : ¬ SignAhead (word.toList ++ []) := by
    rintro ⟨sign, ahead⟩
    rw [qualifierAhead_append_iff (isIdentPart_sign sign) ident rfl] at ahead
    exact not_nameAhead_nil ahead.2
  exact ⟨blank, rfl, iff_of_false Bool.false_ne_true noConst, rfl,
    iff_of_false Bool.false_ne_true noSign, spellsName_simple ident, isBlanks_nil, rfl,
    isBlanks_nil⟩

end Grammar

open Grammar

namespace Cursor

variable {cursor : Cursor} {fault : Malformed}

/-- A fault at a place cuts the text there, and its offset is the number of bytes in front. -/
theorem fault_eq_of_start {text : String} {passed : List Char}
    (passes : (Cursor.start text).Passes passed cursor) (expected : Expectation) :
    text = String.ofList passed ++ String.ofList cursor.rest ∧
      cursor.fault expected = ⟨text, (String.ofList passed).utf8ByteSize, expected⟩ := by
  have isText : text.toList = passed ++ cursor.rest := passes.rest
  constructor
  · rw [← String.ofList_append, ← isText, String.ofList_toList]
  · rw [fault, passes.source, passes.offset, ← byteLength_eq_utf8ByteSize]
    simp [start]

/-! ## Readers that fail -/

theorem exists_of_readParts_error (placed : cursor.Placed)
    (failed : cursor.readParts = .error fault) :
    ∃ (parts : List String) (place : Cursor), (∀ part ∈ parts, IsIdent part.toList) ∧
      cursor.Passes (openedChars parts) place ∧ place.nextIs isIdentStart = false ∧
      fault = place.fault .typeName := by
  fun_induction readParts cursor with
  | case1 cursor starts part noScope => cases failed
  | case2 cursor starts part inner scope parts after read ih => cases failed
  | case3 cursor starts part inner scope innerFault readFault ih =>
      cases failed
      rcases (eatWhile_eq_iff placed).mp (Prod.eta part).symm with ⟨passesPart, all, ends⟩
      have passesScope := eat?_eq_some_iff.mp scope
      have innerPlaced := passesScope.placed (passesPart.placed placed)
      rcases ih innerPlaced readFault with ⟨parts, place, idents, passes, stops, isFault⟩
      refine ⟨part.1 :: parts, place, ?_, ?_, stops, isFault⟩
      · rw [nextIs_eq_begins, passesPart.rest] at starts
        exact List.forall_mem_cons.mpr ⟨isIdent_of_begins starts all ends, idents⟩
      · rw [openedChars, List.flatMap_cons]
        exact (passesPart.trans passesScope).trans passes
  | case4 cursor noStart =>
      cases failed
      exact ⟨[], cursor, by simp, .refl cursor, by simpa using noStart, rfl⟩

/-- A name fails where a part of it is missing.  If that is the first part, no name starts
at all. -/
theorem exists_of_readName_error (placed : cursor.Placed)
    (failed : cursor.readName = .error fault) :
    ∃ (piece : List Char) (place : Cursor), OpensName piece ∧ cursor.Passes piece place ∧
      place.nextIs isIdentStart = false ∧ (piece = [] → ¬ NameAhead place.rest) ∧
      fault = place.fault .typeName := by
  rw [readName, Outcome.bind_pure_eq_error_iff] at failed
  cases scope : cursor.eat? "::" with
  | none =>
      rw [scope] at failed
      rcases exists_of_readParts_error placed failed with ⟨parts, place, idents, passes, stops, rfl⟩
      refine ⟨openedChars parts, place, ⟨[], parts, .inl rfl, idents, rfl⟩, passes, stops, ?_, rfl⟩
      intro nothing
      rw [nothing, passes_nil_iff] at passes
      rw [eat?_eq_none_iff, passes, ← Bool.not_eq_true, startsWith_iff] at scope
      rintro (starts | isScope)
      · rw [← nextIs_eq_begins, stops] at starts
        cases starts
      · exact scope isScope
  | some inner =>
      rw [scope] at failed
      have lead := eat?_eq_some_iff.mp scope
      rcases exists_of_readParts_error (lead.placed placed) failed with
        ⟨parts, place, idents, passes, stops, rfl⟩
      refine ⟨"::".toList ++ openedChars parts, place,
        ⟨"::".toList, parts, .inr rfl, idents, rfl⟩, lead.trans passes, stops, ?_, rfl⟩
      intro nothing
      cases nothing

theorem expectEnd_eq_error_iff : cursor.expectEnd = .error fault ↔
    cursor.skipBlanks.rest ≠ [] ∧ cursor.skipBlanks.fault .endOfExpression = fault := by
  rw [expectEnd, atEnd]
  cases cursor.skipBlanks.rest <;> simp

/-- A type fails where its name does. -/
theorem exists_of_readType_error (placed : cursor.Placed)
    (failed : cursor.readType = .error fault) :
    ∃ isConst signedness behindConst behindSign,
      cursor.skipBlanks.readConst = (isConst, behindConst) ∧
        behindConst.readSignedness = (signedness, behindSign) ∧
        behindSign.readName = .error fault := by
  rcases readConst : cursor.skipBlanks.readConst with ⟨isConst, behindConst⟩
  rcases readSign : behindConst.readSignedness with ⟨signedness, behindSign⟩
  refine ⟨isConst, signedness, behindConst, behindSign, rfl, readSign, ?_⟩
  rcases readConst_eq_iff.mp readConst with ⟨-, _, -, passesConst, -⟩
  rcases readSignedness_eq_iff.mp readSign with ⟨-, _, -, passesSign, -⟩
  have signPlaced := passesSign.placed (passesConst.placed placed.skipBlanks)
  simp only [readType, readConst, readSign, Outcome.bind_eq_error_iff] at failed
  rcases failed with nameFailed | ⟨⟨name, behindName⟩, readName, marksFailed | ⟨_, -, pureFailed⟩⟩
  · exact nameFailed
  · rcases (readName_eq_ok_iff signPlaced).mp readName with ⟨_, -, passesName, -⟩
    rcases exists_readMarks_eq_ok (passesName.placed signPlaced).skipBlanks with ⟨_, _, read, -⟩
    rw [read] at marksFailed
    cases marksFailed
  · cases pureFailed

/-- Up to the place where it fails, the text of a type opens one. -/
theorem exists_opening_of_readType_error (placed : cursor.Placed)
    (failed : cursor.readType = .error fault) :
    ∃ (opening : Opening) (isConst : Bool) (signedness : Option Signedness) (place : Cursor),
      cursor.Passes opening.text place ∧ opening.Spell isConst signedness place.rest ∧
        place.nextIs isIdentStart = false ∧ fault = place.fault .typeName := by
  rcases exists_of_readType_error placed failed with
    ⟨isConst, signedness, behindConst, behindSign, readConst, readSign, nameFailed⟩
  rcases skipBlanks_eq_iff.mp (Eq.refl cursor.skipBlanks) with ⟨lead, passesLead, leadBlank, -⟩
  rcases readConst_eq_iff.mp readConst with ⟨constAhead, constness, spellsConst, passesConst, -⟩
  rcases readSignedness_eq_iff.mp readSign with
    ⟨signAhead, sign, spellsSign, passesSign, signStops⟩
  have signPlaced := passesSign.placed (passesConst.placed (passesLead.placed placed))
  rcases exists_of_readName_error signPlaced nameFailed with
    ⟨name, place, opens, passesName, stops, unnamed, rfl⟩
  let opening : Opening := ⟨lead, constness, sign, name⟩
  have fromConst : behindConst.Passes opening.behindConst place := passesSign.trans passesName
  have fromLead : cursor.skipBlanks.Passes opening.behindLead place :=
    passesConst.trans fromConst
  rw [fromConst.rest] at signAhead
  rw [fromLead.rest] at constAhead
  rw [nextIs_eq_begins, passesName.rest] at signStops
  exact ⟨opening, isConst, signedness, place, passesLead.trans fromLead, ⟨leadBlank, spellsConst,
    constAhead, spellsSign, signAhead, signStops, opens, unnamed⟩, stops, rfl⟩

end Cursor

namespace NativeType

variable {text : String} {fault : Malformed}

/-- An identifier completes what opens a type. -/
theorem exists_parse_of_opening {opening : Opening} {isConst : Bool}
    {signedness : Option Signedness} {rest : List Char}
    (spelled : opening.Spell isConst signedness rest) {word : String}
    (ident : IsIdent word.toList) (other : word ≠ "const") :
    ∃ type, parse (String.ofList opening.text ++ word) = .ok type := by
  rcases spelled.behindLead_cases with nothing | onlyConst | ⟨c, isLast, ends⟩
  · have isWord := Pieces.spell_word spelled.lead ident other
    exact ⟨_, parse_of_spell isWord (by simp [Pieces.text, Pieces.behindLead, Pieces.behindConst,
      Pieces.behindName, Opening.text, nothing])⟩
  · -- The identifier makes another word of `const`.
    rcases ident with ⟨starts, all⟩
    have longer : IsIdent ("const" ++ word).toList := by
      rw [String.toList_append]
      exact ⟨rfl, List.forall_mem_append.mpr ⟨isIdentPart_const, all⟩⟩
    have other : "const" ++ word ≠ "const" := by
      intro same
      rw [String.append_eq_left_iff] at same
      subst same
      cases starts
    have isWord := Pieces.spell_word spelled.lead longer other
    exact ⟨_, parse_of_spell isWord (by simp [Pieces.text, Pieces.behindLead, Pieces.behindConst,
      Pieces.behindName, Opening.text, onlyConst])⟩
  · rcases spelled.completed isLast ends ident with ⟨name, isType⟩
    exact ⟨_, parse_of_spell isType (by simp [Pieces.text, Pieces.behindLead, Pieces.behindConst,
      Pieces.behindName, Opening.text, Opening.behindLead, Opening.behindConst])⟩

theorem parse_eq_error_iff : parse text = .error fault ↔
    (Cursor.start text).readType = .error fault ∨ ∃ type behind,
      (Cursor.start text).readType = .ok (type, behind) ∧ behind.expectEnd = .error fault := by
  rw [parse, Outcome.bind_eq_error_iff]
  simp only [Outcome.bind_pure_eq_error_iff, Prod.exists]

/-- The text of a failure is the text read, and its offset cuts this text between two
characters.  Either the front is a type and something stands behind it, or a name is missing:
the rest does not start with an identifier, and any identifier but `const` in its place makes
the front a type. -/
theorem parse_fault_points (failed : parse text = .error fault) :
    fault.text = text ∧ String.Pos.Raw.IsValid text ⟨fault.offset⟩ ∧
      ∃ front behind : String, text = front ++ behind ∧ fault.offset = front.utf8ByteSize ∧
        (fault.expected = .endOfExpression ∧ fault.offset < text.utf8ByteSize ∧
            (∃ type, parse front = .ok type) ∨
          fault.expected = .typeName ∧ begins isIdentStart behind.toList = false ∧
            ∀ word : String, IsIdent word.toList → word ≠ "const" →
              ∃ type, parse (front ++ word) = .ok type) := by
  rcases parse_eq_error_iff.mp failed with failed | ⟨type, behind, read, failed⟩
  · rcases Cursor.exists_opening_of_readType_error (Cursor.placed_start text) failed with
      ⟨opening, isConst, signedness, place, passed, spelled, stops, rfl⟩
    rcases Cursor.fault_eq_of_start passed .typeName with ⟨split, isFault⟩
    rw [isFault]
    refine ⟨rfl, String.Pos.Raw.isValid_iff_exists_append.mpr ⟨_, _, split, rfl⟩, _, _, split, rfl,
      .inr ⟨rfl, ?_, fun word ident other => exists_parse_of_opening spelled ident other⟩⟩
    rw [String.toList_ofList]
    exact stops
  · rcases Cursor.exists_spellBefore_of_readType (Cursor.placed_start text) read with
      ⟨pieces, passed, spelled⟩
    rcases Cursor.expectEnd_eq_error_iff.mp failed with ⟨more, rfl⟩
    rcases Cursor.fault_eq_of_start passed .endOfExpression with ⟨split, isFault⟩
    rw [isFault]
    refine ⟨rfl, String.Pos.Raw.isValid_iff_exists_append.mpr ⟨_, _, split, rfl⟩, _, _, split, rfl,
      .inl ⟨rfl, ?_, type, parse_of_spell spelled.spell String.toList_ofList.symm⟩⟩
    have nonempty : (String.ofList behind.skipBlanks.rest).utf8ByteSize ≠ 0 := by
      rw [Ne, String.utf8ByteSize_eq_zero_iff, ← String.toList_eq_nil_iff, String.toList_ofList]
      exact more
    have size := congrArg String.utf8ByteSize split
    rw [String.utf8ByteSize_append] at size
    exact Nat.lt_of_lt_of_eq (Nat.lt_add_of_pos_right (Nat.pos_of_ne_zero nonempty)) size.symm

/-- White space and letters of several bytes: the name is missing behind eight bytes. -/
theorem parse_fault_points_wide : parse "const\u3000é" = .error ⟨"const\u3000é", 8, .typeName⟩ ∧
    ∃ front behind : String, "const\u3000é" = front ++ behind ∧ front.utf8ByteSize = 8 ∧
      ∃ type, parse (front ++ "x") = .ok type := by
  have failed : parse "const\u3000é" = .error ⟨"const\u3000é", 8, .typeName⟩ := by decide +kernel
  rcases parse_fault_points failed with
    ⟨-, -, front, behind, split, offset, ⟨isEnd, -⟩ | ⟨-, -, completes⟩⟩
  · cases isEnd
  · have completed := completes "x" (by decide +kernel) (by decide)
    exact ⟨failed, front, behind, split, offset.symm, completed⟩

/-- A qualifier without a name behind it is the name. -/
example : parse "unsigned é" = .error ⟨"unsigned é", 9, .endOfExpression⟩ := by decide +kernel

end NativeType

end Bindery
