import Bindery.NativeType.Parser
import Bindery.Proofs.Cursor
import Bindery.Proofs.NativeType.Grammar
import Bindery.Proofs.Outcome

/-!
# Reading type expressions by their grammar

Every reader of the parser is described by the piece that it passes over and by what may not
follow it.  Put together, these say that reading accepts exactly the texts of the grammar and
returns the type that their pieces spell.
-/

namespace Bindery

namespace Cursor

open Text Grammar

variable {cursor after : Cursor}

theorem eatWord?_eq_some_iff {word : String} :
    cursor.eatWord? word = some after ↔
      ∃ behind : Cursor, cursor.Passes word.toList behind ∧
        behind.nextIs isIdentPart = false ∧ behind.skipBlanks = after := by
  unfold eatWord?
  constructor
  · intro eaten
    split at eaten
    · next behind passed =>
        split at eaten
        · cases eaten
        · next ends =>
            exact ⟨behind, eat?_eq_some_iff.mp passed, by simpa using ends, Option.some.inj eaten⟩
    · cases eaten
  · rintro ⟨behind, passed, ends, rfl⟩
    rw [eat?_eq_some_iff.mpr passed]
    simp [ends]

theorem exists_eatWord? {word : String} {behind : List Char}
    (split : cursor.rest = word.toList ++ behind) (ends : begins isIdentPart behind = false) :
    ∃ after, cursor.eatWord? word = some after ∧ after.rest = behind.dropWhile isBlank := by
  obtain ⟨place, passes, rfl⟩ := exists_passes split
  exact ⟨_, eatWord?_eq_some_iff.mpr ⟨place, passes, ends, rfl⟩, rest_skipBlanks place⟩

/-- Behind the word of a qualifier stands its white space, and then the place behind it. -/
theorem behind_word_eq {word : String} {blanks behind : List Char}
    (passes : cursor.Passes (word.toList ++ blanks) after)
    (split : cursor.rest = word.toList ++ behind) : behind = blanks ++ after.rest := by
  rw [passes.rest, List.append_assoc, List.append_cancel_left_eq] at split
  exact split.symm

/-- A whole word is read up to the next character that is not white space. -/
theorem eatWord?_eq_some_iff_isQualifier {word : String} :
    cursor.eatWord? word = some after ↔
      WordAhead word cursor.rest ∧ ∃ piece, IsQualifier word piece ∧
        cursor.Passes piece after ∧ after.nextIs isBlank = false := by
  constructor
  · intro eaten
    rcases eatWord?_eq_some_iff.mp eaten with ⟨behind, passesWord, ends, skipped⟩
    rcases skipBlanks_eq_iff.mp skipped with ⟨blanks, passesBlanks, blank, stops⟩
    exact ⟨⟨_, passesWord.rest, ends⟩, _, ⟨blanks, blank, rfl⟩, passesWord.trans passesBlanks,
      stops⟩
  · rintro ⟨⟨behind, split, ends⟩, _, ⟨blanks, blank, rfl⟩, passes, stops⟩
    rcases passes_append_iff.mp passes with ⟨place, passesWord, passesBlanks⟩
    rw [behind_word_eq passes split, ← passesBlanks.rest] at ends
    refine eatWord?_eq_some_iff.mpr ⟨place, passesWord, ends, ?_⟩
    exact skipBlanks_eq_iff.mpr ⟨blanks, passesBlanks, blank, stops⟩

theorem eatWord?_eq_none_iff {word : String} :
    cursor.eatWord? word = none ↔ ¬ WordAhead word cursor.rest := by
  rw [← Option.not_isSome_iff_eq_none, not_iff_not, Option.isSome_iff_exists]
  constructor
  · rintro ⟨after, eaten⟩
    exact (eatWord?_eq_some_iff_isQualifier.mp eaten).1
  · rintro ⟨behind, split, ends⟩
    rcases exists_eatWord? split ends with ⟨after, eaten, -⟩
    exact ⟨after, eaten⟩

theorem atName_iff : cursor.atName = true ↔ NameAhead cursor.rest := by
  rw [atName, Bool.or_eq_true, startsWith_iff, nextIs_eq_begins, NameAhead]

theorem eatQualifier?_eq_some_iff {word : String} :
    cursor.eatQualifier? word = some after ↔
      QualifierAhead word cursor.rest ∧ ∃ piece, IsQualifier word piece ∧
        cursor.Passes piece after ∧ after.nextIs isBlank = false := by
  rw [eatQualifier?, Option.filter_eq_some_iff, eatWord?_eq_some_iff_isQualifier, atName_iff]
  constructor
  · rintro ⟨⟨⟨behind, split, ends⟩, _, ⟨blanks, blank, rfl⟩, passes, stops⟩, named⟩
    rw [← (takeWhile_dropWhile_append blank stops).2, ← behind_word_eq passes split] at named
    exact ⟨⟨behind, split, ends, named⟩, _, ⟨blanks, blank, rfl⟩, passes, stops⟩
  · rintro ⟨⟨behind, split, ends, named⟩, _, ⟨blanks, blank, rfl⟩, passes, stops⟩
    rw [behind_word_eq passes split, (takeWhile_dropWhile_append blank stops).2] at named
    exact ⟨⟨⟨behind, split, ends⟩, _, ⟨blanks, blank, rfl⟩, passes, stops⟩, named⟩

theorem eatQualifier?_eq_none_iff {word : String} :
    cursor.eatQualifier? word = none ↔ ¬ QualifierAhead word cursor.rest := by
  rw [← Option.not_isSome_iff_eq_none, not_iff_not, Option.isSome_iff_exists]
  constructor
  · rintro ⟨after, eaten⟩
    exact (eatQualifier?_eq_some_iff.mp eaten).1
  · rintro ⟨behind, split, ends, named⟩
    rcases exists_eatWord? split ends with ⟨after, eaten, left⟩
    rw [← left] at named
    exact ⟨after, Option.filter_eq_some_iff.mpr ⟨eaten, atName_iff.mpr named⟩⟩

theorem readConst_eq_iff {isConst : Bool} :
    cursor.readConst = (isConst, after) ↔
      (isConst = true ↔ WordAhead "const" cursor.rest) ∧
        ∃ piece, SpellsConst isConst piece ∧ cursor.Passes piece after ∧
          (isConst = true → after.nextIs isBlank = false) := by
  cases isConst with
  | false =>
      have unread : cursor.readConst = (false, after) ↔
          cursor.eatWord? "const" = none ∧ cursor = after := by
        unfold readConst
        split <;> simp [*]
      rw [unread, eatWord?_eq_none_iff]
      simp [SpellsConst]
  | true =>
      have read : cursor.readConst = (true, after) ↔ cursor.eatWord? "const" = some after := by
        unfold readConst
        split <;> simp [*]
      rw [read, eatWord?_eq_some_iff_isQualifier]
      simp [SpellsConst]

theorem sign_eq_of_eatQualifier? {first second : Signedness} {afterFirst afterSecond : Cursor}
    (firstEaten : cursor.eatQualifier? first.text = some afterFirst)
    (secondEaten : cursor.eatQualifier? second.text = some afterSecond) : first = second := by
  rcases (eatQualifier?_eq_some_iff.mp firstEaten).1 with ⟨behind, split, _⟩
  rcases (eatQualifier?_eq_some_iff.mp secondEaten).1 with ⟨rest, other, _⟩
  exact sign_eq_of_append_eq (split.symm.trans other)

theorem readSignedness_eq_some_iff {sign : Signedness} :
    cursor.readSignedness = (some sign, after) ↔ cursor.eatQualifier? sign.text = some after := by
  unfold readSignedness
  cases signed : cursor.eatQualifier? "signed" with
  | some other =>
      constructor
      · intro same
        cases same
        exact signed
      · intro eaten
        have sameSign : Signedness.signed = sign := sign_eq_of_eatQualifier? signed eaten
        subst sameSign
        have samePlace : some other = some after := signed.symm.trans eaten
        rw [Option.some.inj samePlace]
  | none =>
      cases sign with
      | signed => cases cursor.eatQualifier? "unsigned" <;> simp [Signedness.text, signed]
      | unsigned =>
          cases unsigned : cursor.eatQualifier? "unsigned" <;> simp [Signedness.text, unsigned]

theorem readSignedness_eq_none_iff :
    cursor.readSignedness = (none, after) ↔ ¬ SignAhead cursor.rest ∧ cursor = after := by
  have none_iff : ¬ SignAhead cursor.rest ↔
      cursor.eatQualifier? "signed" = none ∧ cursor.eatQualifier? "unsigned" = none := by
    rw [eatQualifier?_eq_none_iff, eatQualifier?_eq_none_iff, SignAhead, not_exists]
    constructor
    · intro no
      exact ⟨no .signed, no .unsigned⟩
    · rintro ⟨noSigned, noUnsigned⟩ (_ | _)
      · exact noSigned
      · exact noUnsigned
  rw [none_iff]
  unfold readSignedness
  split
  · next signed => simp [signed]
  · next unsigned => split <;> simp [*]

theorem readSignedness_eq_iff {signedness : Option Signedness} :
    cursor.readSignedness = (signedness, after) ↔
      (signedness.isSome = true ↔ SignAhead cursor.rest) ∧
        ∃ piece, SpellsSign signedness piece ∧ cursor.Passes piece after ∧
          (signedness.isSome = true → after.nextIs isBlank = false) := by
  cases signedness with
  | none =>
      rw [readSignedness_eq_none_iff]
      simp [SpellsSign]
  | some sign =>
      rw [readSignedness_eq_some_iff, eatQualifier?_eq_some_iff]
      constructor
      · rintro ⟨ahead, piece, spelled, passed, stops⟩
        exact ⟨⟨fun _ => ⟨sign, ahead⟩, fun _ => rfl⟩, piece, spelled, passed, fun _ => stops⟩
      · rintro ⟨ahead, piece, ⟨blanks, blank, rfl⟩, passes, stops⟩
        rcases ahead.mp rfl with ⟨other, behind, split, seen⟩
        have sameText :
            sign.text.toList ++ (blanks ++ after.rest) = other.text.toList ++ behind := by
          rw [← List.append_assoc, ← passes.rest, split]
        have sameSign : sign = other := sign_eq_of_append_eq sameText
        subst sameSign
        exact ⟨⟨behind, split, seen⟩, _, ⟨blanks, blank, rfl⟩, passes, stops rfl⟩

/-! ## Names -/

theorem readParts_of_eatWhile {part : String} {behind : Cursor}
    (starts : cursor.nextIs isIdentStart = true)
    (run : cursor.eatWhile isIdentPart = (part, behind)) :
    cursor.readParts =
      match behind.eat? "::" with
      | none => .ok ([part], behind)
      | some inner => inner.readParts.map fun read => (part :: read.1, read.2) := by
  rw [readParts, if_pos starts, run]
  dsimp only
  split
  · next noScope => rw [noScope]
  · next inner scope =>
      rw [scope]
      dsimp only
      cases inner.readParts with
      | error fault => rfl
      | ok read => rfl

/-- A first part is read up to its end, and more parts follow exactly behind `::`. -/
theorem readParts_eq_ok_iff_step {parts : List String} (placed : cursor.Placed) :
    cursor.readParts = .ok (parts, after) ↔
      ∃ (part : String) (behind : Cursor), IsIdent part.toList ∧
        cursor.Passes part.toList behind ∧ behind.nextIs isIdentPart = false ∧
        (behind.startsWith "::" = false ∧ parts = [part] ∧ after = behind ∨
          ∃ (inner : Cursor) (others : List String), behind.Passes "::".toList inner ∧
            inner.readParts = .ok (others, after) ∧ parts = part :: others) := by
  constructor
  · intro read
    by_cases starts : cursor.nextIs isIdentStart = true
    · rcases run : cursor.eatWhile isIdentPart with ⟨part, behind⟩
      rw [readParts_of_eatWhile starts run] at read
      rcases (eatWhile_eq_iff placed).mp run with ⟨passes, all, ends⟩
      rw [nextIs_eq_begins, passes.rest] at starts
      refine ⟨part, behind, isIdent_of_begins starts all ends, passes, ends, ?_⟩
      cases scope : behind.eat? "::" with
      | none =>
          rw [scope] at read
          cases read
          exact .inl ⟨eat?_eq_none_iff.mp scope, rfl, rfl⟩
      | some inner =>
          rw [scope] at read
          rcases Outcome.map_eq_ok_iff.mp read with ⟨⟨others, _⟩, readOthers, same⟩
          cases same
          exact .inr ⟨inner, others, eat?_eq_some_iff.mp scope, readOthers, rfl⟩
    · rw [readParts, if_neg starts] at read
      cases read
  · rintro ⟨part, behind, ident, passes, ends, continued⟩
    have starts : cursor.nextIs isIdentStart = true := by
      rw [nextIs_eq_begins, passes.rest, begins_append_of_begins ident.starts]
    have run := (eatWhile_eq_iff placed).mpr ⟨passes, ident.parts, ends⟩
    rw [readParts_of_eatWhile starts run]
    rcases continued with ⟨noScope, rfl, rfl⟩ | ⟨inner, others, scope, readOthers, rfl⟩
    · rw [eat?_eq_none_iff.mpr noScope]
    · rw [eat?_eq_some_iff.mpr scope]
      dsimp only
      rw [readOthers]
      rfl

theorem readParts_eq_ok_iff {parts : List String} (placed : cursor.Placed) :
    cursor.readParts = .ok (parts, after) ↔
      parts ≠ [] ∧ (∀ part ∈ parts, IsIdent part.toList) ∧
        cursor.Passes (pathChars parts) after ∧ after.nextIs isIdentPart = false ∧
        after.startsWith "::" = false := by
  induction parts generalizing cursor with
  | nil =>
      rw [readParts_eq_ok_iff_step placed]
      simp
  | cons part others ih =>
      rw [readParts_eq_ok_iff_step placed, List.forall_mem_cons]
      constructor
      · rintro ⟨_, behind, ident, passes, ends,
          ⟨noScope, same, rfl⟩ | ⟨inner, _, scope, read, same⟩⟩
        · cases same
          refine ⟨List.cons_ne_nil _ _, ⟨ident, ?_⟩, ?_, ends, noScope⟩
          · simp
          · simpa [pathChars] using passes
        · cases same
          have innerPlaced := scope.placed (passes.placed placed)
          rcases (ih innerPlaced).mp read with ⟨more, idents, later, endsLast, noScope⟩
          refine ⟨List.cons_ne_nil _ _, ⟨ident, idents⟩, ?_, endsLast, noScope⟩
          rw [pathChars_cons part more]
          exact passes.trans (scope.trans later)
      · rintro ⟨-, ⟨ident, idents⟩, passes, ends, noScope⟩
        by_cases single : others = []
        · subst single
          refine ⟨part, after, ident, ?_, ends, .inl ⟨noScope, rfl, rfl⟩⟩
          simpa [pathChars] using passes
        · rw [pathChars_cons part single] at passes
          rcases passes_append_iff.mp passes with ⟨behind, passesPart, passes⟩
          rcases passes_append_iff.mp passes with ⟨inner, scope, later⟩
          have innerPlaced := scope.placed (passesPart.placed placed)
          refine ⟨part, behind, ident, passesPart, ?_, .inr ⟨inner, others, scope, ?_, rfl⟩⟩
          · rw [nextIs_eq_begins, scope.rest]
            rfl
          · exact (ih innerPlaced).mpr ⟨single, idents, later, ends, noScope⟩

theorem readName_eq_ok_iff {name : ScopedName} (placed : cursor.Placed) :
    cursor.readName = .ok (name, after) ↔
      ∃ piece, SpellsName name piece ∧ cursor.Passes piece after ∧
        after.nextIs isIdentPart = false ∧ after.startsWith "::" = false := by
  rw [readName, Outcome.bind_eq_ok_iff]
  constructor
  · rintro ⟨⟨parts, _⟩, read, same⟩
    cases same
    cases scope : cursor.eat? "::" with
    | none =>
        rw [scope] at read
        rcases (readParts_eq_ok_iff placed).mp read with ⟨some, idents, passes, ends, noScope⟩
        rw [← ScopedName.parts_ofParts some] at idents passes
        exact ⟨_, ⟨idents, [], .inl rfl, rfl⟩, passes, ends, noScope⟩
    | some inner =>
        rw [scope] at read
        have lead := eat?_eq_some_iff.mp scope
        rcases (readParts_eq_ok_iff (lead.placed placed)).mp read with
          ⟨some, idents, passes, ends, noScope⟩
        rw [← ScopedName.parts_ofParts some] at idents passes
        exact ⟨_, ⟨idents, "::".toList, .inr rfl, rfl⟩, lead.trans passes, ends, noScope⟩
  · rintro ⟨_, ⟨idents, scope, isScope, rfl⟩, passes, ends, noScope⟩
    have some := name.parts_ne_nil
    have named : (pure (ScopedName.ofParts name.parts, after) : Except Malformed _) =
        .ok (name, after) := by
      rw [ScopedName.ofParts_parts]
      rfl
    refine ⟨(name.parts, after), ?_, named⟩
    rcases isScope with rfl | rfl
    · rw [List.nil_append] at passes
      have noLead : cursor.eat? "::" = none := by
        rw [eat?_eq_none_iff, ← Bool.not_eq_true, startsWith_iff, passes.rest]
        exact not_scope_of_begins
          (begins_append_of_begins (begins_isIdentStart_pathChars some idents) _)
      rw [noLead]
      exact (readParts_eq_ok_iff placed).mpr ⟨some, idents, passes, ends, noScope⟩
    · rcases passes_append_iff.mp passes with ⟨inner, lead, passes⟩
      rw [eat?_eq_some_iff.mpr lead]
      exact (readParts_eq_ok_iff (lead.placed placed)).mpr ⟨some, idents, passes, ends, noScope⟩

theorem readMarks_of_passes {marks : Indirection} (placed : cursor.Placed)
    (passes : cursor.Passes (marks.map Mark.toChar) after)
    (ends : after.nextIs Mark.isMark = false) : cursor.readMarks = .ok (marks, after) := by
  have run : cursor.eatWhile (fun c => (Mark.ofChar? c).isSome) =
      (String.ofList (marks.map Mark.toChar), after) := by
    rw [eatWhile_eq_iff placed, String.toList_ofList]
    refine ⟨passes, ?_, ends⟩
    intro c member
    rcases List.mem_map.mp member with ⟨mark, -, rfl⟩
    exact Mark.isMark_iff.mpr ⟨mark, rfl⟩
  have written : Indirection.ofText? (String.ofList (marks.map Mark.toChar)) = some marks := by
    rw [Indirection.ofText?, String.toList_ofList]
    exact Indirection.ofChars?_eq_some_iff.mpr rfl
  rw [readMarks, run]
  dsimp only
  rw [written]

/-- Marks are read wherever they stand. -/
theorem exists_readMarks_eq_ok (placed : cursor.Placed) :
    ∃ marks after, cursor.readMarks = .ok (marks, after) ∧
      cursor.Passes (marks.map Mark.toChar) after ∧ after.nextIs Mark.isMark = false := by
  rcases run : cursor.eatWhile Mark.isMark with ⟨text, after⟩
  rcases (eatWhile_eq_iff placed).mp run with ⟨passes, all, ends⟩
  rcases Indirection.exists_marks_of_forall all with ⟨marks, spelled⟩
  rw [spelled] at passes
  exact ⟨marks, after, readMarks_of_passes placed passes ends, passes, ends⟩

/-- Marks are read as far as they go; there is nothing to refuse in them. -/
theorem readMarks_eq_ok_iff {marks : Indirection} (placed : cursor.Placed) :
    cursor.readMarks = .ok (marks, after) ↔
      cursor.Passes (marks.map Mark.toChar) after ∧ after.nextIs Mark.isMark = false := by
  constructor
  · intro read
    rcases exists_readMarks_eq_ok placed with ⟨_, _, readSome, passes, ends⟩
    cases readSome.symm.trans read
    exact ⟨passes, ends⟩
  · rintro ⟨passes, ends⟩
    exact readMarks_of_passes placed passes ends

/-- Marks between white space are read to the last, in front of what is neither. -/
theorem exists_readMarks {gap trail rest : List Char} {marks : Indirection}
    (placed : cursor.Placed) (gapBlank : IsBlanks gap) (trailBlank : IsBlanks trail)
    (stops : begins isBlank rest = false) (noMark : begins Mark.isMark rest = false)
    (split : cursor.rest = gap ++ (marks.map Mark.toChar ++ (trail ++ rest))) :
    ∃ behind : Cursor, cursor.skipBlanks.readMarks = .ok (marks, behind) ∧
      behind.skipBlanks.rest = rest := by
  by_cases none : marks = []
  · -- Without marks, the white space on both sides of them is skipped at once.
    subst none
    have skipped : cursor.skipBlanks.rest = rest := by
      have blank : IsBlanks (gap ++ trail) := List.forall_mem_append.mpr ⟨gapBlank, trailBlank⟩
      rw [rest_skipBlanks, split, List.map_nil, List.nil_append, ← List.append_assoc]
      exact (takeWhile_dropWhile_append blank stops).2
    refine ⟨cursor.skipBlanks, (readMarks_eq_ok_iff placed.skipBlanks).mpr ⟨.refl _, ?_⟩, ?_⟩
    · rw [nextIs_eq_begins, skipped, noMark]
    · rw [rest_skipBlanks, skipped]
      exact (takeWhile_dropWhile_append isBlanks_nil stops).2
  · obtain ⟨atMarks, passesGap, marksRest⟩ := exists_passes split
    obtain ⟨behind, passesMarks, left⟩ := exists_passes marksRest
    have skipped : cursor.skipBlanks = atMarks := by
      refine skipBlanks_eq_iff.mpr ⟨gap, passesGap, gapBlank, ?_⟩
      rw [nextIs_eq_begins, marksRest]
      exact begins_isBlank_marks none _
    rw [skipped]
    refine ⟨behind, (readMarks_eq_ok_iff (passesGap.placed placed)).mpr ⟨passesMarks, ?_⟩, ?_⟩
    · rw [nextIs_eq_begins, left]
      cases trail with
      | nil => exact noMark
      | cons c trail => exact isMark_of_isBlank (trailBlank c List.mem_cons_self)
    · rw [rest_skipBlanks, left]
      exact (takeWhile_dropWhile_append trailBlank stops).2

theorem rest_skipBlanks_eq_nil_iff : cursor.skipBlanks.rest = [] ↔ IsBlanks cursor.rest := by
  rw [rest_skipBlanks, List.dropWhile_eq_nil_iff, IsBlanks]

theorem expectEnd_eq_ok_iff : cursor.expectEnd = .ok () ↔ IsBlanks cursor.rest := by
  rw [expectEnd, atEnd, ← rest_skipBlanks_eq_nil_iff]
  cases cursor.skipBlanks.rest <;> simp

/-! ## Types -/

theorem readType_eq_ok_iff {type : NativeType} :
    cursor.readType = .ok (type, after) ↔
      ∃ behindConst behindSign behindName : Cursor,
        cursor.skipBlanks.readConst = (type.isConst, behindConst) ∧
        behindConst.readSignedness = (type.signedness, behindSign) ∧
        behindSign.readName = .ok (type.name, behindName) ∧
        behindName.skipBlanks.readMarks = .ok (type.marks, after) := by
  rcases readConst : cursor.skipBlanks.readConst with ⟨isConst, behindConst⟩
  rcases readSign : behindConst.readSignedness with ⟨signedness, behindSign⟩
  simp only [readType, readConst, readSign, Outcome.bind_eq_ok_iff, Outcome.pure_eq_ok_iff]
  constructor
  · rintro ⟨⟨name, behindName⟩, readName, ⟨marks, behind⟩, readMarks, same⟩
    cases same
    exact ⟨behindConst, behindSign, behindName, rfl, readSign, readName, readMarks⟩
  · rintro ⟨_, _, behindName, sameConst, sameSign, readName, readMarks⟩
    cases sameConst
    cases readSign.symm.trans sameSign
    exact ⟨(type.name, behindName), readName, (type.marks, after), readMarks, rfl⟩

/-- What is read is cut into pieces that spell it, up to the next character that is not
white space. -/
theorem exists_spellBefore_of_readType {type : NativeType} (placed : cursor.Placed)
    (read : cursor.readType = .ok (type, after)) :
    ∃ pieces : Pieces, cursor.Passes pieces.text after.skipBlanks ∧
      pieces.SpellBefore type after.skipBlanks.rest := by
  rcases readType_eq_ok_iff.mp read with
    ⟨behindConst, behindSign, behindName, readConst, readSign, readName, readMarks⟩
  rcases skipBlanks_eq_iff.mp (Eq.refl cursor.skipBlanks) with ⟨lead, passesLead, leadBlank, -⟩
  rcases readConst_eq_iff.mp readConst with ⟨constAhead, constness, spellsConst, passesConst, -⟩
  rcases readSignedness_eq_iff.mp readSign with ⟨signAhead, sign, spellsSign, passesSign, -⟩
  have signPlaced := passesSign.placed (passesConst.placed (passesLead.placed placed))
  rcases (readName_eq_ok_iff signPlaced).mp readName with
    ⟨name, spellsName, passesName, nameEnds, noScope⟩
  rcases skipBlanks_eq_iff.mp (Eq.refl behindName.skipBlanks) with ⟨gap, passesGap, gapBlank, -⟩
  have marksPlaced := passesGap.placed (passesName.placed signPlaced)
  rcases (readMarks_eq_ok_iff marksPlaced).mp readMarks with ⟨passesMarks, -⟩
  rcases skipBlanks_eq_iff.mp (Eq.refl after.skipBlanks) with
    ⟨trail, passesTrail, trailBlank, stops⟩
  let pieces : Pieces := ⟨lead, constness, sign, name, gap, type.marks.map Mark.toChar, trail⟩
  have fromName : behindName.Passes pieces.behindName after.skipBlanks :=
    passesGap.trans (passesMarks.trans passesTrail)
  have fromConst : behindConst.Passes pieces.behindConst after.skipBlanks :=
    passesSign.trans (passesName.trans fromName)
  have fromLead : cursor.skipBlanks.Passes pieces.behindLead after.skipBlanks :=
    passesConst.trans fromConst
  rw [nextIs_eq_begins, fromName.rest] at nameEnds
  rw [← Bool.not_eq_true, startsWith_iff, fromName.rest] at noScope
  rw [fromConst.rest] at signAhead
  rw [fromLead.rest] at constAhead
  exact ⟨pieces, passesLead.trans fromLead, leadBlank, spellsConst, constAhead, spellsSign,
    signAhead, spellsName, nameEnds, noScope, gapBlank, rfl, trailBlank, stops⟩

/-- Pieces that spell a type are read as it, in front of anything but a mark. -/
theorem readType_of_spellBefore {pieces : Pieces} {type : NativeType} {rest : List Char}
    (placed : cursor.Placed) (spelled : pieces.SpellBefore type rest)
    (noMark : begins Mark.isMark rest = false) (split : cursor.rest = pieces.text ++ rest) :
    ∃ behind : Cursor, cursor.readType = .ok (type, behind) ∧ behind.skipBlanks.rest = rest := by
  -- The places between the pieces; every reader comes from one of them to the next.
  simp only [Pieces.text, Pieces.behindLead, Pieces.behindConst, List.append_assoc] at split
  obtain ⟨behindLead, passesLead, leadRest⟩ := exists_passes split
  obtain ⟨behindConst, passesConst, constRest⟩ := exists_passes leadRest
  obtain ⟨behindSign, passesSign, signRest⟩ := exists_passes constRest
  obtain ⟨behindName, passesName, nameRest⟩ := exists_passes signRest
  have signPlaced := passesSign.placed (passesConst.placed (passesLead.placed placed))
  have atName : behindSign.nextIs isBlank = false := by
    rw [nextIs_eq_begins, signRest]
    exact begins_isBlank_spellsName spelled.name _
  have atSign : behindConst.nextIs isBlank = false := by
    rw [nextIs_eq_begins, passesSign.rest]
    exact begins_isBlank_spellsSign spelled.sign atName
  have atConst : behindLead.nextIs isBlank = false := by
    rw [nextIs_eq_begins, passesConst.rest]
    exact begins_isBlank_spellsConst spelled.constness atSign
  have skippedLead : cursor.skipBlanks = behindLead :=
    skipBlanks_eq_iff.mpr ⟨pieces.lead, passesLead, spelled.lead, atConst⟩
  have readConst : behindLead.readConst = (type.isConst, behindConst) := by
    refine readConst_eq_iff.mpr ⟨?_, _, spelled.constness, passesConst, fun _ => atSign⟩
    simpa [leadRest, Pieces.behindLead, Pieces.behindConst] using spelled.constAhead
  have readSign : behindConst.readSignedness = (type.signedness, behindSign) := by
    refine readSignedness_eq_iff.mpr ⟨?_, _, spelled.sign, passesSign, fun _ => atName⟩
    simpa [constRest, Pieces.behindConst] using spelled.signAhead
  have readName : behindSign.readName = .ok (type.name, behindName) := by
    refine (readName_eq_ok_iff signPlaced).mpr ⟨_, spelled.name, passesName, ?_, ?_⟩
    · rw [nextIs_eq_begins, nameRest]
      exact spelled.nameEnds
    · rw [← Bool.not_eq_true, startsWith_iff, nameRest]
      exact spelled.noScope
  have marksRest : behindName.rest =
      pieces.gap ++ (type.marks.map Mark.toChar ++ (pieces.trail ++ rest)) := by
    rw [nameRest, Pieces.behindName, ← spelled.marks, List.append_assoc, List.append_assoc]
  rcases exists_readMarks (passesName.placed signPlaced) spelled.gap spelled.trail spelled.stops
    noMark marksRest with ⟨behind, readMarks, left⟩
  refine ⟨behind, readType_eq_ok_iff.mpr ?_, left⟩
  rw [skippedLead]
  exact ⟨behindConst, behindSign, behindName, readConst, readSign, readName, readMarks⟩

end Cursor

namespace NativeType

open Text Grammar

theorem parse_eq_ok_iff_reads {text : String} {type : NativeType} :
    parse text = .ok type ↔
      ∃ behind : Cursor, (Cursor.start text).readType = .ok (type, behind) ∧
        IsBlanks behind.rest := by
  simp only [parse, Outcome.bind_eq_ok_iff, Outcome.pure_eq_ok_iff, Prod.exists]
  constructor
  · rintro ⟨_, behind, read, _, atEnd, rfl⟩
    exact ⟨behind, read, Cursor.expectEnd_eq_ok_iff.mp atEnd⟩
  · rintro ⟨behind, read, blank⟩
    exact ⟨type, behind, read, (), Cursor.expectEnd_eq_ok_iff.mpr blank, rfl⟩

/-- What is read is cut into pieces that spell it. -/
theorem exists_spell_of_parse {text : String} {type : NativeType}
    (parsed : parse text = .ok type) :
    ∃ pieces : Pieces, pieces.text = text.toList ∧ pieces.Spell type := by
  rcases parse_eq_ok_iff_reads.mp parsed with ⟨behind, read, trail⟩
  rcases Cursor.exists_spellBefore_of_readType (Cursor.placed_start text) read with
    ⟨pieces, passes, spelled⟩
  have nothing := Cursor.rest_skipBlanks_eq_nil_iff.mpr trail
  rw [nothing, Pieces.spellBefore_nil_iff] at spelled
  have split := passes.rest
  rw [nothing, List.append_nil] at split
  exact ⟨pieces, split.symm, spelled⟩

theorem parse_of_spell {pieces : Pieces} {type : NativeType} (spelled : pieces.Spell type)
    {text : String} (same : pieces.text = text.toList) : parse text = .ok type := by
  have split : (Cursor.start text).rest = pieces.text ++ [] := by
    rw [List.append_nil, same]
    rfl
  rcases Cursor.readType_of_spellBefore (Cursor.placed_start text)
    (Pieces.spellBefore_nil_iff.mpr spelled) rfl split with ⟨behind, read, left⟩
  exact parse_eq_ok_iff_reads.mpr ⟨behind, read, Cursor.rest_skipBlanks_eq_nil_iff.mp left⟩

/-- Reading accepts exactly what the grammar allows, and returns what it spells. -/
theorem parse_eq_ok_iff_spell (text : String) (type : NativeType) :
    parse text = .ok type ↔
      ∃ pieces : Pieces, pieces.text = text.toList ∧ pieces.Spell type := by
  constructor
  · exact exists_spell_of_parse
  · rintro ⟨pieces, same, spelled⟩
    exact parse_of_spell spelled same

/-- A qualifier may stand right in front of `::`, and a last word is a name. -/
example : parse "const::unsigned *" = .ok ⟨true, none, ⟨[], "unsigned"⟩, [.pointer]⟩ := by
  decide +kernel

end NativeType

/-- The type of a parameter has a name of identifiers. -/
theorem Param.isIdent_of_parse {text : String} {param : Param} (parsed : parse text = .ok param) :
    ∀ part ∈ param.type.name.parts, Grammar.IsIdent part.toList := by
  rcases Outcome.bind_eq_ok_iff.mp parsed with ⟨⟨type, behind⟩, read, parsed⟩
  rcases Outcome.bind_eq_ok_iff.mp parsed with ⟨_, -, same⟩
  cases same
  rcases Cursor.exists_spellBefore_of_readType (Cursor.placed_start text) read with
    ⟨pieces, -, spelled⟩
  exact spelled.name.1

end Bindery
