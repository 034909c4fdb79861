import Bindery.Proofs.NativeType.Surroundings

/-!
# Parameters

A parameter is a type with or without a name behind it.  Without a name it is read where the
type is, and as the same type.  A last word is the name of a parameter exactly if the text is
no type as a whole and the text in front of the word is one, up to white space or a mark.
-/

namespace Bindery

open Text Grammar

theorem Mark.isMark_iff_eq {c : Char} : isMark c = true ↔ c = '&' ∨ c = '*' := by
  rw [isMark_iff]
  constructor
  · rintro ⟨_ | _, rfl⟩
    · exact .inl rfl
    · exact .inr rfl
  · rintro (rfl | rfl)
    · exact ⟨.reference, rfl⟩
    · exact ⟨.pointer, rfl⟩

namespace Cursor

variable {cursor after : Cursor}

theorem readIdent_eq_some_iff {name : String} (placed : cursor.Placed) :
    cursor.readIdent = (some name, after) ↔
      IsIdent name.toList ∧ cursor.Passes name.toList after ∧
        after.nextIs isIdentPart = false := by
  unfold readIdent
  constructor
  · intro read
    split at read
    · next starts =>
        cases read
        rcases (eatWhile_eq_iff placed).mp (Prod.eta (cursor.eatWhile isIdentPart)).symm with
          ⟨passes, all, ends⟩
        rw [nextIs_eq_begins, passes.rest] at starts
        exact ⟨isIdent_of_begins starts all ends, passes, ends⟩
    · cases read
  · rintro ⟨ident, passes, ends⟩
    have starts : cursor.nextIs isIdentStart = true := by
      rw [nextIs_eq_begins, passes.rest]
      exact begins_append_of_begins ident.starts after.rest
    rw [if_pos starts, (eatWhile_eq_iff placed).mpr ⟨passes, ident.parts, ends⟩]

theorem readIdent_eq_none_iff :
    cursor.readIdent = (none, after) ↔ cursor.nextIs isIdentStart = false ∧ cursor = after := by
  unfold readIdent
  split
  · next starts => simp [starts]
  · next noStart => simp [noStart]

end Cursor

namespace Param

variable {text : String} {type : NativeType}

theorem parse_eq_ok_iff_reads {param : Param} :
    parse text = .ok param ↔
      ∃ behind last : Cursor, (Cursor.start text).readType = .ok (param.type, behind) ∧
        behind.skipBlanks.readIdent = (param.name, last) ∧ IsBlanks last.rest := by
  simp only [parse, Outcome.bind_eq_ok_iff, Outcome.pure_eq_ok_iff, Prod.exists]
  constructor
  · rintro ⟨_, behind, read, _, atEnd, rfl⟩
    exact ⟨behind, _, read, rfl, Cursor.expectEnd_eq_ok_iff.mp atEnd⟩
  · rintro ⟨behind, last, read, readIdent, blank⟩
    refine ⟨param.type, behind, read, (), ?_⟩
    rw [readIdent]
    exact ⟨Cursor.expectEnd_eq_ok_iff.mpr blank, rfl⟩

/-- Without a name a parameter is a type. -/
theorem parse_eq_ok_none_iff :
    parse text = .ok ⟨type, none⟩ ↔ NativeType.parse text = .ok type := by
  rw [parse_eq_ok_iff_reads, NativeType.parse_eq_ok_iff_reads]
  apply exists_congr
  intro behind
  simp only [Cursor.readIdent_eq_none_iff]
  constructor
  · rintro ⟨_, read, ⟨-, rfl⟩, blank⟩
    rcases Cursor.skipBlanks_eq_iff.mp (Eq.refl behind.skipBlanks) with ⟨blanks, passes, isBlank, -⟩
    refine ⟨read, ?_⟩
    rw [passes.rest]
    exact List.forall_mem_append.mpr ⟨isBlank, blank⟩
  · rintro ⟨read, blank⟩
    have nothing := Cursor.rest_skipBlanks_eq_nil_iff.mpr blank
    refine ⟨behind.skipBlanks, read, ⟨?_, rfl⟩, ?_⟩
    · rw [Cursor.nextIs_eq_begins, nothing, begins_nil]
    · rw [nothing]
      exact isBlanks_nil

/-- The name of a parameter is the last word behind its type. -/
theorem parse_eq_ok_some_iff {name : String} :
    parse text = .ok ⟨type, some name⟩ ↔
      ∃ (behind : Cursor) (trail : List Char),
        (Cursor.start text).readType = .ok (type, behind) ∧ IsIdent name.toList ∧
          IsBlanks trail ∧ behind.skipBlanks.rest = name.toList ++ trail := by
  rw [parse_eq_ok_iff_reads]
  have placed {behind : Cursor} (read : (Cursor.start text).readType = .ok (type, behind)) :
      behind.skipBlanks.Placed := by
    rcases Cursor.exists_spellBefore_of_readType (Cursor.placed_start text) read with
      ⟨pieces, passes, -⟩
    exact passes.placed (Cursor.placed_start text)
  apply exists_congr
  intro behind
  constructor
  · rintro ⟨last, read, readIdent, blank⟩
    rcases (Cursor.readIdent_eq_some_iff (placed read)).mp readIdent with ⟨ident, passes, -⟩
    exact ⟨last.rest, read, ident, blank, passes.rest⟩
  · rintro ⟨trail, read, ident, blank, split⟩
    obtain ⟨last, passes, rfl⟩ := Cursor.exists_passes split
    have ends : begins isIdentPart last.rest = false :=
      begins_eq_false_of_forall fun c member => isIdentPart_of_isBlank (blank c member)
    exact ⟨last, read, (Cursor.readIdent_eq_some_iff (placed read)).mpr ⟨ident, passes, ends⟩,
      blank⟩

end Param

/-! ## A word behind a type -/

theorem Grammar.begins_isMark_of_begins_isIdentStart {chars : List Char}
    (starts : begins isIdentStart chars = true) : begins Mark.isMark chars = false := by
  cases chars with
  | nil => rfl
  | cons c rest => exact isMark_of_isIdentPart (isIdentPart_of_isIdentStart starts)

namespace Grammar.Pieces

variable {pieces : Pieces} {type : NativeType}

theorem isBlank_or_isMark_of_mem_behindName (gapBlank : IsBlanks pieces.gap)
    (isMarks : pieces.marks = type.marks.map Mark.toChar) (trailBlank : IsBlanks pieces.trail) :
    ∀ c ∈ pieces.behindName, isBlank c = true ∨ Mark.isMark c = true := by
  rw [behindName, List.forall_mem_append, List.forall_mem_append]
  refine ⟨fun c member => .inl (gapBlank c member), ?_, fun c member => .inl (trailBlank c member)⟩
  rw [isMarks, List.forall_mem_map]
  exact fun mark _ => .inr (Mark.isMark_iff.mpr ⟨mark, rfl⟩)

/-- In front of a word, the text of a type ends in white space or a mark. -/
theorem SpellBefore.last_of_begins {rest : List Char} (spelled : pieces.SpellBefore type rest)
    (starts : begins isIdentStart rest = true) :
    ∃ c ∈ pieces.text.getLast?, isBlank c = true ∨ Mark.isMark c = true := by
  have goesOn : begins isIdentPart rest = true := by
    cases rest with
    | nil => cases starts
    | cons c others => exact isIdentPart_of_isIdentStart starts
  rcases spelled.apart goesOn with ⟨c, isLast, -⟩
  refine ⟨c, ?_, isBlank_or_isMark_of_mem_behindName spelled.gap spelled.marks spelled.trail c
    (List.mem_of_mem_getLast? isLast)⟩
  simp only [text, behindLead, behindConst, List.getLast?_append, Option.mem_def.mp isLast,
    Option.some_or, Option.mem_def]

namespace Spell

section Last

variable (spelled : pieces.Spell type) {last : Char} (isLast : last ∈ pieces.text.getLast?)
  (ends : isBlank last = true ∨ Mark.isMark last = true)
include spelled isLast ends

/-- A text that ends in white space or a mark ends behind its name. -/
theorem behindName_ne_nil : pieces.behindName ≠ [] := by
  intro none
  rcases spelled.name with ⟨idents, scope, -, isName⟩
  have some : pathChars type.name.parts ≠ [] := by
    intro nothing
    have starts := begins_isIdentStart_pathChars type.name.parts_ne_nil idents
    rw [nothing] at starts
    cases starts
  have inPath : last ∈ pathChars type.name.parts := by
    rw [text, behindLead, behindConst, none, List.append_nil, isName, ← List.append_assoc,
      ← List.append_assoc, ← List.append_assoc, List.getLast?_append_of_ne_nil _ some] at isLast
    exact List.mem_of_mem_getLast? isLast
  rcases ends with blank | mark
  · rcases isIdentPart_or_colon_of_mem_pathChars idents last inPath with isPart | rfl
    · rw [isIdentPart_of_isBlank blank] at isPart
      cases isPart
    · cases blank
  · rw [isMark_of_mem_pathChars idents last inPath] at mark
    cases mark

theorem apart_of_last (rest : List Char) : Apart pieces.behindName rest := by
  have isEnd := List.getLast_mem_getLast? (spelled.behindName_ne_nil isLast ends)
  have noParts := ends_behindName spelled.gap spelled.marks spelled.trail
  exact .of_last isEnd (noParts _ (List.mem_of_mem_getLast? isEnd)).1

/-- In front of a word a type is read as it is on its own, unless the word is the name that a
sign qualifier lacked. -/
theorem before_of_begins {rest : List Char} (starts : begins isIdentStart rest = true)
    (noSign : ¬ ∃ sign : Signedness, IsQualifier sign.text pieces.behindConst) :
    pieces.SpellBefore type rest := by
  have some := spelled.behindName_ne_nil isLast ends
  have noParts := ends_behindName spelled.gap spelled.marks spelled.trail
  have apartConst : Apart pieces.behindConst rest :=
    ((spelled.apart_of_last isLast ends rest).append_left pieces.name).append_left pieces.sign
  have constAhead := wordAhead_apart_iff isIdentPart_const (apartConst.append_left pieces.constness)
  have signAhead := (signAhead_apart_iff apartConst starts).trans (or_iff_left noSign)
  refine ⟨spelled.lead, spelled.constness, spelled.constAhead.trans constAhead.symm, spelled.sign,
    spelled.signAhead.trans signAhead.symm, spelled.name, ?_, ?_, spelled.gap, spelled.marks,
    spelled.trail, begins_isBlank_of_begins_isIdentStart starts⟩
  · rw [begins_append_of_ne_nil _ some]
    exact begins_eq_false_of_forall fun c member => (noParts c member).1
  · rcases List.exists_cons_of_ne_nil some with ⟨first, others, isBehind⟩
    rw [isBehind]
    rintro ⟨behind, scope⟩
    have isColon : ':' = first := (List.cons.inj scope).1
    exact (noParts first (isBehind ▸ List.mem_cons_self)).2 isColon.symm

end Last

/-- Behind a sign qualifier that lacks its name, a word is that name. -/
theorem signed (spelled : pieces.Spell type) {sign : Signedness}
    (qualifier : IsQualifier sign.text pieces.behindConst) {name : String} {trail : List Char}
    (ident : IsIdent name.toList) (blank : IsBlanks trail)
    (apart : Apart pieces.behindConst (name.toList ++ trail)) :
    Spell ⟨pieces.lead, pieces.constness, pieces.behindConst, name.toList, [], [], trail⟩
      ⟨type.isConst, some sign, .simple name, []⟩ := by
  have constAhead := wordAhead_apart_iff isIdentPart_const (apart.append_left pieces.constness)
  rw [List.append_assoc] at constAhead
  have starts := begins_append_of_begins ident.starts trail
  refine ⟨spelled.lead, spelled.constness, spelled.constAhead.trans constAhead.symm, qualifier,
    ?_, spellsName_simple ident, isBlanks_nil, rfl, blank⟩
  exact iff_of_true rfl ((signAhead_apart_iff apart starts).mpr (.inr ⟨sign, qualifier⟩))

end Spell

end Grammar.Pieces

namespace Param

/-- What is read in front of the name of a parameter is a type, and the whole text is none. -/
theorem exists_front_of_parse {text name : String} {type : NativeType}
    (parsed : parse text = .ok ⟨type, some name⟩) :
    (∃ fault, NativeType.parse text = .error fault) ∧
      ∃ front trail : List Char, text.toList = front ++ (name.toList ++ trail) ∧
        IsIdent name.toList ∧ IsBlanks trail ∧
        (∃ last ∈ front.getLast?, isBlank last = true ∨ Mark.isMark last = true) ∧
        NativeType.parse (String.ofList front) = .ok type := by
  rcases parse_eq_ok_some_iff.mp parsed with ⟨behind, trail, read, ident, blank, left⟩
  have starts := begins_append_of_begins ident.starts trail
  constructor
  · cases whole : NativeType.parse text with
    | error fault => exact ⟨fault, rfl⟩
    | ok other =>
        rcases NativeType.parse_eq_ok_iff_reads.mp whole with ⟨_, readOther, nothing⟩
        cases read.symm.trans readOther
        rw [← left, Cursor.rest_skipBlanks_eq_nil_iff.mpr nothing] at starts
        cases starts
  · rcases Cursor.exists_spellBefore_of_readType (Cursor.placed_start text) read with
      ⟨pieces, passes, spelled⟩
    rw [left] at spelled
    refine ⟨pieces.text, trail, ?_, ident, blank, spelled.last_of_begins starts, ?_⟩
    · rw [← left]
      exact passes.rest
    · exact NativeType.parse_of_spell spelled.spell String.toList_ofList.symm

/-- A word behind a type is the name of a parameter if the text is no type as a whole. -/
theorem parse_of_front {text front name : String} {type : NativeType} {trail : List Char}
    {last : Char} {fault : Malformed} (failed : NativeType.parse text = .error fault)
    (split : text.toList = front.toList ++ (name.toList ++ trail)) (ident : IsIdent name.toList)
    (blank : IsBlanks trail) (isLast : last ∈ front.toList.getLast?)
    (ends : isBlank last = true ∨ Mark.isMark last = true)
    (parsed : NativeType.parse front = .ok type) : parse text = .ok ⟨type, some name⟩ := by
  rcases NativeType.exists_spell_of_parse parsed with ⟨pieces, same, spelled⟩
  rw [← same] at split isLast
  have starts := begins_append_of_begins ident.starts trail
  by_cases lacksName : ∃ sign : Signedness, IsQualifier sign.text pieces.behindConst
  · rcases lacksName with ⟨sign, qualifier⟩
    have apart := ((spelled.apart_of_last isLast ends (name.toList ++ trail)).append_left
      pieces.name).append_left pieces.sign
    have whole := NativeType.parse_of_spell (spelled.signed qualifier ident blank apart)
      (show _ = text.toList by
        rw [split]
        simp [Pieces.text, Pieces.behindLead, Pieces.behindConst, Pieces.behindName])
    rw [failed] at whole
    cases whole
  · have before := spelled.before_of_begins isLast ends starts lacksName
    have atStart : (Cursor.start text).rest = pieces.text ++ (name.toList ++ trail) := split
    rcases Cursor.readType_of_spellBefore (Cursor.placed_start text) before
      (begins_isMark_of_begins_isIdentStart starts) atStart with ⟨behind, read, left⟩
    exact parse_eq_ok_some_iff.mpr ⟨behind, trail, read, ident, blank, left⟩

/-- Reading parameters extends reading types.  Without a name a parameter is what is read as
a type.  With a name it is a text that is not read as a type, but ends in a word, and perhaps
white space, such that the text in front of the word ends in white space or a mark and is
read as the type. -/
theorem parse_extends_types (text : String) (type : NativeType) :
    (parse text = .ok ⟨type, none⟩ ↔ NativeType.parse text = .ok type) ∧
      ∀ name : String, parse text = .ok ⟨type, some name⟩ ↔
        (∃ fault, NativeType.parse text = .error fault) ∧
          ∃ front trail : String, text = front ++ name ++ trail ∧ IsIdent name.toList ∧
            IsBlanks trail.toList ∧
            (∃ last ∈ front.toList.getLast?, isBlank last = true ∨ last = '&' ∨ last = '*') ∧
            NativeType.parse front = .ok type := by
  refine ⟨parse_eq_ok_none_iff, ?_⟩
  intro name
  simp only [← Mark.isMark_iff_eq]
  constructor
  · intro parsed
    rcases exists_front_of_parse parsed with ⟨failed, front, trail, split, ident, blank, last, read⟩
    refine ⟨failed, String.ofList front, String.ofList trail, ?_, ident, ?_, ?_, read⟩
    · simp [← String.toList_inj, split]
    · rwa [String.toList_ofList]
    · rwa [String.toList_ofList]
  · rintro ⟨⟨fault, failed⟩, front, trail, rfl, ident, blank, ⟨last, isLast, ends⟩, read⟩
    exact parse_of_front failed (by simp) ident blank isLast ends read

/-- The last word belongs to the type if a qualifier would lack a name without it. -/
example : parse "unsigned x" = .ok ⟨⟨false, some .unsigned, .simple "x", []⟩, none⟩ ∧
    parse "::unsigned x" = .ok ⟨⟨false, none, .simple "unsigned", []⟩, some "x"⟩ := by
  decide +kernel

end Param

end Bindery
