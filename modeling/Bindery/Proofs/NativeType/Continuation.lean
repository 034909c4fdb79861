import Bindery.Proofs.NativeType.RoundTrip

/-!
# Text behind a type expression

What follows a type expression has its say in how it is read: it may continue the last word,
and it may be the name that makes a sign qualifier of the word in front of it.  Apart from
that the expression is read as it is on its own, so the part of a text that has been read is
read alike where the text is cut off behind it.
-/

namespace Bindery

open Text

namespace Grammar

/-- No identifier runs from the end of the first text into the second. -/
def Apart (front rest : List Char) : Prop :=
  begins isIdentPart rest = true → ∃ c ∈ front.getLast?, isIdentPart c = false

namespace Apart

variable {front rest : List Char}

theorem of_begins (stops : begins isIdentPart rest = false) : Apart front rest := by
  intro goesOn
  rw [stops] at goesOn
  cases goesOn

theorem of_last {c : Char} (last : c ∈ front.getLast?) (stops : isIdentPart c = false) :
    Apart front rest :=
  fun _ => ⟨c, last, stops⟩

theorem append_left (apart : Apart front rest) (earlier : List Char) :
    Apart (earlier ++ front) rest := by
  intro goesOn
  rcases apart goesOn with ⟨c, last, stops⟩
  refine ⟨c, ?_, stops⟩
  rw [List.getLast?_append, Option.mem_def.mp last]
  rfl

end Apart

theorem begins_append_of_ne_nil (test : Char → Bool) {front : List Char} (some : front ≠ [])
    (rest : List Char) : begins test (front ++ rest) = begins test front := by
  rcases List.exists_cons_of_ne_nil some with ⟨c, others, rfl⟩
  rfl

section Words

variable {word : String} {front rest : List Char}
  (wordParts : ∀ c ∈ word.toList, isIdentPart c = true)
include wordParts

/-- A word at the start of a text does not reach into a text apart from it. -/
theorem exists_behind_of_apart {behind : List Char} (apart : Apart front rest)
    (split : front ++ rest = word.toList ++ behind) :
    ∃ more, front = word.toList ++ more ∧ behind = more ++ rest := by
  rcases List.append_eq_append_iff.mp split with ⟨more, isWord, isRest⟩ | ⟨more, isFront, isBehind⟩
  · cases more with
    | nil =>
        rw [List.append_nil] at isWord
        exact ⟨[], by rw [isWord, List.append_nil], isRest.symm⟩
    | cons c others =>
        have goesOn : begins isIdentPart rest = true := by
          rw [isRest]
          exact wordParts c (by simp [isWord])
        rcases apart goesOn with ⟨last, isLast, stops⟩
        have inWord : last ∈ word.toList :=
          isWord ▸ List.mem_append_left _ (List.mem_of_mem_getLast? isLast)
        have part := wordParts last inWord
        rw [stops] at part
        cases part
  · exact ⟨more, isFront, isBehind⟩

theorem begins_isIdentPart_of_apart {more : List Char}
    (apart : Apart (word.toList ++ more) rest) :
    begins isIdentPart (more ++ rest) = begins isIdentPart more := by
  by_cases none : more = []
  · subst none
    rw [List.append_nil] at apart
    rw [List.nil_append, begins_nil, Bool.eq_false_iff]
    intro goesOn
    rcases apart goesOn with ⟨last, isLast, stops⟩
    rw [wordParts last (List.mem_of_mem_getLast? isLast)] at stops
    cases stops
  · exact begins_append_of_ne_nil _ none rest

theorem wordAhead_apart_iff (apart : Apart front rest) :
    WordAhead word (front ++ rest) ↔ WordAhead word front := by
  constructor
  · rintro ⟨behind, split, stops⟩
    rcases exists_behind_of_apart wordParts apart split with ⟨more, rfl, rfl⟩
    rw [begins_isIdentPart_of_apart wordParts apart] at stops
    exact ⟨more, rfl, stops⟩
  · rintro ⟨more, rfl, stops⟩
    rw [← begins_isIdentPart_of_apart wordParts apart] at stops
    exact ⟨more ++ rest, List.append_assoc _ _ _, stops⟩

end Words

theorem not_nameAhead_nil : ¬ NameAhead [] := by
  rintro (starts | ⟨behind, split⟩)
  · cases starts
  · cases split

theorem NameAhead.append {front : List Char} (named : NameAhead front) (rest : List Char) :
    NameAhead (front ++ rest) := by
  rcases named with starts | scope
  · exact .inl (begins_append_of_begins starts rest)
  · exact .inr (scope.trans (List.prefix_append _ _))

theorem NameAhead.begins_isBlank {front : List Char} (named : NameAhead front) :
    begins isBlank front = false := by
  rcases named with starts | ⟨behind, rfl⟩
  · exact begins_isBlank_of_begins_isIdentStart starts
  · rfl

theorem nameAhead_of_spellsName {name : ScopedName} {piece : List Char}
    (spelled : SpellsName name piece) : NameAhead piece := by
  rcases spelled with ⟨idents, scope, rfl | rfl, rfl⟩
  · exact .inl (begins_isIdentStart_pathChars name.parts_ne_nil idents)
  · exact .inr (List.prefix_append _ _)

/-- What is left behind white space in front of a name is left as well if more follows. -/
theorem dropWhile_append_of_nameAhead {behind : List Char}
    (named : NameAhead (behind.dropWhile isBlank)) (rest : List Char) :
    (behind ++ rest).dropWhile isBlank = behind.dropWhile isBlank ++ rest := by
  rw [List.dropWhile_append, if_neg]
  intro nothing
  rw [List.isEmpty_iff.mp nothing] at named
  exact not_nameAhead_nil named

/-- A sign qualifier stays one whatever is put behind its name. -/
theorem SignAhead.append {front : List Char} (ahead : SignAhead front) (rest : List Char) :
    SignAhead (front ++ rest) := by
  rcases ahead with ⟨sign, behind, rfl, stops, named⟩
  have some : behind ≠ [] := by
    rintro rfl
    exact not_nameAhead_nil named
  refine ⟨sign, behind ++ rest, List.append_assoc _ _ _, ?_, ?_⟩
  · rwa [begins_append_of_ne_nil _ some]
  · rw [dropWhile_append_of_nameAhead named]
    exact named.append rest

/-- A sign qualifier is one by the name behind it, and by nothing that follows. -/
theorem signAhead_of_append {sign : Signedness} {blanks named : List Char} (rest : List Char)
    (blank : IsBlanks blanks) (isNamed : NameAhead named)
    (ahead : SignAhead (sign.text.toList ++ (blanks ++ named) ++ rest)) :
    SignAhead (sign.text.toList ++ (blanks ++ named)) := by
  rcases ahead with ⟨other, behind, split, stops, -⟩
  rw [List.append_assoc] at split
  cases sign_eq_of_append_eq split
  rw [List.append_cancel_left_eq] at split
  have some : blanks ++ named ≠ [] := by
    rintro nothing
    rw [(List.append_eq_nil_iff.mp nothing).2] at isNamed
    exact not_nameAhead_nil isNamed
  rw [← split, begins_append_of_ne_nil _ some] at stops
  refine ⟨sign, blanks ++ named, rfl, stops, ?_⟩
  rwa [(takeWhile_dropWhile_append blank isNamed.begins_isBlank).2]

/-- With an identifier behind it, a text shows a sign qualifier if it does so on its own, or
if it is a sign qualifier that lacks only the name. -/
theorem signAhead_apart_iff {front rest : List Char} (apart : Apart front rest)
    (starts : begins isIdentStart rest = true) :
    SignAhead (front ++ rest) ↔
      SignAhead front ∨ ∃ sign : Signedness, IsQualifier sign.text front := by
  constructor
  · rintro ⟨sign, behind, split, stops, named⟩
    rcases exists_behind_of_apart (isIdentPart_sign sign) apart split with ⟨more, rfl, rfl⟩
    by_cases blank : IsBlanks more
    · exact .inr ⟨sign, more, blank, rfl⟩
    · have left : more.dropWhile isBlank ≠ [] := fun nothing =>
        blank (List.dropWhile_eq_nil_iff.mp nothing)
      have dropped : (more ++ rest).dropWhile isBlank = more.dropWhile isBlank ++ rest := by
        rw [List.dropWhile_append, if_neg (by simpa using left)]
      rw [begins_isIdentPart_of_apart (isIdentPart_sign sign) apart] at stops
      refine .inl ⟨sign, more, rfl, stops, ?_⟩
      rw [dropped] at named
      rcases named with begun | ⟨others, scope⟩
      · exact .inl (by rwa [begins_append_of_ne_nil _ left] at begun)
      · rcases List.exists_cons_of_ne_nil left with ⟨first, second, isLeft⟩
        rw [isLeft] at scope ⊢
        cases second with
        | cons next others =>
            cases scope
            exact .inr ⟨others, rfl⟩
        | nil =>
            -- The second colon would be the first character of the identifier.
            have isRest : ':' :: others = rest := (List.cons.inj scope).2
            rw [← isRest] at starts
            cases starts
  · rintro (ahead | ⟨sign, blanks, blank, rfl⟩)
    · exact ahead.append rest
    · refine ⟨sign, blanks ++ rest, List.append_assoc _ _ _, ?_, ?_⟩
      · rw [begins_isIdentPart_of_apart (isIdentPart_sign sign) apart]
        exact begins_eq_false_of_forall fun c member => isIdentPart_of_isBlank (blank c member)
      · rw [(takeWhile_dropWhile_append blank (begins_isBlank_of_begins_isIdentStart starts)).2]
        exact .inl starts

namespace Pieces.SpellBefore

variable {pieces : Pieces} {type : NativeType} {rest : List Char}

theorem apart (spelled : pieces.SpellBefore type rest) : Apart pieces.behindName rest := by
  intro goesOn
  have some : pieces.behindName ≠ [] := by
    intro none
    have stops := spelled.nameEnds
    rw [none, List.nil_append, goesOn] at stops
    cases stops
  have last := List.getLast_mem_getLast? some
  have ends := ends_behindName spelled.gap spelled.marks spelled.trail
  exact ⟨_, last, (ends _ (List.mem_of_mem_getLast? last)).1⟩

/-- What is read in front of a rest is read alike where there is no rest. -/
theorem spell (spelled : pieces.SpellBefore type rest) : pieces.Spell type := by
  have apart : Apart pieces.behindLead rest :=
    ((spelled.apart.append_left pieces.name).append_left pieces.sign).append_left pieces.constness
  have constAhead := spelled.constAhead.trans (wordAhead_apart_iff isIdentPart_const apart)
  have signAhead : type.signedness.isSome = true ↔ SignAhead pieces.behindConst := by
    refine ⟨?_, fun ahead => spelled.signAhead.mpr (ahead.append rest)⟩
    intro signed
    rcases Option.isSome_iff_exists.mp signed with ⟨sign, isSign⟩
    have ahead := spelled.signAhead.mp signed
    have qualifier := spelled.sign
    rw [isSign] at qualifier
    rcases qualifier with ⟨blanks, blank, isQualifier⟩
    have split : pieces.behindConst =
        sign.text.toList ++ (blanks ++ (pieces.name ++ pieces.behindName)) := by
      rw [behindConst, isQualifier, List.append_assoc]
    rw [split] at ahead ⊢
    exact signAhead_of_append rest blank ((nameAhead_of_spellsName spelled.name).append _) ahead
  exact ⟨spelled.lead, spelled.constness, constAhead, spelled.sign, signAhead, spelled.name,
    spelled.gap, spelled.marks, spelled.trail⟩

end Pieces.SpellBefore

end Grammar

end Bindery
