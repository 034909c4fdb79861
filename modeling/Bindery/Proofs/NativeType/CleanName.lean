import Bindery.Proofs.NativeType.RoundTrip

/-!
# The characters of a canonical spelling

A canonical spelling is made of identifier characters, blanks and marks, and of
colons that come in pairs.  So its identifier-safe form is made of identifier
characters only.
-/

namespace Bindery

open Text

namespace Grammar

/-- Identifier characters, blanks and marks. -/
def isPlain (c : Char) : Bool :=
  isIdentPart c || c == ' ' || c == '*' || c == '&'

/-- Plain characters and pairs of colons. -/
inductive Spelling : List Char → Prop where
  | nil : Spelling []
  | scope {rest : List Char} (spelling : Spelling rest) : Spelling (':' :: ':' :: rest)
  | plain {c : Char} {rest : List Char} (isPlain : isPlain c = true) (spelling : Spelling rest) :
      Spelling (c :: rest)

namespace Spelling

variable {chars : List Char}

theorem append {others : List Char} (first : Spelling chars) (second : Spelling others) :
    Spelling (chars ++ others) := by
  induction first with
  | nil => exact second
  | scope _ ih => exact .scope ih
  | plain isPlain _ ih => exact .plain isPlain ih

theorem of_forall (all : ∀ c ∈ chars, isPlain c = true) : Spelling chars := by
  induction chars with
  | nil => exact .nil
  | cons c rest ih =>
      exact .plain (all c List.mem_cons_self) (ih fun d member => all d (List.mem_cons_of_mem c member))

theorem of_isIdentPart (all : ∀ c ∈ chars, isIdentPart c = true) : Spelling chars := by
  apply of_forall
  intro c member
  simp [isPlain, all c member]

theorem pathChars {parts : List String} (idents : ∀ part ∈ parts, IsIdent part.toList) :
    Spelling (pathChars parts) := by
  induction parts with
  | nil => exact .nil
  | cons part others ih =>
      have first : Spelling part.toList :=
        of_isIdentPart (idents part List.mem_cons_self).parts
      have later := ih fun other member => idents other (List.mem_cons_of_mem part member)
      by_cases single : others = []
      · subst single
        simpa [Grammar.pathChars] using first
      · rw [pathChars_cons part single]
        exact first.append (.scope later)

theorem space : Spelling [' '] :=
  .plain rfl .nil

theorem constness (type : NativeType) : Spelling (canonicalPieces type).constness := by
  rw [canonicalPieces]
  cases type.isConst with
  | false => exact .nil
  | true => exact (of_isIdentPart isIdentPart_const).append space

/-- A canonical spelling has this form if the parts of the name are identifiers. -/
theorem canonical {type : NativeType} (idents : ∀ part ∈ type.name.parts, IsIdent part.toList) :
    Spelling type.canonical.toList := by
  have sign : Spelling (canonicalPieces type).sign := by
    rw [canonicalPieces]
    cases type.signedness with
    | none => exact .nil
    | some sign => exact (of_isIdentPart (isIdentPart_sign sign)).append space
  have gap : Spelling (canonicalPieces type).gap := by
    rw [canonicalPieces]
    cases type.marks.isEmpty with
    | true => exact .nil
    | false => exact space
  have marks : Spelling (type.marks.map Mark.toChar) := by
    apply of_forall
    intro c member
    obtain ⟨mark, -, rfl⟩ := List.mem_map.mp member
    cases mark <;> rfl
  rw [← text_canonicalPieces]
  exact (constness type).append
    (sign.append ((pathChars idents).append (gap.append (marks.append .nil))))

theorem isPlain_or_eq (spelling : Spelling chars) {c : Char} (member : c ∈ chars) :
    isPlain c = true ∨ c = ':' := by
  induction spelling with
  | nil => cases member
  | scope _ ih =>
      simp only [List.mem_cons] at member
      rcases member with rfl | rfl | later
      · exact .inr rfl
      · exact .inr rfl
      · exact ih later
  | plain isPlain _ ih =>
      rcases List.mem_cons.mp member with rfl | later
      · exact .inl isPlain
      · exact ih later

theorem cleanChar_of_isIdentPart {c : Char} (ident : isIdentPart c = true) : cleanChar c = [c] := by
  unfold cleanChar
  split
  · cases ident
  · cases ident
  · cases ident
  · rfl

theorem isIdentPart_cleanChar {c d : Char} (isPlain : isPlain c = true)
    (member : d ∈ cleanChar c) : isIdentPart d = true := by
  simp only [Grammar.isPlain, Bool.or_eq_true, beq_iff_eq] at isPlain
  rcases isPlain with ((ident | rfl) | rfl) | rfl
  · rw [cleanChar_of_isIdentPart ident] at member
    cases List.mem_singleton.mp member
    exact ident
  · cases List.mem_singleton.mp member
    rfl
  · simp only [cleanChar, List.mem_cons, List.not_mem_nil, or_false] at member
    rcases member with rfl | rfl | rfl <;> rfl
  · simp only [cleanChar, List.mem_cons, List.not_mem_nil, or_false] at member
    rcases member with rfl | rfl <;> rfl

/-- A plain character is replaced on its own. -/
theorem cleanChars_cons {c : Char} (isPlain : isPlain c = true) (rest : List Char) :
    cleanChars (c :: rest) = cleanChar c ++ cleanChars rest := by
  have notColon : c ≠ ':' := by
    rintro rfl
    cases isPlain
  rw [cleanChars]
  intro _ colon
  exact absurd colon notColon

/-- The identifier-safe form has identifier characters only. -/
theorem isIdentPart_cleanChars (spelling : Spelling chars) {c : Char}
    (member : c ∈ cleanChars chars) : isIdentPart c = true := by
  induction spelling with
  | nil => cases member
  | scope _ ih =>
      simp only [cleanChars, List.mem_cons] at member
      rcases member with rfl | rfl | later
      · rfl
      · rfl
      · exact ih later
  | plain isPlain _ ih =>
      rw [cleanChars_cons isPlain, List.mem_append] at member
      rcases member with here | later
      · exact isIdentPart_cleanChar isPlain here
      · exact ih later

/-- A spelling is replaced on its own: no colon of it pairs with one behind it. -/
theorem cleanChars_append (spelling : Spelling chars) (others : List Char) :
    cleanChars (chars ++ others) = cleanChars chars ++ cleanChars others := by
  induction spelling with
  | nil => rfl
  | scope _ ih => simp [cleanChars, ih]
  | plain isPlain _ ih =>
      rw [List.cons_append, cleanChars_cons isPlain, cleanChars_cons isPlain, ih,
        List.append_assoc]

theorem cleanChars_of_isIdentPart (all : ∀ c ∈ chars, isIdentPart c = true) :
    cleanChars chars = chars := by
  induction chars with
  | nil => rfl
  | cons c rest ih =>
      have ident := all c List.mem_cons_self
      have isPlain : isPlain c = true := by simp [Grammar.isPlain, ident]
      rw [cleanChars_cons isPlain, cleanChar_of_isIdentPart ident,
        ih fun d member => all d (List.mem_cons_of_mem c member)]
      rfl

end Spelling

end Grammar

namespace NativeType

/-- The canonical spelling of a parsed type. -/
theorem spelling_of_parse {text : String} {type : NativeType} (parsed : parse text = .ok type) :
    Grammar.Spelling type.canonical.toList := by
  obtain ⟨pieces, -, spelled⟩ := exists_spell_of_parse parsed
  exact .canonical spelled.name.1

end NativeType

end Bindery
