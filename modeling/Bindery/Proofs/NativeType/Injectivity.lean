import Bindery.Proofs.NativeType.Separation
import Bindery.Proofs.NativeType.Surroundings

/-!
# Types told apart by their canonical spellings

Cut at its blanks, a canonical spelling falls into fields: the qualifiers, the name, and
the marks if there are any.  Marks are told from a name by their first character, and
what is then the last field is the name, even if it is a word that elsewhere is a
qualifier.  So the spelling determines the type, also where it is not read back as the
type that it spells.
-/

namespace Bindery

open Text

theorem Mark.toChar_injective : Function.Injective Mark.toChar := by
  intro mark other same
  simpa using congrArg ofChar? same

namespace Grammar

/-- The first part of a name reaches as far as identifier characters do. -/
theorem cut_pathChars {first : String} (ident : IsIdent first.toList) (others : List String) :
    (pathChars (first :: others)).takeWhile isIdentPart = first.toList ∧
      (pathChars (first :: others)).dropWhile isIdentPart = behindFirst others [] := by
  have split := pathChars_append first others []
  rw [List.append_nil] at split
  rw [split]
  apply takeWhile_dropWhile_append ident.parts
  exact begins_isIdentPart_behindFirst others fun c member => absurd member List.not_mem_nil

theorem pathChars_eq_of_behindFirst_eq {others second : List String}
    (same : behindFirst others [] = behindFirst second []) :
    pathChars others = pathChars second := by
  by_cases single : others = [] <;> by_cases secondSingle : second = []
  · rw [single, secondSingle]
  · simp [behindFirst, single, secondSingle] at same
  · simp [behindFirst, single, secondSingle] at same
  · simpa [behindFirst, single, secondSingle] using same

/-- The parts of a name are determined by its text. -/
theorem parts_eq_of_pathChars_eq {parts others : List String}
    (idents : ∀ part ∈ parts, IsIdent part.toList)
    (otherIdents : ∀ part ∈ others, IsIdent part.toList)
    (same : pathChars parts = pathChars others) : parts = others := by
  have empty {names : List String} (idents : ∀ part ∈ names, IsIdent part.toList)
      (nothing : pathChars names = []) : names = [] := by
    by_contra some
    have starts := begins_isIdentStart_pathChars some idents
    rw [nothing] at starts
    cases starts
  induction parts generalizing others with
  | nil => exact (empty otherIdents same.symm).symm
  | cons part parts ih =>
      cases others with
      | nil => exact empty idents same
      | cons other others =>
          rcases List.forall_mem_cons.mp idents with ⟨ident, idents⟩
          rcases List.forall_mem_cons.mp otherIdents with ⟨otherIdent, otherIdents⟩
          rcases cut_pathChars ident parts with ⟨first, rest⟩
          rcases cut_pathChars otherIdent others with ⟨otherFirst, otherRest⟩
          rw [same] at first rest
          have sameFirst : part = other := String.toList_inj.mp (first.symm.trans otherFirst)
          have sameRest := pathChars_eq_of_behindFirst_eq (rest.symm.trans otherRest)
          rw [sameFirst, ih idents otherIdents sameRest]

end Grammar

namespace NativeType

open Grammar

/-- The field of the marks, if there are any. -/
def markField (marks : Indirection) : List (List Char) :=
  if marks = [] then [] else [marks.map Mark.toChar]

/-- What stands between the blanks of a canonical spelling. -/
def spellingFields (type : NativeType) : List (List Char) :=
  type.qualifierFields ++ pathChars type.name.parts :: markField type.marks

theorem flatMap_append_intercalate {α : Type} (separator : List α) (words : List (List α))
    {fields : List (List α)} (some : fields ≠ []) :
    words.flatMap (· ++ separator) ++ separator.intercalate fields =
      separator.intercalate (words ++ fields) := by
  induction words with
  | nil => rfl
  | cons word words ih =>
      have more : words ++ fields ≠ [] := List.append_ne_nil_of_right_ne_nil words some
      rw [List.flatMap_cons, List.append_assoc, ih, List.cons_append,
        List.intercalate_cons_of_ne_nil more, List.append_assoc]

theorem intercalate_spellingFields (type : NativeType) :
    [' '].intercalate type.spellingFields = type.canonical.toList := by
  rw [toList_canonical, spellingFields,
    ← flatMap_append_intercalate _ _ (List.cons_ne_nil _ _), List.append_cancel_left_eq]
  by_cases none : type.marks = []
  · simp [markField, none]
  · simp [markField, none, List.intercalate_cons_cons]

/-- Every part of the name is an identifier, as in all types that are read from a text. -/
def WellNamed (type : NativeType) : Prop :=
  ∀ part ∈ type.name.parts, IsIdent part.toList

theorem wellNamed_of_parse {text : String} {type : NativeType} (parsed : parse text = .ok type) :
    type.WellNamed := by
  rcases exists_spell_of_parse parsed with ⟨_, -, spelled⟩
  exact spelled.name.1

section WellNamed

variable {type second : NativeType} (named : type.WellNamed)
include named

theorem blank_not_mem_spellingFields : ∀ field ∈ type.spellingFields, ' ' ∉ field := by
  rw [spellingFields, List.forall_mem_append, List.forall_mem_cons]
  refine ⟨?_, ?_, ?_⟩
  · intro field qualifier blank
    cases isIdentPart_qualifierFields field qualifier ' ' blank
  · intro blank
    rcases isIdentPart_or_colon_of_mem_pathChars named ' ' blank with isPart | isColon
    · cases isPart
    · cases isColon
  · intro field inMarks blank
    rw [markField] at inMarks
    split at inMarks
    · cases inMarks
    · rw [List.mem_singleton.mp inMarks] at blank
      rcases List.mem_map.mp blank with ⟨_ | _, -, same⟩ <;> cases same

theorem splitOn_canonical : type.canonical.toList.splitOn ' ' = type.spellingFields := by
  rw [← intercalate_spellingFields]
  exact List.splitOn_intercalate ' ' (blank_not_mem_spellingFields named) (by simp [spellingFields])

/-- Marks are told from a name by their first character. -/
theorem rdropWhile_spellingFields :
    type.spellingFields.rdropWhile (begins Mark.isMark) =
      type.qualifierFields ++ [pathChars type.name.parts] := by
  rw [spellingFields, List.append_cons]
  apply rdropWhile_append_of_pos
  · intro field isLast
    rw [List.getLast?_concat, Option.mem_some_iff] at isLast
    rw [← isLast]
    exact begins_eq_false_of_forall (isMark_of_mem_pathChars named)
  · intro field inMarks
    rw [markField] at inMarks
    split at inMarks
    · cases inMarks
    · next some =>
        rcases List.exists_cons_of_ne_nil some with ⟨mark, marks, isMarks⟩
        rw [List.mem_singleton.mp inMarks, isMarks, List.map_cons, begins_cons]
        exact Mark.isMark_iff.mpr ⟨mark, rfl⟩

omit named in
theorem markField_injective : Function.Injective markField := by
  intro marks others same
  by_cases none : marks = [] <;> by_cases otherNone : others = []
  · rw [none, otherNone]
  · simp [markField, none, otherNone] at same
  · simp [markField, none, otherNone] at same
  · rw [markField, markField, if_neg none, if_neg otherNone, List.singleton_inj] at same
    exact Mark.toChar_injective.list_map same

/-- Types whose names are made of identifiers are told apart by their canonical
spellings. -/
theorem eq_of_canonical_eq (secondNamed : second.WellNamed)
    (same : type.canonical = second.canonical) : type = second := by
  have fields : type.spellingFields = second.spellingFields := by
    rw [← splitOn_canonical named, same, splitOn_canonical secondNamed]
  have unmarked := congrArg (List.rdropWhile (begins Mark.isMark)) fields
  rw [rdropWhile_spellingFields named, rdropWhile_spellingFields secondNamed] at unmarked
  rcases List.append_inj' unmarked rfl with ⟨qualifiers, lastSame⟩
  rcases qualifiers_eq_of_fields_eq qualifiers with ⟨constSame, signSame⟩
  have partsSame : type.name.parts = second.name.parts :=
    parts_eq_of_pathChars_eq named secondNamed (List.singleton_inj.mp lastSame)
  have nameSame : type.name = second.name := by
    rw [← ScopedName.ofParts_parts type.name, partsSame, ScopedName.ofParts_parts]
  have marksSame : type.marks = second.marks := by
    rw [spellingFields, spellingFields, qualifiers, partsSame] at fields
    exact markField_injective (List.cons.inj (List.append_cancel_left fields)).2
  rcases type with ⟨isConst, signedness, name, marks⟩
  cases constSame
  cases signSame
  cases nameSame
  cases marksSame
  rfl

end WellNamed

/-- Types that can be read are told apart by their canonical spellings. -/
theorem canonical_eq_iff_of_parse {text other : String} {type second : NativeType}
    (parsed : parse text = .ok type) (otherParsed : parse other = .ok second) :
    type.canonical = second.canonical ↔ type = second := by
  constructor
  · exact eq_of_canonical_eq (wellNamed_of_parse parsed) (wellNamed_of_parse otherParsed)
  · exact congrArg canonical

/-- The spelling of the first type is read as the second, and yet their spellings differ. -/
theorem canonical_eq_iff_of_parse_masked :
    let masked : NativeType := ⟨false, none, ⟨["const"], "unsigned"⟩, []⟩
    let qualified : NativeType := ⟨true, none, ⟨[], "unsigned"⟩, []⟩
    parse "::const::unsigned" = .ok masked ∧ parse "const unsigned" = .ok qualified ∧
      parse masked.canonical = .ok qualified ∧ masked.canonical ≠ qualified.canonical := by
  intro masked qualified
  have maskedRead : parse "::const::unsigned" = .ok masked := by decide +kernel
  have qualifiedRead : parse "const unsigned" = .ok qualified := by decide +kernel
  have reread : parse masked.canonical = .ok qualified := by decide +kernel
  have apart : masked ≠ qualified := by decide
  exact ⟨maskedRead, qualifiedRead, reread,
    fun same => apart ((canonical_eq_iff_of_parse maskedRead qualifiedRead).mp same)⟩

end NativeType

end Bindery
