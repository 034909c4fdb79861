import Bindery.Proofs.NativeType.CleanName
import Mathlib.Data.List.DropRight

/-!
# Types told apart by their identifier-safe forms

Cut at its underscores, an identifier-safe form falls into fields: the qualifiers,
the words of each part of the name with an empty field between any two parts, and
what the marks leave.  Types whose fields can be told from one another are told
apart: as long as no part has an underscore at an end or two in a row, the first
part does not open with a qualifier and an underscore, and the last word is not
spelled like marks.
-/

namespace Bindery

open Text Grammar

namespace NativeType

/-- The fields of the qualifiers. -/
def qualifierFields (type : NativeType) : List (List Char) :=
  (if type.isConst then ["const".toList] else []) ++
    type.signedness.toList.map fun sign => sign.text.toList

/-- The words of a part of a name, between its underscores. -/
def words (part : String) : List (List Char) :=
  part.toList.splitOn '_'

/-- The fields of a name: the words of its parts, with an empty field between any two
parts. -/
def nameFields (parts : List String) : List (List Char) :=
  [[]].intercalate (parts.map words)

/-- The fields of marks: a reference opens a new one, a pointer goes on with the
one before it. -/
def markFields : Indirection → List (List Char)
  | [] => [[]]
  | .pointer :: rest => (markFields rest).modifyHead ("ptr".toList ++ ·)
  | .reference :: rest => [] :: (markFields rest).modifyHead ("r".toList ++ ·)

/-- The fields of what stands behind a name. -/
def suffixFields (marks : Indirection) : List (List Char) :=
  if marks = [] then [] else markFields marks

/-- The characters are `ptr` again and again. -/
def isPointers : List Char → Bool
  | [] => true
  | 'p' :: 't' :: 'r' :: rest => isPointers rest
  | _ => false

/-- The characters are those of a field that marks leave: `ptr` again and again,
perhaps behind an `r`. -/
def isMarkField : List Char → Bool
  | 'r' :: rest => isPointers rest
  | chars => isPointers chars

/-- The word is spelled like a qualifier. -/
def isQualifierWord (word : List Char) : Bool :=
  word == "const".toList || word == "signed".toList || word == "unsigned".toList

/-- Nothing in the name can be taken for a scope, a qualifier or marks: no part has an
underscore at an end or two in a row, the first does not open with a qualifier and an
underscore, and the last does not end in a word that is spelled like marks. -/
structure Plain (type : NativeType) : Prop where
  spaced : ∀ part ∈ type.name.parts, [] ∉ words part
  opening : ∀ part ∈ type.name.parts.head?, ∀ word ∈ (words part).dropLast.head?,
    isQualifierWord word = false
  ending : ∀ word ∈ (words type.name.name).getLast?, isMarkField word = false

instance (type : NativeType) : Decidable type.Plain :=
  decidable_of_iff (_ ∧ _ ∧ _)
    ⟨fun ⟨spaced, opening, ending⟩ => ⟨spaced, opening, ending⟩,
      fun plain => ⟨plain.spaced, plain.opening, plain.ending⟩⟩

section Joining

variable {α : Type} {separator : List α}

theorem intercalate_modifyHead {fields : List (List α)} (front : List α) (some : fields ≠ []) :
    separator.intercalate (fields.modifyHead (front ++ ·)) =
      front ++ separator.intercalate fields := by
  obtain ⟨field, others, rfl⟩ := List.exists_cons_of_ne_nil some
  cases others with
  | nil => simp
  | cons next others => simp [List.intercalate_cons_cons]

theorem intercalate_append {fields more : List (List α)} (some : fields ≠ [])
    (moreSome : more ≠ []) :
    separator.intercalate (fields ++ more) =
      separator.intercalate fields ++ (separator ++ separator.intercalate more) := by
  induction fields with
  | nil => exact absurd rfl some
  | cons field others ih =>
      cases others with
      | nil => simp [List.intercalate_cons_of_ne_nil moreSome]
      | cons next others =>
          rw [List.cons_append, List.cons_append, List.intercalate_cons_cons,
            List.intercalate_cons_cons, ← List.cons_append, ih (List.cons_ne_nil next others)]
          simp only [List.append_assoc]

/-- What is behind the last element that fails a test can be cut off. -/
theorem rdropWhile_append_of_pos {test : α → Bool} {front run : List α}
    (last : ∀ element ∈ front.getLast?, test element = false)
    (all : ∀ element ∈ run, test element = true) : (front ++ run).rdropWhile test = front := by
  have kept : front.rdropWhile test = front := by
    rw [List.rdropWhile_eq_self_iff]
    intro some
    rw [last _ (List.getLast_mem_getLast? some)]
    exact Bool.false_ne_true
  rw [List.rdropWhile, List.reverse_append, List.dropWhile_append_of_pos (by simpa using all)]
  exact kept

end Joining

theorem markFields_ne_nil (marks : Indirection) : markFields marks ≠ [] := by
  induction marks with
  | nil => exact List.cons_ne_nil _ _
  | cons mark rest ih =>
      cases mark with
      | reference => exact List.cons_ne_nil _ _
      | pointer => simpa [markFields] using ih

theorem intercalate_markFields (marks : Indirection) :
    ['_'].intercalate (markFields marks) = cleanChars (marks.map Mark.toChar) := by
  induction marks with
  | nil => rfl
  | cons mark rest ih =>
      have isPlain : isPlain mark.toChar = true := by cases mark <;> rfl
      rw [List.map_cons, Spelling.cleanChars_cons isPlain, ← ih]
      cases mark with
      | pointer => exact intercalate_modifyHead _ (markFields_ne_nil rest)
      | reference =>
          have some : (markFields rest).modifyHead ("r".toList ++ ·) ≠ [] := by
            simpa using markFields_ne_nil rest
          rw [markFields, List.intercalate_cons_of_ne_nil some,
            intercalate_modifyHead _ (markFields_ne_nil rest)]
          rfl

/-- Marks are told apart by their identifier-safe forms. -/
theorem marks_eq_of_cleanChars_eq {marks others : Indirection}
    (same : cleanChars (marks.map Mark.toChar) = cleanChars (others.map Mark.toChar)) :
    marks = others := by
  have step (mark : Mark) (rest : Indirection) : cleanChars ((mark :: rest).map Mark.toChar) =
      cleanChar mark.toChar ++ cleanChars (rest.map Mark.toChar) :=
    Spelling.cleanChars_cons (by cases mark <;> rfl) _
  induction marks generalizing others with
  | nil =>
      cases others with
      | nil => rfl
      | cons other rest =>
          rw [step] at same
          cases other <;> cases same
  | cons mark rest ih =>
      cases others with
      | nil =>
          rw [step] at same
          cases mark <;> cases same
      | cons other otherRest =>
          rw [step, step] at same
          cases mark <;> cases other
          · rw [ih (List.append_cancel_left same)]
          · cases same
          · cases same
          · rw [ih (List.append_cancel_left same)]

theorem suffixFields_injective : Function.Injective suffixFields := by
  intro marks others same
  by_cases none : marks = [] <;> by_cases otherNone : others = []
  · rw [none, otherNone]
  · simp [suffixFields, none, otherNone, (markFields_ne_nil others).symm] at same
  · simp [suffixFields, none, otherNone, markFields_ne_nil marks] at same
  · rw [suffixFields, suffixFields, if_neg none, if_neg otherNone] at same
    apply marks_eq_of_cleanChars_eq
    rw [← intercalate_markFields, ← intercalate_markFields, same]

/-- The first field of marks has no `r` in front, and every other has one. -/
theorem exists_markFields_eq_cons (marks : Indirection) :
    ∃ field others, markFields marks = field :: others ∧ isPointers field = true ∧
      ∀ other ∈ others, ∃ rest, other = 'r' :: rest ∧ isPointers rest = true := by
  induction marks with
  | nil => exact ⟨[], [], rfl, rfl, nofun⟩
  | cons mark rest ih =>
      obtain ⟨field, others, fields, pointers, behind⟩ := ih
      cases mark with
      | pointer =>
          exact ⟨"ptr".toList ++ field, others, by simp [markFields, fields], pointers, behind⟩
      | reference =>
          refine ⟨[], ('r' :: field) :: others, by simp [markFields, fields], rfl, ?_⟩
          intro other member
          rcases List.mem_cons.mp member with rfl | later
          · exact ⟨field, rfl, pointers⟩
          · exact behind other later

theorem isMarkField_of_isPointers {chars : List Char} (pointers : isPointers chars = true) :
    isMarkField chars = true := by
  unfold isMarkField
  split
  · cases pointers
  · exact pointers

theorem isMarkField_of_mem_suffixFields {marks : Indirection} {field : List Char}
    (member : field ∈ suffixFields marks) : isMarkField field = true := by
  rw [suffixFields] at member
  split at member
  · cases member
  · obtain ⟨first, others, fields, pointers, behind⟩ := exists_markFields_eq_cons marks
    rw [fields] at member
    rcases List.mem_cons.mp member with rfl | later
    · exact isMarkField_of_isPointers pointers
    · obtain ⟨rest, rfl, restPointers⟩ := behind field later
      exact restPointers

theorem underscore_not_mem_of_isPointers {chars : List Char} (pointers : isPointers chars = true) :
    '_' ∉ chars := by
  fun_induction isPointers chars with
  | case1 => simp
  | case2 rest ih => simpa using ih pointers
  | case3 => cases pointers

theorem underscore_not_mem_of_isMarkField {chars : List Char} (mark : isMarkField chars = true) :
    '_' ∉ chars := by
  unfold isMarkField at mark
  split at mark
  · simpa using underscore_not_mem_of_isPointers mark
  · exact underscore_not_mem_of_isPointers mark

/-! ## The fields of a type -/

theorem words_ne_nil (part : String) : words part ≠ [] :=
  List.splitOn_ne_nil _ _

theorem intercalate_words (part : String) : ['_'].intercalate (words part) = part.toList :=
  List.intercalate_splitOn _

theorem underscore_not_mem_splitOn (chars : List Char) :
    ∀ word ∈ chars.splitOn '_', '_' ∉ word := by
  induction chars with
  | nil => simp [List.splitOn_nil]
  | cons c rest ih =>
      obtain ⟨first, others, split⟩ := List.exists_cons_of_ne_nil (List.splitOn_ne_nil '_' rest)
      intro word member
      rw [split] at ih
      rw [List.splitOn, List.splitOnP_cons_eq_if_modifyHead, ← List.splitOn, split] at member
      split at member
      · rcases List.mem_cons.mp member with rfl | later
        · exact List.not_mem_nil
        · exact ih word later
      · next apart =>
          rcases List.mem_cons.mp member with rfl | later
          · have other : '_' ≠ c := fun same => apart (beq_iff_eq.mpr same.symm)
            exact List.not_mem_cons_of_ne_of_not_mem other (ih first List.mem_cons_self)
          · exact ih word (List.mem_cons_of_mem first later)

theorem words_injective : Function.Injective words := by
  intro part other same
  rw [← String.toList_inj, ← intercalate_words part, same, intercalate_words]

theorem nameFields_cons (part : String) {others : List String} (more : others ≠ []) :
    nameFields (part :: others) = words part ++ [] :: nameFields others := by
  have some : others.map words ≠ [] := by simpa using more
  rw [nameFields, List.map_cons, List.intercalate_cons_of_ne_nil some, nameFields]
  simp

theorem nameFields_singleton (part : String) : nameFields [part] = words part :=
  List.intercalate_singleton

theorem nameFields_ne_nil {parts : List String} (some : parts ≠ []) : nameFields parts ≠ [] := by
  obtain ⟨part, others, rfl⟩ := List.exists_cons_of_ne_nil some
  by_cases single : others = []
  · rw [single, nameFields_singleton]
    exact words_ne_nil part
  · simp [nameFields_cons part single]

theorem intercalate_nameFields {parts : List String} (some : parts ≠ [])
    (idents : ∀ part ∈ parts, IsIdent part.toList) :
    ['_'].intercalate (nameFields parts) = cleanChars (pathChars parts) := by
  induction parts with
  | nil => exact absurd rfl some
  | cons part others ih =>
      have isPart := (idents part List.mem_cons_self).parts
      have unchanged := Spelling.cleanChars_of_isIdentPart isPart
      by_cases single : others = []
      · rw [single, nameFields_singleton, intercalate_words, pathChars, List.map_singleton,
          List.intercalate_singleton, unchanged]
      · have later := ih single fun other member => idents other (List.mem_cons_of_mem part member)
        rw [nameFields_cons part single,
          intercalate_append (words_ne_nil part) (List.cons_ne_nil _ _), intercalate_words,
          List.intercalate_cons_of_ne_nil (nameFields_ne_nil single), later,
          pathChars_cons part single, (Spelling.of_isIdentPart isPart).cleanChars_append, unchanged]
        rfl

theorem intercalate_suffixFields {fields : List (List Char)} (some : fields ≠ [])
    {chars : List Char} (spelling : Spelling chars)
    (clean : ['_'].intercalate fields = cleanChars chars) (marks : Indirection) :
    ['_'].intercalate (fields ++ suffixFields marks) =
      cleanChars (chars ++ ((if marks.isEmpty then [] else [' ']) ++ marks.map Mark.toChar)) := by
  rw [spelling.cleanChars_append, ← clean]
  by_cases none : marks = []
  · simp [none, suffixFields, cleanChars]
  · rw [suffixFields, if_neg none, intercalate_append some (markFields_ne_nil marks),
      intercalate_markFields, if_neg (by simpa using none), Spelling.space.cleanChars_append]
    rfl

/-- Words with a blank behind each are fields of their own. -/
theorem cleanChars_words {words fields : List (List Char)} {rest : List Char}
    (idents : ∀ word ∈ words, ∀ c ∈ word, isIdentPart c = true) (some : fields ≠ [])
    (clean : cleanChars rest = ['_'].intercalate fields) :
    cleanChars (words.flatMap (· ++ [' ']) ++ rest) = ['_'].intercalate (words ++ fields) := by
  have blank : isPlain ' ' = true := rfl
  induction words with
  | nil => exact clean
  | cons word words ih =>
      have ident := idents word List.mem_cons_self
      have more : words ++ fields ≠ [] := List.append_ne_nil_of_right_ne_nil words some
      rw [List.flatMap_cons, List.append_assoc, List.append_assoc,
        (Spelling.of_isIdentPart ident).cleanChars_append,
        Spelling.cleanChars_of_isIdentPart ident, List.singleton_append,
        Spelling.cleanChars_cons blank, ih fun other member => idents other
          (List.mem_cons_of_mem word member), List.cons_append,
        List.intercalate_cons_of_ne_nil more, List.append_assoc]
      rfl

theorem mem_qualifierFields_iff {type : NativeType} {field : List Char} :
    field ∈ type.qualifierFields ↔
      type.isConst = true ∧ field = "const".toList ∨
        ∃ sign, type.signedness = some sign ∧ field = sign.text.toList := by
  rw [qualifierFields, List.mem_append, List.mem_map]
  apply or_congr
  · cases type.isConst <;> simp
  · simp only [Option.mem_toList, eq_comm]

theorem isIdentPart_qualifierFields {type : NativeType} :
    ∀ field ∈ type.qualifierFields, ∀ c ∈ field, isIdentPart c = true := by
  intro field member
  rcases mem_qualifierFields_iff.mp member with ⟨-, rfl⟩ | ⟨sign, -, rfl⟩
  · exact isIdentPart_const
  · exact isIdentPart_sign sign

/-- A canonical spelling is the qualifiers with a blank behind each, the name and the
marks. -/
theorem toList_canonical (type : NativeType) :
    type.canonical.toList = type.qualifierFields.flatMap (· ++ [' ']) ++
      (pathChars type.name.parts ++
        ((if type.marks.isEmpty then [] else [' ']) ++ type.marks.map Mark.toChar)) := by
  rw [← text_canonicalPieces]
  rcases type with ⟨isConst, signedness, name, marks⟩
  cases isConst <;> cases signedness <;>
    simp [canonicalPieces, Pieces.text, Pieces.behindLead, Pieces.behindConst,
      Pieces.behindName, qualifierFields]

/-- The identifier-safe form of a type is its fields, joined by underscores. -/
theorem cleanChars_canonical {type : NativeType}
    (idents : ∀ part ∈ type.name.parts, IsIdent part.toList) :
    cleanChars type.canonical.toList = ['_'].intercalate
      (type.qualifierFields ++ (nameFields type.name.parts ++ suffixFields type.marks)) := by
  have some := nameFields_ne_nil type.name.parts_ne_nil
  rw [toList_canonical]
  exact cleanChars_words isIdentPart_qualifierFields (List.append_ne_nil_of_left_ne_nil some _)
    (intercalate_suffixFields some (.pathChars idents)
      (intercalate_nameFields type.name.parts_ne_nil idents) type.marks).symm

/-- No field has an underscore. -/
theorem underscore_not_mem_fields (type : NativeType) :
    ∀ field ∈ type.qualifierFields ++ (nameFields type.name.parts ++ suffixFields type.marks),
      '_' ∉ field := by
  have inName (parts : List String) : ∀ field ∈ nameFields parts, '_' ∉ field := by
    induction parts with
    | nil => simp [nameFields]
    | cons part others ih =>
        intro field member
        by_cases single : others = []
        · rw [single, nameFields_singleton] at member
          exact underscore_not_mem_splitOn _ field member
        · rw [nameFields_cons part single, List.mem_append, List.mem_cons] at member
          rcases member with here | rfl | later
          · exact underscore_not_mem_splitOn _ field here
          · exact List.not_mem_nil
          · exact ih field later
  intro field member
  rcases List.mem_append.mp member with inQualifiers | member
  · rcases mem_qualifierFields_iff.mp inQualifiers with ⟨-, rfl⟩ | ⟨sign, -, rfl⟩
    · decide
    · cases sign <;> decide
  · rcases List.mem_append.mp member with listed | inMarks
    · exact inName _ field listed
    · exact underscore_not_mem_of_isMarkField (isMarkField_of_mem_suffixFields inMarks)

/-! ## Reading the fields -/

section Reading

variable {type second : NativeType}

/-- The fields without those of the marks. -/
theorem rdropWhile_fields (plain : type.Plain) :
    (type.qualifierFields ++ (nameFields type.name.parts ++ suffixFields type.marks)).rdropWhile
        isMarkField =
      type.qualifierFields ++ nameFields type.name.parts := by
  have last : ∃ front, nameFields type.name.parts = front ++ words type.name.name := by
    rw [ScopedName.parts]
    induction type.name.scopes with
    | nil => exact ⟨[], nameFields_singleton _⟩
    | cons scope scopes ih =>
        obtain ⟨front, fields⟩ := ih
        refine ⟨words scope ++ [] :: front, ?_⟩
        rw [List.cons_append, nameFields_cons scope (by simp), fields]
        simp
  obtain ⟨front, fields⟩ := last
  rw [← List.append_assoc]
  apply rdropWhile_append_of_pos
  · intro field isLast
    rw [fields, ← List.append_assoc, List.getLast?_append_of_ne_nil _ (words_ne_nil _)] at isLast
    exact plain.ending field isLast
  · exact fun field member => isMarkField_of_mem_suffixFields member

/-- The qualifiers and the first part of the name, and the other parts of the name, are what
stands between empty fields. -/
theorem splitOn_fields (plain : type.Plain) {first : String} {others : List String}
    (parts : type.name.parts = first :: others) :
    (type.qualifierFields ++ nameFields type.name.parts).splitOn [] =
      (type.qualifierFields ++ words first) :: others.map words := by
  have joined : type.qualifierFields ++ nameFields type.name.parts =
      [[]].intercalate ((type.qualifierFields ++ words first) :: others.map words) := by
    rw [nameFields, ← intercalate_modifyHead _ (by simp [parts]), parts]
    rfl
  have spaced : ∀ part ∈ first :: others, [] ∉ words part := parts ▸ plain.spaced
  rw [joined]
  apply List.splitOn_intercalate
  · intro fields member
    rcases List.mem_cons.mp member with rfl | later
    · rw [List.mem_append, not_or]
      refine ⟨?_, spaced first List.mem_cons_self⟩
      intro empty
      rcases mem_qualifierFields_iff.mp empty with ⟨-, same⟩ | ⟨sign, -, same⟩
      · cases same
      · cases sign <;> cases same
    · obtain ⟨part, listed, rfl⟩ := List.mem_map.mp later
      exact spaced part (List.mem_cons_of_mem first listed)
  · exact List.cons_ne_nil _ _

theorem isQualifierWord_of_mem {field : List Char} (member : field ∈ type.qualifierFields) :
    isQualifierWord field = true := by
  rcases mem_qualifierFields_iff.mp member with ⟨-, rfl⟩ | ⟨sign, -, rfl⟩
  · rfl
  · cases sign <;> rfl

/-- The last word is no qualifier, and of the others the qualifiers stand in front. -/
theorem takeWhile_dropLast_fields (plain : type.Plain) {first : String} {others : List String}
    (parts : type.name.parts = first :: others) :
    (type.qualifierFields ++ words first).dropLast.takeWhile isQualifierWord =
      type.qualifierFields := by
  have opening := plain.opening first (by simp [parts])
  rw [List.dropLast_append_of_ne_nil (words_ne_nil first),
    List.takeWhile_append_of_pos fun field => isQualifierWord_of_mem]
  cases rest : (words first).dropLast with
  | nil => simp
  | cons word rest =>
      rw [List.takeWhile_cons, opening word (by simp [rest])]
      simp

theorem const_mem_qualifierFields_iff :
    "const".toList ∈ type.qualifierFields ↔ type.isConst = true := by
  rw [mem_qualifierFields_iff]
  constructor
  · rintro (⟨isConst, -⟩ | ⟨sign, -, same⟩)
    · exact isConst
    · cases sign <;> cases same
  · exact fun isConst => .inl ⟨isConst, rfl⟩

theorem sign_mem_qualifierFields_iff {sign : Signedness} :
    sign.text.toList ∈ type.qualifierFields ↔ type.signedness = some sign := by
  rw [mem_qualifierFields_iff]
  constructor
  · rintro (⟨-, same⟩ | ⟨second, isSecond, same⟩)
    · cases sign <;> cases same
    · rw [isSecond, sign_eq_of_append_eq (congrArg (· ++ []) same)]
  · exact fun signed => .inr ⟨sign, signed, rfl⟩

theorem qualifiers_eq_of_fields_eq {second : NativeType}
    (same : type.qualifierFields = second.qualifierFields) :
    type.isConst = second.isConst ∧ type.signedness = second.signedness := by
  constructor
  · rw [Bool.eq_iff_iff, ← const_mem_qualifierFields_iff, ← const_mem_qualifierFields_iff, same]
  · apply Option.ext
    intro sign
    rw [← sign_mem_qualifierFields_iff, ← sign_mem_qualifierFields_iff, same]

/-- Types with plain names are determined by their fields. -/
theorem eq_of_fields_eq (plain : type.Plain) (secondPlain : second.Plain)
    (same : type.qualifierFields ++ (nameFields type.name.parts ++ suffixFields type.marks) =
      second.qualifierFields ++ (nameFields second.name.parts ++ suffixFields second.marks)) :
    type = second := by
  obtain ⟨first, others, parts⟩ := List.exists_cons_of_ne_nil type.name.parts_ne_nil
  obtain ⟨head, rest, secondParts⟩ := List.exists_cons_of_ne_nil second.name.parts_ne_nil
  have named := congrArg (List.rdropWhile isMarkField) same
  rw [rdropWhile_fields plain, rdropWhile_fields secondPlain] at named
  have chunks := congrArg (List.splitOn []) named
  rw [splitOn_fields plain parts, splitOn_fields secondPlain secondParts, List.cons.injEq] at chunks
  obtain ⟨firstSame, othersSame⟩ := chunks
  have qualifiers := congrArg (fun fields => fields.dropLast.takeWhile isQualifierWord) firstSame
  rw [takeWhile_dropLast_fields plain parts, takeWhile_dropLast_fields secondPlain secondParts]
    at qualifiers
  obtain ⟨constSame, signSame⟩ := qualifiers_eq_of_fields_eq qualifiers
  rw [qualifiers] at firstSame
  have partsSame : type.name.parts = second.name.parts := by
    rw [parts, secondParts, words_injective (List.append_cancel_left firstSame),
      List.map_injective_iff.mpr words_injective othersSame]
  have nameSame : type.name = second.name := by
    rw [← ScopedName.ofParts_parts type.name, partsSame, ScopedName.ofParts_parts]
  have marksSame : type.marks = second.marks := by
    rw [qualifiers, partsSame] at same
    exact suffixFields_injective (List.append_cancel_left (List.append_cancel_left same))
  rcases type with ⟨isConst, signedness, name, marks⟩
  cases constSame
  cases signSame
  cases nameSame
  cases marksSame
  rfl

end Reading

/-- Types that can be read and have plain names are told apart by their
identifier-safe forms. -/
theorem eq_of_cleanName_eq {text other : String} {type second : NativeType}
    (parsed : parse text = .ok type) (otherParsed : parse other = .ok second)
    (plain : type.Plain) (secondPlain : second.Plain)
    (same : cleanName type.canonical = cleanName second.canonical) : type = second := by
  obtain ⟨_, -, spelled⟩ := exists_spell_of_parse parsed
  obtain ⟨_, -, secondSpelled⟩ := exists_spell_of_parse otherParsed
  have fields := String.ofList_injective same
  rw [cleanChars_canonical spelled.name.1, cleanChars_canonical secondSpelled.name.1] at fields
  have some (type : NativeType) :
      type.qualifierFields ++ (nameFields type.name.parts ++ suffixFields type.marks) ≠ [] :=
    List.append_ne_nil_of_right_ne_nil _
      (List.append_ne_nil_of_left_ne_nil (nameFields_ne_nil type.name.parts_ne_nil) _)
  have cut := congrArg (List.splitOn '_') fields
  rw [List.splitOn_intercalate '_' (underscore_not_mem_fields type) (some type),
    List.splitOn_intercalate '_' (underscore_not_mem_fields second) (some second)] at cut
  exact eq_of_fields_eq plain secondPlain cut

end NativeType

end Bindery
