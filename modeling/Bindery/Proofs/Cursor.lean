import Bindery.Cursor
import Mathlib.Data.List.TakeWhile
import Mathlib.Data.String.Basic

/-!
# What reading passes over

Reading leads from a place in a text to a later one.  A step is described by the
characters between the two places, which move the offset by their bytes, and, where it reads
as far as it can, by what does not come next; these descriptions determine the place that a
step leads to.  The text of a run is cut out by lengths, and is what was passed over if the
cursor stands where its offset says.
-/

namespace Bindery

namespace Text

theorem isIdentPart_of_isIdentStart {c : Char} (starts : isIdentStart c = true) :
    isIdentPart c = true := by
  simp only [isIdentStart, isIdentPart, Char.isAlphanum, Bool.or_eq_true] at starts ⊢
  rcases starts with letter | underscore
  · exact .inl (.inl letter)
  · exact .inr underscore

/-- Capitals, small letters, digits and the underscore, by their code points. -/
theorem isIdentPart_iff_toNat {c : Char} :
    isIdentPart c = true ↔
      ((65 ≤ c.toNat ∧ c.toNat ≤ 90) ∨ (97 ≤ c.toNat ∧ c.toNat ≤ 122) ∨
        (48 ≤ c.toNat ∧ c.toNat ≤ 57)) ∨ c = '_' := by
  have classes : isIdentPart c =
      (decide ('A'.val ≤ c.val ∧ c.val ≤ 'Z'.val) || ('a'.val ≤ c.val && c.val ≤ 'z'.val) ||
        ('0'.val ≤ c.val && c.val ≤ '9'.val) || c == '_') := rfl
  rw [classes]
  simp only [Bool.or_eq_true, Bool.and_eq_true, decide_eq_true_eq, beq_iff_eq,
    UInt32.le_iff_toNat_le, Char.toNat_val, Char.reduceVal, UInt32.reduceToNat, or_assoc]

/-- White space ends an identifier. -/
theorem isIdentPart_of_isBlank {c : Char} (blank : isBlank c = true) : isIdentPart c = false := by
  simp only [isBlank, blankRanges, List.any_cons, List.any_nil, Bool.or_false, Bool.or_eq_true,
    Bool.and_eq_true, decide_eq_true_eq] at blank
  by_contra part
  rcases isIdentPart_iff_toNat.mp (by simpa using part) with letterOrDigit | rfl
  · omega
  · revert blank
    decide

/-- Whether a text begins with a character of a class. -/
def begins (test : Char → Bool) (chars : List Char) : Bool :=
  chars.head?.any test

@[simp]
theorem begins_nil (test : Char → Bool) : begins test [] = false := rfl

@[simp]
theorem begins_cons (test : Char → Bool) (c : Char) (chars : List Char) :
    begins test (c :: chars) = test c := rfl

theorem begins_append_of_begins {test : Char → Bool} {first : List Char}
    (begun : begins test first = true) (second : List Char) :
    begins test (first ++ second) = true := by
  cases first with
  | nil => cases begun
  | cons c chars => exact begun

theorem begins_eq_false_of_forall {test : Char → Bool} {chars : List Char}
    (none : ∀ c ∈ chars, test c = false) : begins test chars = false := by
  cases chars with
  | nil => rfl
  | cons c chars => exact none c List.mem_cons_self

theorem begins_isBlank_of_begins_isIdentStart {chars : List Char}
    (starts : begins isIdentStart chars = true) : begins isBlank chars = false := by
  cases chars with
  | nil => rfl
  | cons c chars =>
      by_contra blank
      have part := isIdentPart_of_isIdentStart starts
      rw [isIdentPart_of_isBlank (by simpa using blank)] at part
      cases part

/-- A run of a class that is followed by no more of it is what is taken and dropped. -/
theorem takeWhile_dropWhile_append {test : Char → Bool} {run chars : List Char}
    (all : ∀ c ∈ run, test c = true) (ends : begins test chars = false) :
    (run ++ chars).takeWhile test = run ∧ (run ++ chars).dropWhile test = chars := by
  rw [List.takeWhile_append_of_pos all, List.dropWhile_append_of_pos all]
  cases chars with
  | nil => simp
  | cons c chars =>
      rw [begins_cons] at ends
      simp [ends]

theorem byteLength_eq_utf8ByteSize (chars : List Char) :
    byteLength chars = (String.ofList chars).utf8ByteSize := by
  induction chars with
  | nil => simp
  | cons c chars ih =>
      rw [byteLength_cons, ih, ← List.singleton_append, String.ofList_append,
        String.utf8ByteSize_append, ← String.singleton_eq_ofList, String.utf8ByteSize_singleton]

/-- A run of white space. -/
def IsBlanks (chars : List Char) : Prop :=
  ∀ c ∈ chars, isBlank c = true

end Text

namespace Cursor

open Text

variable {cursor middle after : Cursor} {passed : List Char}

/-- Passing over the given characters leads from one place to another. -/
structure Passes (cursor : Cursor) (passed : List Char) (after : Cursor) : Prop where
  source : after.source = cursor.source
  rest : cursor.rest = passed ++ after.rest
  offset : after.offset = cursor.offset + byteLength passed

namespace Passes

theorem refl (cursor : Cursor) : cursor.Passes [] cursor :=
  ⟨rfl, rfl, rfl⟩

theorem trans {first second : List Char} (earlier : cursor.Passes first middle)
    (later : middle.Passes second after) : cursor.Passes (first ++ second) after where
  source := later.source.trans earlier.source
  rest := by rw [earlier.rest, later.rest, List.append_assoc]
  offset := by rw [later.offset, earlier.offset, byteLength_append, Nat.add_assoc]

/-- The characters determine where they lead to. -/
theorem unique {other : Cursor} (passes : cursor.Passes passed after)
    (also : cursor.Passes passed other) : after = other := by
  have sameRest := passes.rest.symm.trans also.rest
  rw [List.append_cancel_left_eq] at sameRest
  rcases after with ⟨source, rest, offset⟩
  rcases other with ⟨otherSource, otherRest, otherOffset⟩
  rw [mk.injEq]
  exact ⟨passes.source.trans also.source.symm, sameRest, passes.offset.trans also.offset.symm⟩

end Passes

@[simp]
theorem passes_nil_iff : cursor.Passes [] after ↔ cursor = after := by
  constructor
  · intro passes
    exact (Passes.refl cursor).unique passes
  · rintro rfl
    exact .refl cursor

/-- There is a place behind characters that the rest starts with. -/
theorem exists_passes {rest : List Char} (split : cursor.rest = passed ++ rest) :
    ∃ after, cursor.Passes passed after ∧ after.rest = rest :=
  ⟨⟨cursor.source, rest, cursor.offset + byteLength passed⟩, ⟨rfl, split, rfl⟩, rfl⟩

theorem passes_append_iff {first second : List Char} :
    cursor.Passes (first ++ second) after ↔
      ∃ middle, cursor.Passes first middle ∧ middle.Passes second after := by
  constructor
  · intro passes
    have split := passes.rest
    rw [List.append_assoc] at split
    obtain ⟨middle, earlier, behind⟩ := exists_passes split
    refine ⟨middle, earlier, passes.source.trans earlier.source.symm, behind, ?_⟩
    rw [passes.offset, earlier.offset, byteLength_append, Nat.add_assoc]
  · rintro ⟨middle, earlier, later⟩
    exact earlier.trans later

/-- A cursor stands at a place of its text: what it has left is what the text has behind as many
bytes as its offset says. -/
def Placed (cursor : Cursor) : Prop :=
  ∃ front, (start cursor.source).Passes front cursor

theorem placed_start (text : String) : (start text).Placed :=
  ⟨[], .refl _⟩

/-- Passing over characters keeps to the places of the text. -/
theorem Passes.placed (passes : cursor.Passes passed after) (placed : cursor.Placed) :
    after.Placed := by
  obtain ⟨front, fromStart⟩ := placed
  rw [← passes.source] at fromStart
  exact ⟨front ++ passed, fromStart.trans passes⟩

theorem nextIs_eq_begins (cursor : Cursor) (test : Char → Bool) :
    cursor.nextIs test = begins test cursor.rest := rfl

theorem startsWith_iff {word : String} :
    cursor.startsWith word = true ↔ word.toList <+: cursor.rest :=
  List.isPrefixOf_iff_prefix

/-- Advancing passes over the next character, if there is one. -/
theorem passes_advance (cursor : Cursor) :
    cursor.Passes cursor.advance.1.toList cursor.advance.2 := by
  rcases cursor with ⟨source, _ | ⟨c, rest⟩, offset⟩
  · exact .refl _
  · exact ⟨rfl, rfl, rfl⟩

theorem eat?_eq_some_iff {word : String} :
    cursor.eat? word = some after ↔ cursor.Passes word.toList after := by
  rw [eat?]
  split
  · next starts =>
      obtain ⟨behind, split⟩ := startsWith_iff.mp starts
      have passes : cursor.Passes word.toList ⟨cursor.source, cursor.rest.drop word.toList.length,
          cursor.offset + byteLength word.toList⟩ := by
        refine ⟨rfl, ?_, rfl⟩
        rw [← split, List.drop_left]
      rw [Option.some.injEq]
      constructor
      · rintro rfl
        exact passes
      · exact passes.unique
  · next fails =>
      constructor
      · simp
      · intro passes
        exact absurd (startsWith_iff.mpr ⟨after.rest, passes.rest.symm⟩) fails

theorem eat?_eq_none_iff {word : String} :
    cursor.eat? word = none ↔ cursor.startsWith word = false := by
  simp [eat?]

/-- The loop passes over characters of the class and stops where no more of them follow. -/
theorem exists_passes_advanceWhile (cursor : Cursor) (test : Char → Bool) :
    ∃ run, cursor.Passes run (cursor.advanceWhile test) ∧ (∀ c ∈ run, test c = true) ∧
      (cursor.advanceWhile test).nextIs test = false := by
  fun_induction advanceWhile cursor test with
  | case1 cursor goesOn ih =>
      obtain ⟨run, passes, all, ends⟩ := ih
      refine ⟨_, (passes_advance cursor).trans passes, List.forall_mem_append.mpr ⟨?_, all⟩, ends⟩
      rcases cursor with ⟨source, _ | ⟨c, rest⟩, offset⟩
      · cases goesOn
      · exact List.forall_mem_singleton.mpr goesOn
  | case2 cursor stops => exact ⟨[], .refl cursor, by simp, by simpa using stops⟩

theorem advanceWhile_eq_iff {test : Char → Bool} :
    cursor.advanceWhile test = after ↔
      ∃ run, cursor.Passes run after ∧ (∀ c ∈ run, test c = true) ∧ after.nextIs test = false := by
  obtain ⟨run, passes, all, ends⟩ := exists_passes_advanceWhile cursor test
  constructor
  · rintro rfl
    exact ⟨run, passes, all, ends⟩
  · rintro ⟨other, otherPasses, otherAll, otherEnds⟩
    -- Both runs are the longest of their class in front of the cursor.
    have longest := (takeWhile_dropWhile_append all ends).1
    have otherLongest := (takeWhile_dropWhile_append otherAll otherEnds).1
    rw [← passes.rest] at longest
    rw [← otherPasses.rest] at otherLongest
    have same : run = other := longest.symm.trans otherLongest
    subst same
    exact passes.unique otherPasses

theorem bytesRead_eq (placed : cursor.Placed) : cursor.bytesRead = cursor.offset := by
  obtain ⟨front, fromStart⟩ := placed
  have split : cursor.source.toList = front ++ cursor.rest := fromStart.rest
  rw [bytesRead, split, byteLength_append, Nat.add_sub_cancel, fromStart.offset]
  exact (Nat.zero_add _).symm

/-- Between two places the text is what lies between them. -/
theorem extract_eq_of_passes (placed : cursor.Placed) (passes : cursor.Passes passed after) :
    String.Pos.Raw.extract cursor.source ⟨cursor.bytesRead⟩ ⟨after.bytesRead⟩ =
      String.ofList passed := by
  rw [bytesRead_eq placed, bytesRead_eq (passes.placed placed), passes.offset]
  obtain ⟨front, fromStart⟩ := placed
  have isSource : cursor.source = String.ofList (front ++ passed ++ after.rest) := by
    rw [List.append_assoc, ← passes.rest, ← fromStart.rest]
    exact String.ofList_toList.symm
  have isOffset : cursor.offset = byteLength front := fromStart.offset.trans (Nat.zero_add _)
  rw [isOffset, isSource]
  simp only [byteLength_eq_utf8ByteSize, String.utf8ByteSize_ofList]
  exact String.extract_of_valid front passed after.rest

/-- The longest run of a class is the one that no more of the class follows. -/
theorem eatWhile_eq_iff {test : Char → Bool} {run : String} (placed : cursor.Placed) :
    cursor.eatWhile test = (run, after) ↔
      cursor.Passes run.toList after ∧ (∀ c ∈ run.toList, test c = true) ∧
        after.nextIs test = false := by
  rw [eatWhile, Prod.mk.injEq]
  constructor
  · rintro ⟨rfl, rfl⟩
    obtain ⟨run, passes, all, ends⟩ := exists_passes_advanceWhile cursor test
    rw [extract_eq_of_passes placed passes, String.toList_ofList]
    exact ⟨passes, all, ends⟩
  · rintro ⟨passes, all, ends⟩
    have isEnd := advanceWhile_eq_iff.mpr ⟨_, passes, all, ends⟩
    rw [isEnd, extract_eq_of_passes placed passes, String.ofList_toList]
    exact ⟨rfl, rfl⟩

theorem skipBlanks_eq_iff :
    cursor.skipBlanks = after ↔
      ∃ blanks, cursor.Passes blanks after ∧ IsBlanks blanks ∧ after.nextIs isBlank = false :=
  advanceWhile_eq_iff

theorem Placed.skipBlanks (placed : cursor.Placed) : cursor.skipBlanks.Placed := by
  obtain ⟨blanks, passes, -⟩ := skipBlanks_eq_iff.mp (Eq.refl cursor.skipBlanks)
  exact passes.placed placed

theorem rest_skipBlanks (cursor : Cursor) :
    cursor.skipBlanks.rest = cursor.rest.dropWhile isBlank := by
  obtain ⟨blanks, passes, blank, stops⟩ := skipBlanks_eq_iff.mp (Eq.refl cursor.skipBlanks)
  rw [passes.rest]
  exact (takeWhile_dropWhile_append blank stops).2.symm

end Cursor

end Bindery
