import Bindery.Proofs.Cursor

/-!
# Cursors in use

A cursor is moved forward over the text in front of it and goes back to places where it has
stood.  Offset and rest are updated apart from each other, and going back takes both from the
checkpoint.  Whatever is done, they stay together: the cursor stands between two characters of
its text, at the byte that its offset says, with the rest of the text behind it.
-/

namespace Bindery.Cursor

open Text

/-- What can be done with a cursor.  Checkpoints are numbered in the order in which they are
taken. -/
inductive Action where
  | advance
  | eat (word : String)
  | eatWhile (test : Char → Bool)
  | skipBlanks
  | save
  | restore (number : Nat)

namespace Action

/-- The text that an action reports to have passed over. -/
def passed (cursor : Cursor) : Action → String
  | .advance => String.ofList cursor.advance.1.toList
  | .eat word => if (cursor.eat? word).isSome then word else ""
  | .eatWhile test => (cursor.eatWhile test).1
  | .skipBlanks => (cursor.eatWhile isBlank).1
  | .save => ""
  | .restore _ => ""

/-- The place that an action leads to.  Where a checkpoint leads to is not known here. -/
def next (cursor : Cursor) : Action → Cursor
  | .advance => cursor.advance.2
  | .eat word => (cursor.eat? word).getD cursor
  | .eatWhile test => (cursor.eatWhile test).2
  | .skipBlanks => cursor.skipBlanks
  | .save => cursor
  | .restore _ => cursor

/-- What has been passed over lies between the two places. -/
theorem passes {cursor : Cursor} (placed : cursor.Placed) (action : Action) :
    cursor.Passes (action.passed cursor).toList (action.next cursor) := by
  cases action with
  | advance => simpa [passed, next] using passes_advance cursor
  | eat word =>
      cases eaten : cursor.eat? word with
      | none => simp [next, passed, eaten]
      | some after => simpa [next, passed, eaten] using eat?_eq_some_iff.mp eaten
  | eatWhile test => exact ((eatWhile_eq_iff placed).mp rfl).1
  | skipBlanks => exact ((eatWhile_eq_iff placed).mp rfl).1
  | save => exact .refl cursor
  | restore number => exact .refl cursor

end Action

/-- A cursor in use, and the checkpoints taken so far. -/
structure Trail where
  cursor : Cursor
  saved : List Checkpoint

namespace Trail

/-- At the start of a text. -/
def start (source : String) : Trail :=
  ⟨.start source, []⟩

/-- An action moves the cursor forward, takes a checkpoint, or goes back to one; a checkpoint
that was not taken changes nothing. -/
def step (trail : Trail) (action : Action) : Trail :=
  match action with
  | .save => { trail with saved := trail.saved ++ [trail.cursor.checkpoint] }
  | .restore number =>
      match trail.saved[number]? with
      | some saved => { trail with cursor := trail.cursor.restore saved }
      | none => trail
  | _ => { trail with cursor := action.next trail.cursor }

/-- After actions on a text, in order. -/
def run (source : String) (actions : List Action) : Trail :=
  actions.foldl step (start source)

/-- The cursor stands at a place of the text, and so it does at every checkpoint. -/
structure Sound (source : String) (trail : Trail) : Prop where
  ofSource : trail.cursor.source = source
  placed : trail.cursor.Placed
  saved : ∀ saved ∈ trail.saved, Placed ⟨source, saved.rest, saved.offset⟩

variable {source : String} {trail : Trail}

theorem sound_start (source : String) : (start source).Sound source :=
  ⟨rfl, placed_start source, by simp [start]⟩

theorem Sound.forward (sound : trail.Sound source) (action : Action) :
    Sound source { trail with cursor := action.next trail.cursor } := by
  have passes := action.passes sound.placed
  exact ⟨passes.source.trans sound.ofSource, passes.placed sound.placed, sound.saved⟩

/-- Every action keeps the offset and the rest of the cursor together. -/
theorem Sound.step (sound : trail.Sound source) (action : Action) :
    (trail.step action).Sound source := by
  rcases trail with ⟨⟨text, rest, offset⟩, saved⟩
  obtain rfl : text = source := sound.ofSource
  cases action with
  | save =>
      refine ⟨rfl, sound.placed, List.forall_mem_append.mpr ⟨sound.saved, ?_⟩⟩
      exact List.forall_mem_singleton.mpr sound.placed
  | restore number =>
      rw [Trail.step]
      split
      · next checkpoint taken =>
          exact ⟨rfl, sound.saved checkpoint (List.mem_of_getElem? taken), sound.saved⟩
      · exact sound
  | _ => exact sound.forward _

/-- What one action keeps, a run of them keeps. -/
theorem Sound.steps (sound : trail.Sound source) (actions : List Action) :
    (actions.foldl Trail.step trail).Sound source := by
  induction actions generalizing trail with
  | nil => exact sound
  | cons action rest ih => exact ih (sound.step action)

theorem sound_run (source : String) (actions : List Action) : (run source actions).Sound source :=
  (sound_start source).steps actions

/-- An action that does not go back leads over the text that it reports. -/
theorem Sound.passes_step (sound : trail.Sound source) {action : Action}
    (forward : ∀ number, action ≠ .restore number) :
    trail.cursor.Passes (action.passed trail.cursor).toList (trail.step action).cursor := by
  have passes := action.passes sound.placed
  cases action with
  | restore number => exact absurd rfl (forward number)
  | save => exact passes
  | _ => exact passes

end Trail

section Places

variable {cursor after : Cursor}

theorem byteLength_toList (text : String) : byteLength text.toList = text.utf8ByteSize := by
  rw [byteLength_eq_utf8ByteSize, String.ofList_toList]

theorem Placed.offset_add (placed : cursor.Placed) :
    cursor.offset + (String.ofList cursor.rest).utf8ByteSize = cursor.source.utf8ByteSize := by
  obtain ⟨front, fromStart⟩ := placed
  have split : cursor.source.toList = front ++ cursor.rest := fromStart.rest
  have size := byteLength_toList cursor.source
  rw [split, byteLength_append] at size
  rw [fromStart.offset, ← size, ← byteLength_eq_utf8ByteSize]
  simp [start]

/-- The bytes in front of the rest end between two characters. -/
theorem Placed.exists_splits (placed : cursor.Placed) :
    ∃ (place : cursor.source.Pos) (front : String), place.offset.byteIdx = cursor.offset ∧
      place.Splits front (String.ofList cursor.rest) := by
  obtain ⟨front, fromStart⟩ := placed
  have joined : cursor.source = String.ofList front ++ String.ofList cursor.rest := by
    rw [← String.ofList_append, ← fromStart.rest]
    exact String.ofList_toList.symm
  have splits := String.Pos.splits_ofEqAppend joined
  refine ⟨_, String.ofList front, ?_, splits⟩
  rw [splits.offset_eq_rawEndPos, fromStart.offset, byteLength_eq_utf8ByteSize]
  exact (Nat.zero_add _).symm

/-- What is passed over is the text between the two places. -/
theorem Passes.exists_extract {passed : String} (passes : cursor.Passes passed.toList after)
    (placed : cursor.Placed) :
    ∃ first last : cursor.source.Pos, first.offset.byteIdx = cursor.offset ∧
      last.offset.byteIdx = after.offset ∧ String.extract first last = passed := by
  have afterPlaced := passes.placed placed
  have sameSource := passes.source
  have split := passes.rest
  rcases cursor with ⟨source, rest, offset⟩
  rcases after with ⟨text, afterRest, afterOffset⟩
  obtain rfl : text = source := sameSource
  obtain rfl : rest = passed.toList ++ afterRest := split
  obtain ⟨first, front, firstOffset, firstSplits⟩ := placed.exists_splits
  obtain ⟨last, longer, lastOffset, lastSplits⟩ := afterPlaced.exists_splits
  rw [String.ofList_append, String.ofList_toList] at firstSplits
  have sameFront : longer = front ++ passed := by
    have same := lastSplits.eq_append.symm.trans firstSplits.eq_append
    rwa [← String.append_assoc, String.append_left_inj] at same
  obtain ⟨ordered, copied⟩ := String.copy_slice_eq_iff_splits.mpr
    ⟨front, String.ofList afterRest, firstSplits, sameFront ▸ lastSplits⟩
  refine ⟨first, last, firstOffset, lastOffset, ?_⟩
  rw [String.extract_eq_copy_slice first last ordered, copied]

end Places

/-- The longest text in front of others that is all of a class. -/
structure LongestRun (test : Char → Bool) (chars run : List Char) : Prop where
  front : run <+: chars
  all : ∀ c ∈ run, test c = true
  longest : ∀ other, other <+: chars → (∀ c ∈ other, test c = true) → other <+: run

/-- Advancing as long as the next character is of a class comes to an end at a place. -/
inductive AdvancesWhile (test : Char → Bool) : Cursor → Cursor → Prop where
  | done {cursor : Cursor} (ends : cursor.nextIs test = false) : AdvancesWhile test cursor cursor
  | more {cursor after : Cursor} (goesOn : cursor.nextIs test = true)
      (later : AdvancesWhile test cursor.advance.2 after) : AdvancesWhile test cursor after

theorem longestRun_takeWhile (test : Char → Bool) (chars : List Char) :
    LongestRun test chars (chars.takeWhile test) := by
  refine ⟨List.takeWhile_prefix test, fun c => List.mem_takeWhile_imp, ?_⟩
  rintro other ⟨behind, rfl⟩ all
  rw [List.takeWhile_append_of_pos all]
  exact List.prefix_append other _

theorem longestRun_eatWhile {cursor : Cursor} (placed : cursor.Placed) (test : Char → Bool) :
    LongestRun test cursor.rest (cursor.eatWhile test).1.toList := by
  obtain ⟨passes, all, ends⟩ := (eatWhile_eq_iff placed).mp (Prod.eta (cursor.eatWhile test)).symm
  have taken := (takeWhile_dropWhile_append all ends).1
  rw [← passes.rest] at taken
  exact taken ▸ longestRun_takeWhile test cursor.rest

/-- The loop has one outcome. -/
theorem advancesWhile_iff {test : Char → Bool} {cursor after : Cursor} :
    AdvancesWhile test cursor after ↔ after = cursor.advanceWhile test := by
  constructor
  · intro loop
    induction loop with
    | @done cursor ends => rw [advanceWhile, dif_neg (by simp [ends])]
    | @more cursor after goesOn _ ih => rw [advanceWhile, dif_pos goesOn, ih]
  · rintro rfl
    fun_induction advanceWhile cursor test with
    | case1 cursor goesOn ih => exact .more goesOn ih
    | case2 cursor stops => exact .done (by simpa using stops)

/-- After any actions on a text the cursor stands at a place of the text, between two characters,
at the byte that its offset says and with the rest of the text behind it.  An action that does not
go back moves the offset by the bytes of the text that it reports to have passed over, and this
is the text between the two offsets.  A run of a class is the longest in front of the cursor, and
its end is where advancing as long as the class goes on comes to an end. -/
theorem run_keeps_place (source : String) (actions : List Action) :
    let trail := Trail.run source actions
    let cursor := trail.cursor
    cursor.source = source ∧
      cursor.offset + (String.ofList cursor.rest).utf8ByteSize = source.utf8ByteSize ∧
      (∃ place : source.Pos, place.offset.byteIdx = cursor.offset ∧
        (source.sliceFrom place).copy = String.ofList cursor.rest) ∧
      (∀ action : Action, (∀ number, action ≠ .restore number) →
        let passed := action.passed cursor
        let after := (trail.step action).cursor
        after.offset = cursor.offset + passed.utf8ByteSize ∧
          ∃ first last : source.Pos, first.offset.byteIdx = cursor.offset ∧
            last.offset.byteIdx = after.offset ∧ String.extract first last = passed) ∧
      ∀ test : Char → Bool,
        LongestRun test cursor.rest (cursor.eatWhile test).1.toList ∧
          ∀ after, AdvancesWhile test cursor after ↔ after = (cursor.eatWhile test).2 := by
  intro trail cursor
  have sound : trail.Sound source := Trail.sound_run source actions
  have ofSource : cursor.source = source := sound.ofSource
  have placed : cursor.Placed := sound.placed
  refine ⟨ofSource, ?_, ?_, ?_, ?_⟩
  · rw [placed.offset_add, ofSource]
  · obtain ⟨place, front, isOffset, splits⟩ := ofSource ▸ placed.exists_splits
    exact ⟨place, isOffset, splits.copy_sliceFrom_eq⟩
  · intro action forward passed after
    have passes : cursor.Passes passed.toList after := sound.passes_step forward
    refine ⟨?_, ofSource ▸ passes.exists_extract placed⟩
    rw [passes.offset, byteLength_toList]
  · intro test
    exact ⟨longestRun_eatWhile placed test, fun after => advancesWhile_iff⟩

/-- A word is tried behind a letter of two bytes, and the cursor goes back twice, out of order. -/
theorem run_keeps_place_backtracking :
    let actions : List Action := [.save, .advance, .save, .eat "::", .restore 0,
      .eatWhile isIdentPart, .restore 1]
    let trail := Trail.run "é::x" actions
    trail.cursor.offset = 2 ∧ trail.cursor.rest = "::x".toList ∧
      (∃ place : "é::x".Pos, place.offset.byteIdx = 2 ∧
        ("é::x".sliceFrom place).copy = "::x") ∧
      (trail.step (.eat "::")).cursor.offset = 2 + "::".utf8ByteSize := by
  intro actions trail
  obtain ⟨-, -, ⟨place, isOffset, behind⟩, moves, -⟩ := run_keeps_place "é::x" actions
  have offset : trail.cursor.offset = 2 := by decide +kernel
  have rest : trail.cursor.rest = "::x".toList := by decide +kernel
  have passed : (Action.eat "::").passed trail.cursor = "::" := by decide +kernel
  have moved := (moves (.eat "::") (by simp)).1
  rw [passed, offset] at moved
  refine ⟨offset, rest, ⟨place, isOffset.trans offset, behind.trans ?_⟩, moved⟩
  rw [rest, String.ofList_toList]

end Bindery.Cursor
