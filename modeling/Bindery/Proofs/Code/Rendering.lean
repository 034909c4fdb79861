import Bindery.Code.Draft
import Bindery.Proofs.Outcome

/-!
# What laying out code appends

Whatever a writer holds already, code appends a text that depends only on the
unit and the level of indentation at which it starts, and moves the level by its
own steps.  Code that comes back to its level prints a text there; such codes
can be put one after the other and one inside the other.
-/

namespace Bindery

/-- The level that a layout step leads to. -/
def Layout.shift : Layout → Nat → Nat
  | .indent, level => level + 1
  | .dedent, level => level - 1
  | _, level => level

namespace Code

/-- The level that code leads to. -/
def levelAfter (code : Code) (level : Nat) : Nat :=
  code.foldl (fun level step => step.shift level) level

/-- The text that code comes to from a level on. -/
def textAt (unit : String) (level : Nat) (code : Code) : String :=
  (Writer.write ⟨unit, level, ""⟩ code).text

@[simp]
theorem levelAfter_nil (level : Nat) : levelAfter [] level = level := rfl

@[simp]
theorem levelAfter_cons (step : Layout) (code : Code) (level : Nat) :
    levelAfter (step :: code) level = levelAfter code (step.shift level) := rfl

@[simp]
theorem levelAfter_append (first second : Code) (level : Nat) :
    levelAfter (first ++ second) level = levelAfter second (levelAfter first level) :=
  List.foldl_append

end Code

namespace Writer

/-- The writer with a text in front of what it holds. -/
def behind (writer : Writer) (front : String) : Writer :=
  { writer with text := front ++ writer.text }

theorem append_behind (writer : Writer) (front text : String) :
    (writer.behind front).append text = (writer.append text).behind front := by
  simp [append, behind, String.append_assoc]

theorem blockLine_behind (writer : Writer) (front text : String) :
    (writer.behind front).blockLine text = (writer.blockLine text).behind front := by
  unfold blockLine line
  split
  · exact append_behind writer front "\n"
  · exact append_behind writer front _

/-- What stands in front does not matter to a layout step. -/
theorem put_behind (writer : Writer) (front : String) (step : Layout) :
    (writer.behind front).put step = (writer.put step).behind front := by
  cases step with
  | line text => exact append_behind writer front _
  | raw text => exact append_behind writer front text
  | blank => exact append_behind writer front "\n"
  | indent => rfl
  | dedent => rfl
  | block text =>
      change (Text.lines text).foldl blockLine (writer.behind front) =
        ((Text.lines text).foldl blockLine writer).behind front
      induction Text.lines text generalizing writer with
      | nil => rfl
      | cons first rest ih => rw [List.foldl_cons, List.foldl_cons, blockLine_behind, ih]

theorem write_behind (writer : Writer) (front : String) (code : Code) :
    (writer.behind front).write code = (writer.write code).behind front := by
  induction code generalizing writer with
  | nil => rfl
  | cons step code ih => rw [write_cons, write_cons, put_behind, ih]

theorem unit_blockLine (writer : Writer) (text : String) :
    (writer.blockLine text).unit = writer.unit := by
  unfold blockLine
  split <;> rfl

theorem level_blockLine (writer : Writer) (text : String) :
    (writer.blockLine text).level = writer.level := by
  unfold blockLine
  split <;> rfl

/-- A layout step keeps the unit and shifts the level. -/
theorem unit_level_put (writer : Writer) (step : Layout) :
    (writer.put step).unit = writer.unit ∧
      (writer.put step).level = step.shift writer.level := by
  cases step with
  | line text => exact ⟨rfl, rfl⟩
  | raw text => exact ⟨rfl, rfl⟩
  | blank => exact ⟨rfl, rfl⟩
  | indent => exact ⟨rfl, rfl⟩
  | dedent => exact ⟨rfl, rfl⟩
  | block text =>
      change ((Text.lines text).foldl blockLine writer).unit = _ ∧
        ((Text.lines text).foldl blockLine writer).level = writer.level
      induction Text.lines text generalizing writer with
      | nil => exact ⟨rfl, rfl⟩
      | cons first rest ih =>
          rw [List.foldl_cons]
          have later := ih (writer.blockLine first)
          rwa [unit_blockLine, level_blockLine] at later

/-- Code keeps the unit and leads to the level that its steps lead to. -/
theorem unit_level_write (writer : Writer) (code : Code) :
    (writer.write code).unit = writer.unit ∧
      (writer.write code).level = code.levelAfter writer.level := by
  induction code generalizing writer with
  | nil => exact ⟨rfl, rfl⟩
  | cons step code ih =>
      have first := unit_level_put writer step
      have later := ih (writer.put step)
      rwa [first.1, first.2] at later

/-- All that code does to a writer. -/
theorem write_eq (unit : String) (level : Nat) (before : String) (code : Code) :
    Writer.write ⟨unit, level, before⟩ code =
      ⟨unit, code.levelAfter level, before ++ code.textAt unit level⟩ := by
  have fresh := unit_level_write ⟨unit, level, ""⟩ code
  have moved := write_behind ⟨unit, level, ""⟩ before code
  rw [behind, behind, fresh.1, fresh.2] at moved
  simpa [Code.textAt] using moved

end Writer

namespace Code

@[simp]
theorem textAt_nil (unit : String) (level : Nat) : textAt unit level [] = "" := rfl

theorem textAt_append (unit : String) (level : Nat) (first second : Code) :
    textAt unit level (first ++ second) =
      textAt unit level first ++ textAt unit (first.levelAfter level) second := by
  rw [textAt, Writer.write_append, Writer.write_eq, Writer.write_eq, String.empty_append]

/-- A text as it stands does not depend on the level. -/
theorem textAt_raw_cons (unit : String) (level : Nat) (text : String) (rest : Code) :
    textAt unit level (.raw text :: rest) = text ++ textAt unit level rest := by
  have front : textAt unit level [.raw text] = text := String.empty_append
  rw [← List.singleton_append, textAt_append, front]
  rfl

theorem textAt_blank_cons (unit : String) (level : Nat) (rest : Code) :
    textAt unit level (.blank :: rest) = "\n" ++ textAt unit level rest := by
  rw [← List.singleton_append, textAt_append]
  rfl

/-- At the outermost level nothing stands in front of a line. -/
theorem textAt_line_cons (unit text : String) (rest : Code) :
    textAt unit 0 (.line text :: rest) = text ++ "\n" ++ textAt unit 0 rest := by
  have front : textAt unit 0 [.line text] = text ++ "\n" := by
    change "" ++ ("" ++ text ++ "\n") = _
    simp
  rw [← List.singleton_append, textAt_append, front]
  rfl

end Code

/-- Written at a level, the code appends a text and comes back to the level. -/
def Code.Prints (code : Code) (unit : String) (level : Nat) (text : String) : Prop :=
  ∀ before, Writer.write ⟨unit, level, before⟩ code = ⟨unit, level, before ++ text⟩

/-- A line at a level. -/
def lineAt (unit : String) (level : Nat) (text : String) : String :=
  String.join (List.replicate level unit) ++ text ++ "\n"

namespace Code.Prints

variable {unit : String} {level : Nat}

theorem of_levelAfter {code : Code} (returns : code.levelAfter level = level) :
    code.Prints unit level (code.textAt unit level) := by
  intro before
  rw [Writer.write_eq, returns]

theorem line (text : String) : Prints [.line text] unit level (lineAt unit level text) := by
  intro before
  rfl

theorem append {first second : Code} {text text' : String}
    (firstPrints : first.Prints unit level text) (secondPrints : second.Prints unit level text') :
    Prints (first ++ second) unit level (text ++ text') := by
  intro before
  rw [Writer.write_append, firstPrints, secondPrints, String.append_assoc]

/-- Code that stands one level deeper than what is around it. -/
theorem nested {code : Code} {text : String} (prints : code.Prints unit (level + 1) text) :
    Prints (.indent :: code ++ [.dedent]) unit level text := by
  intro before
  rw [List.cons_append, Writer.write_cons, Writer.write_append]
  change Writer.write (Writer.write ⟨unit, level + 1, before⟩ code) [.dedent] = _
  rw [prints]
  rfl

/-- A line, a body one level deeper, and what follows. -/
theorem rung {body rest : Code} {bodyText restText : String} (head : String)
    (bodyPrints : body.Prints unit (level + 1) bodyText)
    (restPrints : rest.Prints unit level restText) :
    Prints ([.line head, .indent] ++ (body ++ ([.dedent] ++ rest))) unit level
      (lineAt unit level head ++ bodyText ++ restText) := by
  have inOrder := ((line head).append bodyPrints.nested).append restPrints
  simpa using inOrder

end Code.Prints

namespace Draft

variable {α β : Type}

/-- A draft goes through exactly if both its parts do. -/
theorem outcome_andThen_eq_ok_iff {draft : Draft α} {next : α → Draft β} {result : β} :
    (draft.andThen next).outcome = .ok result ↔
      ∃ value, draft.outcome = .ok value ∧ (next value).outcome = .ok result := by
  rcases draft with ⟨code, entries, _ | value⟩ <;> simp

/-- The code of a draft that goes on. -/
theorem code_andThen {draft : Draft α} {next : α → Draft β} {value : α}
    (done : draft.outcome = .ok value) :
    (draft.andThen next).code = draft.code ++ (next value).code := by
  simp [andThen, done]

/-- The code of a draft comes back to the level, wherever the draft stops. -/
def Steady (draft : Draft α) (level : Nat) : Prop :=
  draft.code.levelAfter level = level

theorem Steady.andThen {draft : Draft α} {next : α → Draft β} {level : Nat}
    (first : draft.Steady level) (then' : ∀ value, (next value).Steady level) :
    (draft.andThen next).Steady level := by
  rcases draft with ⟨code, entries, error | value⟩
  · exact first
  · have second := then' value
    unfold Steady at first second ⊢
    rw [andThen_ok, Code.levelAfter_append, first, second]

end Draft

end Bindery
