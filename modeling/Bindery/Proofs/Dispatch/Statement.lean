import Bindery.Dispatch.Emit
import Bindery.Proofs.Code.Rendering

/-!
# Statements of generated code

The body of a generated entry point as syntax: ladders of `if` and `else if`
with a last `else`, and at their ends call sequences and raised errors.  A
statement can be run, given which tests hold, and printed at a level of
indentation.  The statement of a dispatch tree ends, for every call, where the
tree resolves the call to.
-/

namespace Bindery.Dispatch

/-- What a ladder asks about a call. -/
inductive Test where
  /-- There are so many arguments. -/
  | argCount (count : Nat)
  /-- An argument passes the check of a registered type. -/
  | passes (argIndex : Nat) (key : TypeKey)
deriving DecidableEq

mutual

/-- A statement of generated code. -/
inductive Statement where
  /-- The call sequence of a prototype. -/
  | call (proto : Nat)
  /-- An error raised with a message. -/
  | raise (message : String)
  /-- A statement in braces. -/
  | block (body : Statement)
  /-- An `if`, with what comes after its body. -/
  | branch (test : Test) (body : Statement) (rest : Alternative)

/-- What comes after the body of an `if`. -/
inductive Alternative where
  /-- An `else if`, with what comes after its body. -/
  | elseIf (test : Test) (body : Statement) (rest : Alternative)
  /-- The last `else`. -/
  | otherwise (body : Statement)

end

/-- Where a run of a statement ends. -/
inductive Ending where
  | called (proto : Nat)
  | raised (message : String)
deriving DecidableEq

/-- Whether a test holds of a call. -/
def Test.holds (argCount : Nat) (satisfies : Nat → TypeKey → Bool) : Test → Bool
  | .argCount count => argCount = count
  | .passes argIndex key => satisfies argIndex key

mutual

/-- Run a statement; the first test that holds decides a ladder. -/
def Statement.run (holds : Test → Bool) : Statement → Ending
  | .call proto => .called proto
  | .raise message => .raised message
  | .block body => body.run holds
  | .branch test body rest => if holds test then body.run holds else rest.run holds

/-- Run what comes after the body of an `if`. -/
def Alternative.run (holds : Test → Bool) : Alternative → Ending
  | .elseIf test body rest => if holds test then body.run holds else rest.run holds
  | .otherwise body => body.run holds

end

/-- The condition that asks a test: what the hooks of a type give for the argument, as the
target writes it. -/
def Test.text (emitter : Emitter) : Test → String
  | .argCount count => emitter.target.argCount ++ " == " ++ toString count
  | .passes argIndex key =>
      match emitter.registry.find? key with
      | some conv => conv.hooks.check conv.toProfile (emitter.target.arg argIndex)
      | none => ""

mutual

/-- The text of a statement at a level; bodies stand one level deeper. -/
def Statement.print (emitter : Emitter) (unit : String) : (level : Nat) → Statement → String
  | level, .call proto => Code.textAt unit level (emitter.callAt proto).code
  | level, .raise message =>
      Code.textAt unit level (emitter.target.raise Rejection.category message)
  | level, .block body =>
      lineAt unit level "\x7b" ++ body.print emitter unit (level + 1) ++ lineAt unit level "\x7d"
  | level, .branch test body rest =>
      lineAt unit level ("if (" ++ test.text emitter ++ ") \x7b") ++
        body.print emitter unit (level + 1) ++ rest.print emitter unit level

/-- The text of what comes after the body of an `if`. -/
def Alternative.print (emitter : Emitter) (unit : String) : (level : Nat) → Alternative → String
  | level, .elseIf test body rest =>
      lineAt unit level ("\x7d else if (" ++ test.text emitter ++ ") \x7b") ++
        body.print emitter unit (level + 1) ++ rest.print emitter unit level
  | level, .otherwise body =>
      lineAt unit level "\x7d else \x7b" ++ body.print emitter unit (level + 1) ++
        lineAt unit level "\x7d"

end

mutual

/-- The statement that decides as a node does.  A check has branches; without
any, the error is all there is. -/
def Node.statement (context : String) : Node → Statement
  | .call proto => .call proto
  | .check argIndex [] => .raise (Rejection.argumentType argIndex context).message
  | .check argIndex ((key, next) :: rest) =>
      .branch (.passes argIndex key) (next.statement context)
        (branchAlternative context argIndex rest)

/-- The further branches of a check, and the error at the end. -/
def branchAlternative (context : String) (argIndex : Nat) :
    List (TypeKey × Node) → Alternative
  | [] => .otherwise (.raise (Rejection.argumentType argIndex context).message)
  | (key, next) :: rest =>
      .elseIf (.passes argIndex key) (next.statement context)
        (branchAlternative context argIndex rest)

end

/-- The further arms of a tree, and the error at the end. -/
def armAlternative (context : String) : List Arm → Alternative
  | [] => .otherwise (.raise (Rejection.argumentCount context).message)
  | arm :: rest =>
      .elseIf (.argCount arm.argCount) (arm.root.statement context)
        (armAlternative context rest)

/-- The statement that decides as a tree does. -/
def Tree.statement (tree : Tree) : Statement :=
  match tree.arms with
  | [] => .block (.raise (Rejection.argumentCount tree.context).message)
  | arm :: rest =>
      .branch (.argCount arm.argCount) (arm.root.statement tree.context)
        (armAlternative tree.context rest)

/-- Where a run ends when a call is resolved to the given outcome. -/
def ending : Except Rejection Nat → Ending
  | .ok proto => .called proto
  | .error rejection => .raised rejection.message

section Runs

variable (context : String) (argCount : Nat) (satisfies : Nat → TypeKey → Bool)

theorem run_branchAlternative (argIndex : Nat) {branches : List (TypeKey × Node)}
    (below : ∀ branch ∈ branches,
      (branch.2.statement context).run (Test.holds argCount satisfies) =
        ending (branch.2.resolve context satisfies)) :
    (branchAlternative context argIndex branches).run (Test.holds argCount satisfies) =
      ending (resolveBranches context satisfies argIndex branches) := by
  induction branches with
  | nil => rw [branchAlternative, resolveBranches, Alternative.run, Statement.run, ending]
  | cons branch rest ih =>
      rcases branch with ⟨key, next⟩
      have first := below (key, next) List.mem_cons_self
      have others := ih fun branch member => below branch (List.mem_cons_of_mem _ member)
      rw [branchAlternative, resolveBranches, Alternative.run, first, others, Test.holds]
      split <;> rfl

/-- The statement of a node ends where the node resolves a call to. -/
theorem run_nodeStatement (node : Node) :
    (node.statement context).run (Test.holds argCount satisfies) =
      ending (node.resolve context satisfies) := by
  induction node with
  | call proto => rw [Node.statement, Node.resolve, Statement.run, ending]
  | check argIndex branches below =>
      cases branches with
      | nil => rw [Node.statement, Node.resolve, resolveBranches, Statement.run, ending]
      | cons branch rest =>
          rcases branch with ⟨key, next⟩
          have first := below (key, next) List.mem_cons_self
          have others := run_branchAlternative context argCount satisfies argIndex
            fun branch member => below branch (List.mem_cons_of_mem _ member)
          rw [Node.statement, Node.resolve, resolveBranches, Statement.run, first, others,
            Test.holds]
          split <;> rfl

/-- The outcome of a call in the first arm for its number of arguments. -/
theorem run_armAlternative (arms : List Arm) :
    (armAlternative context arms).run (Test.holds argCount satisfies) =
      ending (Tree.resolve ⟨context, arms⟩ argCount satisfies) := by
  induction arms with
  | nil => rw [armAlternative, Alternative.run, Statement.run]; rfl
  | cons arm rest ih =>
      rw [armAlternative, Alternative.run, ih, run_nodeStatement, Test.holds, Tree.resolve,
        Tree.resolve, List.find?_cons]
      by_cases taken : arm.argCount = argCount
      · simp [taken]
      · simp [taken, Ne.symm taken]

/-- The statement of a tree ends where the tree resolves a call to. -/
theorem run_treeStatement (tree : Tree) :
    tree.statement.run (Test.holds argCount satisfies) =
      ending (tree.resolve argCount satisfies) := by
  have viaArms := run_armAlternative tree.context argCount satisfies tree.arms
  rcases tree with ⟨context, _ | ⟨arm, rest⟩⟩
  · rw [← viaArms, Tree.statement, armAlternative, Statement.run, Alternative.run]
  · rw [← viaArms, Tree.statement, armAlternative, Statement.run, Alternative.run]

end Runs

/-- A number is read off the text in front of the first blank. -/
theorem toDigits_append_blank_inj {first second : Nat} {rest rest' : List Char}
    (same : Nat.toDigits 10 first ++ ' ' :: rest = Nat.toDigits 10 second ++ ' ' :: rest') :
    first = second ∧ rest = rest' := by
  have noBlank (number : Nat) : ∀ c ∈ Nat.toDigits 10 number, decide (c ≠ ' ') = true := by
    intro c member
    have digit := Nat.isDigit_of_mem_toDigits (by decide) (by decide) member
    rw [decide_eq_true_eq]
    rintro rfl
    simp at digit
  have digits := congrArg (List.takeWhile (· ≠ ' ')) same
  rw [List.takeWhile_append_of_pos (noBlank first), List.takeWhile_append_of_pos (noBlank second),
    List.takeWhile_cons_of_neg (by simp), List.takeWhile_cons_of_neg (by simp),
    List.append_nil, List.append_nil] at digits
  constructor
  · calc
      first = Nat.ofDigitChars 10 (Nat.toDigits 10 first) 0 :=
        Nat.ofDigitChars_ten_toDigits.symm
      _ = Nat.ofDigitChars 10 (Nat.toDigits 10 second) 0 := by rw [digits]
      _ = second := Nat.ofDigitChars_ten_toDigits
  · rw [digits] at same
    simpa using same

theorem argumentType_message_ne (index : Nat) (context context' : String) :
    (Rejection.argumentType index context).message ≠
      (Rejection.argumentCount context').message := by
  intro same
  change "incorrect type for argument " ++ toString index ++ " to " ++ context =
    "incorrect number of arguments to " ++ context' at same
  rw [String.append_assoc, String.append_assoc, ← String.toList_inj] at same
  have tenth := congrArg (fun chars : List Char => chars[10]?) same
  rw [String.toList_append, List.getElem?_append_left (by decide), String.toList_append,
    List.getElem?_append_left (by decide)] at tenth
  exact absurd tenth (by decide)

theorem argumentType_message_inj {index index' : Nat} {context context' : String}
    (same : (Rejection.argumentType index context).message =
      (Rejection.argumentType index' context').message) :
    index = index' ∧ context = context' := by
  change "incorrect type for argument " ++ toString index ++ " to " ++ context =
    "incorrect type for argument " ++ toString index' ++ " to " ++ context' at same
  have digits (number : Nat) : (toString number).toList = Nat.toDigits 10 number := by
    rw [Nat.toString_eq_repr, Nat.toList_repr]
  rw [String.append_assoc, String.append_assoc, String.append_assoc, String.append_assoc,
    String.append_right_inj, ← String.toList_inj, String.toList_append, String.toList_append,
    String.toList_append, String.toList_append, digits, digits] at same
  obtain ⟨sameIndex, sameRest⟩ := toDigits_append_blank_inj same
  refine ⟨sameIndex, String.toList_inj.mp ?_⟩
  simpa using sameRest

theorem message_injective : Function.Injective Rejection.message := by
  intro first second same
  cases first with
  | argumentCount context =>
      cases second with
      | argumentCount context' =>
          change "incorrect number of arguments to " ++ context =
            "incorrect number of arguments to " ++ context' at same
          rw [(String.append_right_inj _).mp same]
      | argumentType index context' =>
          exact absurd same.symm (argumentType_message_ne index context' context)
  | argumentType index context =>
      cases second with
      | argumentCount context' =>
          exact absurd same (argumentType_message_ne index context context')
      | argumentType index' context' =>
          obtain ⟨rfl, rfl⟩ := argumentType_message_inj same
          rfl

theorem ending_eq_called_iff {outcome : Except Rejection Nat} {proto : Nat} :
    ending outcome = .called proto ↔ outcome = .ok proto := by
  cases outcome <;> simp [ending]

theorem ending_eq_raised_iff {outcome : Except Rejection Nat} {rejection : Rejection} :
    ending outcome = .raised rejection.message ↔ outcome = .error rejection := by
  cases outcome with
  | ok proto => simp [ending]
  | error other =>
      rw [ending, Ending.raised.injEq, Except.error.injEq]
      exact message_injective.eq_iff

end Bindery.Dispatch
