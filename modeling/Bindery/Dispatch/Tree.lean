import Bindery.TypeKey

/-!
# Dispatch trees

A dispatch tree chooses one prototype of an overload set: first by the number of
arguments, then argument by argument, by the first registered type that the
argument satisfies.
-/

namespace Bindery.Dispatch

/-- A decision on the arguments of a call. -/
inductive Node where
  /-- Call the prototype at an index of the overload set. -/
  | call (proto : Nat)
  /-- Test one argument against registered types in order. -/
  | check (argIndex : Nat) (branches : List (TypeKey × Node))
deriving Inhabited

/-- What holds of calls, and of a check whenever it holds below its branches,
holds of every node. -/
@[induction_eliminator]
theorem Node.induct {motive : Node → Prop} (call : ∀ proto, motive (.call proto))
    (check : ∀ argIndex branches, (∀ branch ∈ branches, motive branch.2) →
      motive (.check argIndex branches)) (node : Node) : motive node := by
  refine @Node.rec motive (fun branches => ∀ branch ∈ branches, motive branch.2)
    (fun branch => motive branch.2) call check ?_ ?_ (fun _ _ below => below) node
  · simp
  · intro branch branches first rest other member
    rcases List.mem_cons.mp member with rfl | member
    · exact first
    · exact rest other member

/-- The decision for calls with a given number of arguments. -/
structure Arm where
  argCount : Nat
  root : Node
deriving Inhabited

/-- A decision for every call of an overload set. -/
structure Tree where
  /-- What the set is bound as, for messages. -/
  context : String
  arms : List Arm
deriving Inhabited

/-- Why generated code turns a call down. -/
inductive Rejection where
  | argumentCount (context : String)
  | argumentType (index : Nat) (context : String)
deriving DecidableEq, Inhabited

/-- The wording of a rejection in generated code. -/
def Rejection.message : Rejection → String
  | .argumentCount context => "incorrect number of arguments to " ++ context
  | .argumentType index context =>
      "incorrect type for argument " ++ toString index ++ " to " ++ context

/-- The category under which generated code raises rejections. -/
def Rejection.category : String := "runtime"

mutual

/-- Follow the decisions of a node; `satisfies i key` says whether argument `i`
passes the check of a registered type. -/
def Node.resolve (context : String) (satisfies : Nat → TypeKey → Bool) :
    Node → Except Rejection Nat
  | .call proto => .ok proto
  | .check argIndex branches => resolveBranches context satisfies argIndex branches

/-- Follow the first branch whose check is passed. -/
def resolveBranches (context : String) (satisfies : Nat → TypeKey → Bool) (argIndex : Nat) :
    List (TypeKey × Node) → Except Rejection Nat
  | [] => .error (.argumentType argIndex context)
  | (key, node) :: rest =>
      if satisfies argIndex key then node.resolve context satisfies
      else resolveBranches context satisfies argIndex rest

end

namespace Tree

/-- The largest number of arguments that any arm takes. -/
def maxArgCount (tree : Tree) : Nat :=
  tree.arms.foldl (fun most arm => max most arm.argCount) 0

/-- The prototype that a call with the given number of arguments chooses. -/
def resolve (tree : Tree) (argCount : Nat) (satisfies : Nat → TypeKey → Bool) :
    Except Rejection Nat :=
  match tree.arms.find? (·.argCount = argCount) with
  | some arm => arm.root.resolve tree.context satisfies
  | none => .error (.argumentCount tree.context)

end Tree

end Bindery.Dispatch
