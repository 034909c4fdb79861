import Bindery.Dispatch.Tree
import Bindery.Error
import Bindery.Prototype

/-!
# Building dispatch trees

The prototypes of an overload set are grouped by their number of arguments, then
again and again by the registered type of the next argument.  Groups stand in
the order in which their first members were declared.  When all arguments are
used up, exactly one prototype must be left.
-/

namespace Bindery.Dispatch

/-- The items of each key, keys in the order in which they first appear. -/
def groupBy {α κ : Type} [DecidableEq κ] (key : α → κ) (items : List α) : List (κ × List α) :=
  (items.map key).eraseDups.map fun group => (group, items.filter fun item => key item = group)

/-- A prototype that may still be chosen: its place in the overload set and the
registered types of its arguments. -/
structure Candidate where
  index : Nat
  converters : List TypeKey
deriving DecidableEq, Inhabited

namespace Candidate

/-- Number of arguments. -/
def arity (candidate : Candidate) : Nat :=
  candidate.converters.length

/-- The registered type of one argument. -/
def converterAt (candidate : Candidate) (argIndex : Nat) : TypeKey :=
  candidate.converters.getD argIndex .empty

/-- Every prototype of an overload set, in declaration order. -/
def ofPrototypes (protos : List Prototype) : List Candidate :=
  protos.zipIdx.map fun entry => ⟨entry.2, entry.1.converters⟩

end Candidate

/-- Decide among candidates that agree on the arguments before `argIndex` and
have `remaining` arguments from there on. -/
def Node.ofCandidates (context : String) :
    (remaining argIndex : Nat) → List Candidate → Except BindError Node
  | 0, _, [candidate] => .ok (.call candidate.index)
  | 0, argIndex, candidates =>
      .error (.ambiguousOverload context argIndex candidates.length)
  | remaining + 1, argIndex, candidates => do
      let branches ← (groupBy (·.converterAt argIndex) candidates).mapM fun group => do
        return (group.1, ← Node.ofCandidates context remaining (argIndex + 1) group.2)
      return .check argIndex branches

/-- The dispatch tree of an overload set. -/
def Tree.ofPrototypes (protos : List Prototype) (context : String) : Except BindError Tree :=
  if protos.isEmpty then .error (.emptyOverloadSet context)
  else do
    let arms ← (groupBy Candidate.arity (Candidate.ofPrototypes protos)).mapM fun group => do
      return (⟨group.1, ← Node.ofCandidates context group.1 0 group.2⟩ : Arm)
    return ⟨context, arms⟩

/-- A branch that building has looked at. -/
structure Branch where
  argIndex : Nat
  converter : TypeKey
  candidates : Nat
deriving DecidableEq, Inhabited

/-- A list up to and with the first item that satisfies a test. -/
def upThrough {α : Type} (test : α → Bool) : List α → List α
  | [] => []
  | item :: rest => if test item then [item] else item :: upThrough test rest

/-- The branches that deciding among candidates looks at, up to a failure. -/
def visitedBelow (context : String) : (remaining argIndex : Nat) → List Candidate → List Branch
  | 0, _, _ => []
  | remaining + 1, argIndex, candidates =>
      (upThrough (fun group => !(Node.ofCandidates context remaining (argIndex + 1) group.2).isOk)
          (groupBy (·.converterAt argIndex) candidates)).flatMap fun group =>
        ⟨argIndex, group.1, group.2.length⟩ ::
          visitedBelow context remaining (argIndex + 1) group.2

/-- The branches that building a tree looks at, up to a failure. -/
def Tree.visited (protos : List Prototype) (context : String) : List Branch :=
  (upThrough (fun group => !(Node.ofCandidates context group.1 0 group.2).isOk)
      (groupBy Candidate.arity (Candidate.ofPrototypes protos))).flatMap fun group =>
    visitedBelow context group.1 0 group.2

end Bindery.Dispatch
