/-!
# Depth-first walks

Walks through a finite directed graph, given by the nodes that are still to be
visited and the successors of each node.  The agenda of a walk is worked off
from the left.  A step either visits a node, which is then struck out and leaves
its successors on the agenda, or drops an entry of the agenda; the workload
counts both, so a walk ends on every graph, cycles included.
-/

namespace Bindery.Graph

variable {α : Type} [DecidableEq α]

/-- The nodes without a given one. -/
def strike (node : α) (nodes : List α) : List α :=
  nodes.filter (· ≠ node)

/-- What nodes come to, each with its share. -/
def total (share : α → Nat) : List α → Nat
  | [] => 0
  | node :: nodes => share node + total share nodes

/-- The steps that a walk can still take: the pending entries, and for every
unvisited node the entries that visiting it would add, and one for itself. -/
def workload (next : α → List α) (unvisited : List α) (pending : Nat) : Nat :=
  pending + total (fun node => (next node).length + 1) unvisited

@[simp]
theorem strike_nil (node : α) : strike node [] = [] := rfl

theorem strike_cons (node other : α) (nodes : List α) :
    strike node (other :: nodes) =
      if other = node then strike node nodes else other :: strike node nodes := by
  by_cases same : other = node <;> simp [strike, same]

theorem total_strike_le (share : α → Nat) (node : α) (nodes : List α) :
    total share (strike node nodes) ≤ total share nodes := by
  induction nodes with
  | nil => simp
  | cons other nodes ih =>
      rw [strike_cons]
      split <;> simp only [total] <;> omega

/-- Striking out a member saves at least its share. -/
theorem total_strike_add_le (share : α → Nat) {node : α} {nodes : List α}
    (member : node ∈ nodes) :
    total share (strike node nodes) + share node ≤ total share nodes := by
  induction nodes with
  | nil => simp at member
  | cons other nodes ih =>
      rw [strike_cons]
      by_cases same : other = node
      · have bound := total_strike_le share node nodes
        simp only [same, if_true, total]
        omega
      · have bound := ih (by simpa [Ne.symm same] using member)
        simp only [same, if_false, total]
        omega

/-- Visiting a node takes more off the workload than its successors add. -/
theorem workload_strike_lt (next : α → List α) {node : α} {unvisited : List α}
    (member : node ∈ unvisited) {pending after : Nat}
    (grows : after ≤ pending + (next node).length) :
    workload next (strike node unvisited) after < workload next unvisited pending := by
  have saved := total_strike_add_le (fun node => (next node).length + 1) member
  simp only [workload] at saved ⊢
  omega

omit [DecidableEq α] in
/-- Dropping an entry takes it off the workload. -/
theorem workload_lt (next : α → List α) (unvisited : List α) {pending after : Nat}
    (shrinks : after < pending) :
    workload next unvisited after < workload next unvisited pending := by
  simp only [workload]
  omega

/-- Nodes in the order in which a depth-first walk first meets them: the
successors of a visited node come before what stands behind it. -/
def preorder (next : α → List α) (unvisited agenda : List α) : List α :=
  match agenda with
  | [] => []
  | node :: rest =>
      if node ∈ unvisited then
        node :: preorder next (strike node unvisited) (next node ++ rest)
      else preorder next unvisited rest
termination_by workload next unvisited agenda.length
decreasing_by
  · next member => exact workload_strike_lt next member (by simp; omega)
  · exact workload_lt next unvisited (by simp)

/-- An entry of the agenda of a walk that also notes when a node is done. -/
inductive Visit (α : Type) where
  | enter (node : α)
  | leave (node : α)

/-- Nodes in the order in which a depth-first walk is done with them: a node
comes after everything first met through it. -/
def postorder (next : α → List α) (unvisited : List α) (agenda : List (Visit α)) : List α :=
  match agenda with
  | [] => []
  | .leave node :: rest => node :: postorder next unvisited rest
  | .enter node :: rest =>
      if node ∈ unvisited then
        postorder next (strike node unvisited) ((next node).map .enter ++ .leave node :: rest)
      else postorder next unvisited rest
termination_by workload next unvisited agenda.length
decreasing_by
  · exact workload_lt next unvisited (by simp)
  · next member => exact workload_strike_lt next member (by simp; omega)
  · exact workload_lt next unvisited (by simp)

end Bindery.Graph
