import Bindery.Proofs.Graph.Reachability
import Mathlib.Data.List.Nodup

/-!
# Depth-first walks

A walk works off its agenda from the left.  A node that was seen before is passed
over; a new one is met, and what lies below it is walked before what stands behind
it.  Here this is a relation: it follows the successors of each node as a recursion
would, and nothing bounds it.  The walk that `preorder` computes is the one that the
relation describes, on every finite graph.

In a graph without cycles, a node is passed over only when everything that it leads
to has been seen as well.
-/

namespace Bindery.Graph

variable {α : Type} {next : α → List α}

/-- A depth-first walk over an agenda, after some nodes have been seen: the nodes that
it meets, in the order in which it first comes to them. -/
inductive Walk (next : α → List α) : (seen agenda met : List α) → Prop where
  | done (seen : List α) : Walk next seen [] []
  | pass {seen agenda met : List α} {node : α} (known : node ∈ seen)
      (behind : Walk next seen agenda met) : Walk next seen (node :: agenda) met
  | visit {seen agenda first later : List α} {node : α} (new : node ∉ seen)
      (below : Walk next (seen ++ [node]) (next node) first)
      (behind : Walk next (seen ++ node :: first) agenda later) :
      Walk next seen (node :: agenda) (node :: (first ++ later))

namespace Walk

variable {seen agenda met : List α}

/-- What a walk meets is settled by where it starts. -/
theorem unique {other : List α} (walk : Walk next seen agenda met)
    (again : Walk next seen agenda other) : met = other := by
  induction walk generalizing other with
  | done seen =>
      cases again
      rfl
  | pass known _ ih =>
      cases again with
      | pass _ behind => exact ih behind
      | visit new _ _ => exact absurd known new
  | visit new _ _ belowIh behindIh =>
      cases again with
      | pass known _ => exact absurd known new
      | visit _ below behind =>
          cases belowIh below
          rw [behindIh behind]

/-- A walk over two agendas is a walk over the first, and then one over the second. -/
theorem split {rest : List α} (walk : Walk next seen (agenda ++ rest) met) :
    ∃ first later, Walk next seen agenda first ∧ Walk next (seen ++ first) rest later ∧
      met = first ++ later := by
  induction agenda generalizing seen met with
  | nil => exact ⟨[], met, .done seen, by simpa using walk, rfl⟩
  | cons node agenda ih =>
      cases walk with
      | pass known behind =>
          rcases ih behind with ⟨first, later, walked, walkedRest, rfl⟩
          exact ⟨first, later, .pass known walked, walkedRest, rfl⟩
      | @visit _ _ below _ _ new walkedBelow behind =>
          rcases ih behind with ⟨first, later, walked, walkedRest, rfl⟩
          refine ⟨node :: (below ++ first), later, .visit new walkedBelow walked, ?_, by simp⟩
          simpa using walkedRest

/-- What a walk meets is new, and is met once. -/
theorem nodup (walk : Walk next seen agenda met) : (∀ node ∈ met, node ∉ seen) ∧ met.Nodup := by
  induction walk with
  | done seen => simp
  | pass _ _ ih => exact ih
  | @visit seen agenda first later node new _ _ belowIh behindIh =>
      have firstNew : ∀ other ∈ first, other ∉ seen ∧ other ≠ node := by
        simpa using belowIh.1
      have laterNew : ∀ other ∈ later, other ∉ seen ∧ other ≠ node ∧ other ∉ first := by
        simpa using behindIh.1
      constructor
      · intro other member
        simp only [List.mem_cons, List.mem_append] at member
        rcases member with rfl | inFirst | inLater
        · exact new
        · exact (firstNew other inFirst).1
        · exact (laterNew other inLater).1
      · rw [List.nodup_cons, List.nodup_append, List.mem_append]
        refine ⟨?_, belowIh.2, behindIh.2, ?_⟩
        · rintro (inFirst | inLater)
          · exact (firstNew node inFirst).2 rfl
          · exact (laterNew node inLater).2.1 rfl
        · rintro other inFirst _ inLater rfl
          exact (laterNew other inLater).2.2 inFirst

end Walk

/-- Among nodes that contain their successors, `preorder` computes the walk: the
nodes that it may still visit are those that have not been seen. -/
theorem walk_preorder [DecidableEq α] {nodes : List α}
    (closed : ∀ node, ∀ other ∈ next node, other ∈ nodes) {seen unvisited agenda : List α}
    (inside : ∀ node ∈ agenda, node ∈ nodes)
    (fresh : ∀ node ∈ nodes, node ∈ unvisited ↔ node ∉ seen) :
    Walk next seen agenda (preorder next unvisited agenda) := by
  fun_induction preorder next unvisited agenda generalizing seen with
  | case1 unvisited => exact .done seen
  | case2 unvisited node rest unseen ih =>
      have new : node ∉ seen := (fresh node (inside node List.mem_cons_self)).mp unseen
      have later : Walk next (seen ++ [node]) (next node ++ rest)
          (preorder next (strike node unvisited) (next node ++ rest)) := by
        apply ih
        · intro other member
          rcases List.mem_append.mp member with step | behind
          · exact closed node other step
          · exact inside other (List.mem_cons_of_mem node behind)
        · intro other member
          simp [mem_strike_iff, fresh other member]
      rcases later.split with ⟨first, last, below, behind, same⟩
      rw [same]
      apply Walk.visit new below
      simpa using behind
  | case3 unvisited node rest known ih =>
      have nodeInside := inside node List.mem_cons_self
      have isSeen : node ∈ seen := by
        by_contra new
        exact known ((fresh node nodeInside).mpr new)
      apply Walk.pass isSeen
      exact ih (fun other member => inside other (List.mem_cons_of_mem node member)) fresh

/-- One step to a successor. -/
def Step (next : α → List α) (node other : α) : Prop :=
  other ∈ next node

/-- Everything that a node leads to has been seen, the node itself included. -/
def Finished (next : α → List α) (seen : List α) (node : α) : Prop :=
  ∀ other, Relation.ReflTransGen (Step next) node other → other ∈ seen

/-- What a walk has seen is finished, unless the walk is still below it: then it leads
to everything on the agenda. -/
def Underway (next : α → List α) (seen agenda : List α) : Prop :=
  ∀ node ∈ seen, Finished next seen node ∨
    ∀ other ∈ agenda, Relation.TransGen (Step next) node other

theorem Finished.mono {seen more : List α} (subset : seen ⊆ more) {node : α}
    (finished : Finished next seen node) : Finished next more node :=
  fun other chain => subset (finished other chain)

/-- A node is finished once the walk below it has finished its successors. -/
theorem Finished.of_below {seen first : List α} {node : α}
    (below : ∀ other ∈ next node, Finished next (seen ++ [node] ++ first) other) :
    Finished next (seen ++ node :: first) node := by
  intro other chain
  rcases Relation.ReflTransGen.cases_head chain with rfl | ⟨middle, step, rest⟩
  · simp
  · simpa using below middle step other rest

theorem Walk.reaches {seen agenda met : List α} (walk : Walk next seen agenda met) :
    ∀ node ∈ met, ∃ start ∈ agenda, Relation.ReflTransGen (Step next) start node := by
  induction walk with
  | done seen => simp
  | pass _ _ ih =>
      intro node member
      rcases ih node member with ⟨start, listed, chain⟩
      exact ⟨start, List.mem_cons_of_mem _ listed, chain⟩
  | @visit seen agenda first later node _ _ _ belowIh behindIh =>
      intro other member
      simp only [List.mem_cons, List.mem_append] at member
      rcases member with rfl | inFirst | inLater
      · exact ⟨other, List.mem_cons_self, .refl⟩
      · rcases belowIh other inFirst with ⟨start, step, chain⟩
        exact ⟨node, List.mem_cons_self, .head step chain⟩
      · rcases behindIh other inLater with ⟨start, listed, chain⟩
        exact ⟨start, List.mem_cons_of_mem node listed, chain⟩

namespace Underway

variable {seen agenda : List α} {node : α}

theorem tail (underway : Underway next seen (node :: agenda)) : Underway next seen agenda := by
  intro other member
  rcases underway other member with finished | above
  · exact .inl finished
  · exact .inr fun further listed => above further (List.mem_cons_of_mem node listed)

/-- Going down from a node, everything that the walk was below leads on. -/
theorem below (underway : Underway next seen (node :: agenda)) :
    Underway next (seen ++ [node]) (next node) := by
  intro other member
  rcases List.mem_append.mp member with old | here
  · rcases underway other old with finished | above
    · exact .inl (finished.mono (List.subset_append_left seen [node]))
    · exact .inr fun further step => (above node List.mem_cons_self).tail step
  · cases List.mem_singleton.mp here
    exact .inr fun further step => .single step

/-- Coming back from a node, everything that was met below it is finished. -/
theorem behind {first : List α} (underway : Underway next seen (node :: agenda))
    (walk : Walk next (seen ++ [node]) (next node) first)
    (finished : Finished next (seen ++ node :: first) node) :
    Underway next (seen ++ node :: first) agenda := by
  intro other member
  rcases List.mem_append.mp member with old | new
  · rcases underway.tail other old with done | above
    · exact .inl (done.mono (List.subset_append_left seen _))
    · exact .inr above
  · left
    intro further chain
    apply finished
    rcases List.mem_cons.mp new with rfl | inFirst
    · exact chain
    · rcases walk.reaches other inFirst with ⟨start, step, before⟩
      exact .head step (before.trans chain)

/-- Where there are no cycles, what stands on the agenda and was seen is finished. -/
theorem finished (acyclic : ∀ node, ¬ Relation.TransGen (Step next) node node)
    (underway : Underway next seen (node :: agenda)) (known : node ∈ seen) :
    Finished next seen node := by
  rcases underway node known with finished | above
  · exact finished
  · exact absurd (above node List.mem_cons_self) (acyclic node)

end Underway

/-- Where there are no cycles, a walk finishes everything on its agenda. -/
theorem Walk.finishes (acyclic : ∀ node, ¬ Relation.TransGen (Step next) node node)
    {seen agenda met : List α} (walk : Walk next seen agenda met)
    (underway : Underway next seen agenda) :
    ∀ node ∈ agenda, Finished next (seen ++ met) node := by
  induction walk with
  | done seen => simp
  | @pass seen agenda met node known _ ih =>
      rw [List.forall_mem_cons]
      constructor
      · exact (underway.finished acyclic known).mono (List.subset_append_left seen met)
      · exact ih underway.tail
  | @visit seen agenda first later node _ below _ belowIh behindIh =>
      have nodeFinished : Finished next (seen ++ node :: first) node :=
        .of_below (belowIh underway.below)
      rw [List.forall_mem_cons, ← List.cons_append, ← List.append_assoc]
      constructor
      · exact nodeFinished.mono (List.subset_append_left _ later)
      · exact behindIh (underway.behind below nodeFinished)

/-- Where there are no cycles, a walk that has been below a node is underway with what
stands behind it. -/
theorem Underway.of_visit (acyclic : ∀ node, ¬ Relation.TransGen (Step next) node node)
    {seen agenda first : List α} {node : α} (underway : Underway next seen (node :: agenda))
    (below : Walk next (seen ++ [node]) (next node) first) :
    Underway next (seen ++ node :: first) agenda :=
  underway.behind below (.of_below (below.finishes acyclic underway.below))

end Bindery.Graph
