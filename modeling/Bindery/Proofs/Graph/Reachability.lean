import Bindery.Graph.DepthFirst
import Mathlib.Logic.Relation

/-!
# What a depth-first walk meets

A walk meets exactly the nodes that a path through unvisited nodes leads to from
its agenda.  When every node that can be met is unvisited at the start, these are
the nodes that are reachable at all.
-/

namespace Bindery.Graph

variable {α : Type} {next : α → List α} {nodes : List α}

/-- A path through the given nodes, both ends included. -/
inductive Path (next : α → List α) (nodes : List α) : α → α → Prop where
  | refl {node : α} (inside : node ∈ nodes) : Path next nodes node node
  | tail {start middle finish : α} (path : Path next nodes start middle)
      (step : finish ∈ next middle) (inside : finish ∈ nodes) : Path next nodes start finish

namespace Path

theorem start_mem {start finish : α} (path : Path next nodes start finish) : start ∈ nodes := by
  induction path with
  | refl inside => exact inside
  | tail _ _ _ ih => exact ih

theorem mono {more : List α} (subset : ∀ node ∈ nodes, node ∈ more) {start finish : α}
    (path : Path next nodes start finish) : Path next more start finish := by
  induction path with
  | refl inside => exact .refl (subset _ inside)
  | tail _ step inside ih => exact ih.tail step (subset _ inside)

theorem head {node start finish : α} (inside : node ∈ nodes) (step : start ∈ next node)
    (path : Path next nodes start finish) : Path next nodes node finish := by
  induction path with
  | refl startInside => exact (Path.refl inside).tail step startInside
  | tail _ later finishInside ih => exact ih.tail later finishInside

end Path

/-- Among nodes that contain their successors, paths are chains of steps. -/
theorem path_iff_reflTransGen (closed : ∀ node, ∀ other ∈ next node, other ∈ nodes)
    {start finish : α} :
    Path next nodes start finish ↔
      start ∈ nodes ∧ Relation.ReflTransGen (fun node other => other ∈ next node) start finish := by
  constructor
  · intro path
    constructor
    · exact path.start_mem
    · induction path with
      | refl _ => exact .refl
      | tail _ step _ ih => exact ih.tail step
  · rintro ⟨inside, chain⟩
    induction chain with
    | refl => exact .refl inside
    | tail _ step ih => exact ih.tail step (closed _ _ step)

/-- With one more edge, a chain either does without it or comes to its source
and goes on from its target. -/
theorem transGen_insert {R S : α → α → Prop} {source target : α}
    (grown : ∀ first second, S first second → R first second ∨ first = source ∧ second = target)
    {start finish : α} (chain : Relation.TransGen S start finish) :
    Relation.TransGen R start finish ∨
      Relation.ReflTransGen R start source ∧ Relation.ReflTransGen R target finish := by
  induction chain with
  | single step =>
      rcases grown _ _ step with old | ⟨rfl, rfl⟩
      · exact .inl (.single old)
      · exact .inr ⟨.refl, .refl⟩
  | tail _ step ih =>
      rcases grown _ _ step with old | ⟨rfl, rfl⟩
      · rcases ih with before | ⟨toSource, fromTarget⟩
        · exact .inl (before.tail old)
        · exact .inr ⟨toSource, fromTarget.tail old⟩
      · rcases ih with before | ⟨toSource, _⟩
        · exact .inr ⟨before.to_reflTransGen, .refl⟩
        · exact .inr ⟨toSource, .refl⟩

/-- One more edge closes no cycle, unless its target already leads to its source. -/
theorem acyclic_insert {R S : α → α → Prop} {source target : α}
    (acyclic : ∀ node, ¬ Relation.TransGen R node node)
    (grown : ∀ first second, S first second → R first second ∨ first = source ∧ second = target)
    (apart : ¬ Relation.ReflTransGen R target source) (node : α) :
    ¬ Relation.TransGen S node node := by
  intro cycle
  rcases transGen_insert grown cycle with old | ⟨toSource, fromTarget⟩
  · exact acyclic node old
  · exact apart (fromTarget.trans toSource)

variable [DecidableEq α]

theorem mem_strike_iff {node other : α} :
    other ∈ strike node nodes ↔ other ∈ nodes ∧ other ≠ node := by
  simp [strike]

/-- Cut a path behind the last time that it comes through a node. -/
theorem Path.avoid (node : α) {start finish : α} (path : Path next nodes start finish) :
    finish = node ∨ Path next (strike node nodes) start finish ∨
      ∃ after ∈ next node, Path next (strike node nodes) after finish := by
  induction path with
  | refl inside =>
      by_cases same : start = node
      · exact .inl same
      · exact .inr (.inl (.refl (mem_strike_iff.mpr ⟨inside, same⟩)))
  | @tail middle finish _ step inside ih =>
      by_cases same : finish = node
      · exact .inl same
      · have finishInside := mem_strike_iff.mpr ⟨inside, same⟩
        rcases ih with rfl | path | ⟨after, afterStep, path⟩
        · exact .inr (.inr ⟨finish, step, .refl finishInside⟩)
        · exact .inr (.inl (path.tail step finishInside))
        · exact .inr (.inr ⟨after, afterStep, path.tail step finishInside⟩)

/-- A walk meets exactly the nodes that paths from its agenda lead to. -/
theorem mem_preorder_iff {unvisited agenda : List α} {target : α} :
    target ∈ preorder next unvisited agenda ↔
      ∃ start ∈ agenda, Path next unvisited start target := by
  fun_induction preorder next unvisited agenda with
  | case1 unvisited => simp
  | case2 unvisited node rest unseen ih =>
      rw [List.mem_cons, ih]
      have fewer : ∀ other ∈ strike node unvisited, other ∈ unvisited :=
        fun other member => (mem_strike_iff.mp member).1
      constructor
      · rintro (rfl | ⟨start, listed, path⟩)
        · exact ⟨target, List.mem_cons_self, .refl unseen⟩
        · rcases List.mem_append.mp listed with step | listed
          · exact ⟨node, List.mem_cons_self, (path.mono fewer).head unseen step⟩
          · exact ⟨start, List.mem_cons_of_mem node listed, path.mono fewer⟩
      · rintro ⟨start, listed, path⟩
        rcases path.avoid node with same | avoiding | ⟨after, step, avoiding⟩
        · exact .inl same
        · right
          rcases List.mem_cons.mp listed with rfl | listed
          · exact absurd rfl (mem_strike_iff.mp avoiding.start_mem).2
          · exact ⟨start, List.mem_append_right _ listed, avoiding⟩
        · exact .inr ⟨after, List.mem_append_left _ step, avoiding⟩
  | case3 unvisited node rest seen ih =>
      rw [ih]
      constructor
      · rintro ⟨start, listed, path⟩
        exact ⟨start, List.mem_cons_of_mem node listed, path⟩
      · rintro ⟨start, listed, path⟩
        rcases List.mem_cons.mp listed with rfl | listed
        · exact absurd path.start_mem seen
        · exact ⟨start, listed, path⟩

/-- A walk comes back to every node that it is below. -/
theorem mem_postorder_of_leave {unvisited : List α} {agenda : List (Visit α)} {node : α}
    (listed : .leave node ∈ agenda) : node ∈ postorder next unvisited agenda := by
  fun_induction postorder next unvisited agenda with
  | case1 unvisited => cases listed
  | case2 unvisited other rest ih =>
      rw [List.mem_cons]
      rcases List.mem_cons.mp listed with same | later
      · cases same
        exact .inl rfl
      · exact .inr (ih later)
  | case3 unvisited other rest unseen ih =>
      rcases List.mem_cons.mp listed with same | later
      · cases same
      · exact ih (List.mem_append_right _ (List.mem_cons_of_mem _ later))
  | case4 unvisited other rest seen ih =>
      rcases List.mem_cons.mp listed with same | later
      · cases same
      · exact ih later

/-- A walk leaves every unvisited node that it is to enter. -/
theorem mem_postorder_of_enter {unvisited : List α} {agenda : List (Visit α)} {node : α}
    (unseen : node ∈ unvisited) (listed : .enter node ∈ agenda) :
    node ∈ postorder next unvisited agenda := by
  fun_induction postorder next unvisited agenda with
  | case1 unvisited => cases listed
  | case2 unvisited other rest ih =>
      rcases List.mem_cons.mp listed with same | later
      · cases same
      · exact List.mem_cons_of_mem other (ih unseen later)
  | case3 unvisited other rest _ ih =>
      by_cases same : node = other
      · subst same
        exact mem_postorder_of_leave (List.mem_append_right _ List.mem_cons_self)
      · apply ih (mem_strike_iff.mpr ⟨unseen, same⟩)
        rcases List.mem_cons.mp listed with here | later
        · cases here
          exact absurd rfl same
        · exact List.mem_append_right _ (List.mem_cons_of_mem _ later)
  | case4 unvisited other rest seen ih =>
      rcases List.mem_cons.mp listed with here | later
      · cases here
        exact absurd unseen seen
      · exact ih unseen later

end Bindery.Graph
