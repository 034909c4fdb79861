import Bindery.Proofs.Dispatch.Building
import Mathlib.Data.List.Permutation

/-!
# The dispatch tree as a trie of its overload set

Every call below a node is a leaf, and the checks passed on the way to it are its
path.  Building loses no prototype and invents none: the leaves of a tree are the
prototypes of its overload set, each once, each under its number of arguments and
along its own argument types.  Branches that stand side by side differ in type and
follow the order in which their prototypes were first declared.
-/

namespace Bindery.Dispatch

section Grouping

variable {α κ : Type} [DecidableEq κ]

/-- The first item opens the first group, and the items of other keys make up the
groups behind it. -/
theorem groupBy_cons (key : α → κ) (item : α) (rest : List α) :
    groupBy key (item :: rest) =
      (key item, item :: rest.filter fun other => key other = key item) ::
        groupBy key (rest.filter fun other => key other ≠ key item) := by
  have others : (rest.map key).filter (fun other => !other == key item) =
      (rest.filter fun other => key other ≠ key item).map key := by
    rw [List.filter_map]
    congr 1
    apply List.filter_congr
    intro other _
    simp [Bool.beq_eq_decide_eq]
  rw [groupBy, List.map_cons, List.eraseDups_cons, List.map_cons, others, groupBy]
  congr 1
  · simp
  · apply List.map_congr_left
    intro shared used
    rcases List.mem_map.mp (List.mem_eraseDups.mp used) with ⟨other, member, rfl⟩
    have apart : key other ≠ key item := by simpa using List.of_mem_filter member
    rw [List.filter_cons_of_neg (by simpa using Ne.symm apart), List.filter_filter]
    congr 1
    apply List.filter_congr
    intro third _
    by_cases same : key third = key other
    · simp [same, apart]
    · simp [same]

/-- Grouping only reorders. -/
theorem flatMap_groupBy_perm (key : α → κ) (items : List α) :
    ((groupBy key items).flatMap (·.2)).Perm items := by
  match items with
  | [] => exact .nil
  | item :: rest =>
      rw [groupBy_cons, List.flatMap_cons, List.cons_append]
      apply List.Perm.cons
      have others := flatMap_groupBy_perm key (rest.filter fun other => key other ≠ key item)
      refine (others.append_left _).trans ?_
      simpa using List.filter_append_perm (fun other => decide (key other = key item)) rest
termination_by items.length
decreasing_by exact Nat.lt_succ_of_le (List.length_filter_le _ _)

/-- Groups differ in key, and their first members stand in the order of the items. -/
theorem pairwise_groupBy {R : α → α → Prop} (key : α → κ) {items : List α}
    (ordered : items.Pairwise R) :
    (groupBy key items).Pairwise fun earlier later =>
      earlier.1 ≠ later.1 ∧
        ∃ first ∈ earlier.2.head?, ∃ second ∈ later.2.head?, R first second := by
  match items with
  | [] => exact .nil
  | item :: rest =>
      rw [groupBy_cons]
      rcases List.pairwise_cons.mp ordered with ⟨before, restOrdered⟩
      apply List.Pairwise.cons
      · intro later member
        rcases (mem_groupBy_iff key _ later).mp member with ⟨⟨other, otherMember, sameKey⟩, members⟩
        have apart : key other ≠ key item := by simpa using List.of_mem_filter otherMember
        refine ⟨fun same => apart (sameKey.trans same.symm), item, rfl, ?_⟩
        rcases List.exists_cons_of_ne_nil (members_ne_nil member) with ⟨second, behind, split⟩
        have listed : second ∈ later.2 := split ▸ List.mem_cons_self
        rw [members] at listed
        have secondMember := List.mem_of_mem_filter (List.mem_of_mem_filter listed)
        exact ⟨second, by simp [split], before second secondMember⟩
      · exact pairwise_groupBy key (restOrdered.filter _)
termination_by items.length
decreasing_by exact Nat.lt_succ_of_le (List.length_filter_le _ _)

end Grouping

/-! ## Leaves -/

/-- A call below a node: the registered types taken on the way to it, each with the
argument that it was checked on, and the prototype called. -/
structure Leaf where
  path : List (TypeKey × Nat)
  proto : Nat
deriving DecidableEq, Inhabited

/-- The leaf as it is reached through one more check. -/
def Leaf.below (check : TypeKey × Nat) (leaf : Leaf) : Leaf :=
  { leaf with path := check :: leaf.path }

mutual

/-- The calls below a node, from left to right. -/
def Node.leaves : Node → List Leaf
  | .call proto => [⟨[], proto⟩]
  | .check argIndex branches => branchLeaves argIndex branches

/-- The calls below the branches of a check. -/
def branchLeaves (argIndex : Nat) : List (TypeKey × Node) → List Leaf
  | [] => []
  | (key, node) :: rest =>
      node.leaves.map (Leaf.below (key, argIndex)) ++ branchLeaves argIndex rest

end

/-- The calls of a tree, each with the number of arguments that its arm takes. -/
def Tree.leaves (tree : Tree) : List (Nat × Leaf) :=
  tree.arms.flatMap fun arm => arm.root.leaves.map fun leaf => (arm.argCount, leaf)

theorem leaves_check (argIndex : Nat) (branches : List (TypeKey × Node)) :
    (Node.check argIndex branches).leaves =
      branches.flatMap fun branch => branch.2.leaves.map (Leaf.below (branch.1, argIndex)) := by
  rw [Node.leaves]
  induction branches with
  | nil => rw [branchLeaves, List.flatMap_nil]
  | cons branch branches ih =>
      rcases branch with ⟨key, node⟩
      rw [branchLeaves, ih, List.flatMap_cons]

theorem flatMap_perm_of_forall₂ {α β γ : Type} {left : α → List γ} {right : β → List γ}
    {items : List α} {others : List β}
    (related : List.Forall₂ (fun item other => (right other).Perm (left item)) items others) :
    (others.flatMap right).Perm (items.flatMap left) := by
  induction related with
  | nil => exact .nil
  | cons pair _ ih =>
      rw [List.flatMap_cons, List.flatMap_cons]
      exact pair.append ih

/-- The leaf that a candidate has to become below the checks of the arguments
before `argIndex`. -/
def Candidate.leafFrom (argIndex : Nat) (candidate : Candidate) : Leaf :=
  ⟨(candidate.converters.drop argIndex).zipIdx argIndex, candidate.index⟩

theorem leafFrom_eq_below {candidate : Candidate} {argIndex : Nat}
    (takes : argIndex < candidate.arity) :
    candidate.leafFrom argIndex =
      (candidate.leafFrom (argIndex + 1)).below (candidate.converterAt argIndex, argIndex) := by
  have inside : argIndex < candidate.converters.length := takes
  rw [Candidate.leafFrom, List.drop_eq_getElem_cons inside, List.zipIdx_cons]
  simp [Candidate.leafFrom, Leaf.below, Candidate.converterAt, List.getElem?_eq_getElem inside]

/-- A node has a leaf for every candidate that it was built from, and no other. -/
theorem leaves_ofCandidates_perm {context : String} {remaining argIndex : Nat}
    {candidates : List Candidate} {node : Node}
    (takes : ∀ candidate ∈ candidates, candidate.arity = argIndex + remaining)
    (built : Node.ofCandidates context remaining argIndex candidates = .ok node) :
    node.leaves.Perm (candidates.map (Candidate.leafFrom argIndex)) := by
  induction remaining generalizing argIndex candidates node with
  | zero =>
      rcases ofCandidates_zero_eq_ok_iff.mp built with ⟨candidate, rfl, rfl⟩
      have usedUp : candidate.converters.length = argIndex := takes candidate List.mem_cons_self
      simp [Node.leaves, Candidate.leafFrom, List.drop_eq_nil_of_le (Nat.le_of_eq usedUp)]
  | succ remaining ih =>
      rcases ofCandidates_succ_eq_ok_iff.mp built with ⟨branches, rfl, branchesBuilt⟩
      -- Branch by branch, the leaves are those of the members of its group.
      have branchwise : List.Forall₂ (fun group branch =>
          (branch.2.leaves.map (Leaf.below (branch.1, argIndex))).Perm
            (group.2.map (Candidate.leafFrom argIndex)))
          (groupBy (·.converterAt argIndex) candidates) branches := by
        refine List.Forall₂.imp ?_ ((List.forall₂_and_left _ _).mpr
          ⟨fun _ member => member, branchesBuilt⟩)
        rintro group branch ⟨groupMember, sameKey, branchBuilt⟩
        have below := ih (fun candidate listed => by
          have := takes candidate (mem_and_key_of_mem_group groupMember listed).1
          omega) branchBuilt
        refine (below.map _).trans (List.Perm.of_eq ?_)
        rw [List.map_map]
        apply List.map_congr_left
        intro candidate listed
        rcases mem_and_key_of_mem_group groupMember listed with ⟨member, hasKey⟩
        have takesNext : argIndex < candidate.arity := by
          have := takes candidate member
          omega
        rw [leafFrom_eq_below takesNext, hasKey, ← sameKey]
        rfl
      rw [leaves_check]
      refine (flatMap_perm_of_forall₂ branchwise).trans ?_
      rw [← List.map_flatMap]
      exact (flatMap_groupBy_perm _ candidates).map _

/-- The prototype declared first among those that a node may choose. -/
def Node.first? (node : Node) : Option Nat :=
  (node.leaves.map (·.proto)).min?

/-- The first prototype below one node was declared before the first below another. -/
def Node.DeclaredBefore (earlier later : Node) : Prop :=
  ∃ first ∈ earlier.first?, ∃ second ∈ later.first?, first < second

/-- At every check below a node, the branches differ in type and stand in the order of
the first prototypes below them. -/
inductive Node.Sorted : Node → Prop where
  | call (proto : Nat) : Sorted (.call proto)
  | check (argIndex : Nat) {branches : List (TypeKey × Node)}
      (distinct : (branches.map (·.1)).Nodup)
      (ordered : branches.Pairwise fun earlier later => earlier.2.DeclaredBefore later.2)
      (below : ∀ branch ∈ branches, Sorted branch.2) : Sorted (.check argIndex branches)

theorem pairwise_of_forall₂ {α β : Type} {R : α → β → Prop} {S : α → α → Prop}
    {T : β → β → Prop}
    (transfer : ∀ item other result further, R item result → R other further → S item other →
      T result further)
    {items : List α} {results : List β} (related : List.Forall₂ R items results)
    (pairwise : items.Pairwise S) : results.Pairwise T := by
  induction related with
  | nil => exact .nil
  | @cons item result items results pair rest ih =>
      rcases List.pairwise_cons.mp pairwise with ⟨before, later⟩
      apply List.Pairwise.cons
      · intro further member
        rcases Outcome.exists_of_mem_right
          ((List.forall₂_and_left _ _).mpr ⟨before, rest⟩) member with ⟨other, _, apart, otherPair⟩
        exact transfer item other result further pair otherPair apart
      · exact ih later

/-- Of candidates in declaration order, the first is the first that their node may
choose. -/
theorem first?_ofCandidates {context : String} {remaining argIndex : Nat}
    {candidates : List Candidate} {node : Node}
    (takes : ∀ candidate ∈ candidates, candidate.arity = argIndex + remaining)
    (ordered : candidates.Pairwise fun earlier later => earlier.index < later.index)
    (built : Node.ofCandidates context remaining argIndex candidates = .ok node)
    {first : Candidate} (isFirst : first ∈ candidates.head?) :
    node.first? = some first.index := by
  have protos : (node.leaves.map (·.proto)).Perm (candidates.map (·.index)) := by
    simpa [Candidate.leafFrom, Function.comp_def] using
      (leaves_ofCandidates_perm takes built).map (·.proto)
  rw [Node.first?, List.min?_eq_some_iff]
  rcases List.head?_eq_some_iff.mp isFirst with ⟨rest, rfl⟩
  constructor
  · exact protos.mem_iff.mpr (by simp)
  · intro proto member
    rcases List.mem_map.mp (protos.mem_iff.mp member) with ⟨candidate, listed, rfl⟩
    rcases List.mem_cons.mp listed with rfl | behind
    · exact Nat.le_refl _
    · exact Nat.le_of_lt (List.rel_of_pairwise_cons ordered behind)

theorem sorted_ofCandidates {context : String} {remaining argIndex : Nat}
    {candidates : List Candidate} {node : Node}
    (takes : ∀ candidate ∈ candidates, candidate.arity = argIndex + remaining)
    (ordered : candidates.Pairwise fun earlier later => earlier.index < later.index)
    (built : Node.ofCandidates context remaining argIndex candidates = .ok node) :
    node.Sorted := by
  induction remaining generalizing argIndex candidates node with
  | zero =>
      rcases ofCandidates_zero_eq_ok_iff.mp built with ⟨candidate, -, rfl⟩
      exact .call candidate.index
  | succ remaining ih =>
      rcases ofCandidates_succ_eq_ok_iff.mp built with ⟨branches, rfl, branchesBuilt⟩
      have groups := (List.forall₂_and_left _ _).mpr ⟨fun _ member => member, branchesBuilt⟩
      have groupTakes {group : TypeKey × List Candidate}
          (member : group ∈ groupBy (·.converterAt argIndex) candidates) :
          ∀ candidate ∈ group.2, candidate.arity = argIndex + 1 + remaining := by
        intro candidate listed
        have := takes candidate (mem_and_key_of_mem_group member listed).1
        omega
      have groupOrdered {group : TypeKey × List Candidate}
          (member : group ∈ groupBy (·.converterAt argIndex) candidates) :
          group.2.Pairwise fun earlier later => earlier.index < later.index := by
        rw [((mem_groupBy_iff _ candidates group).mp member).2]
        exact ordered.filter _
      have apart := pairwise_groupBy (·.converterAt argIndex) ordered
      apply Node.Sorted.check
      · apply List.pairwise_map.mpr
        refine pairwise_of_forall₂ ?_ groups apart
        rintro group other branch further ⟨_, sameKey, _⟩ ⟨_, otherKey, _⟩ ⟨different, _⟩
        rwa [sameKey, otherKey]
      · refine pairwise_of_forall₂ ?_ groups apart
        rintro group other branch further ⟨member, _, branchBuilt⟩ ⟨otherMember, _, furtherBuilt⟩
          ⟨_, first, isFirst, second, isSecond, before⟩
        exact ⟨first.index,
          first?_ofCandidates (groupTakes member) (groupOrdered member) branchBuilt isFirst,
          second.index,
          first?_ofCandidates (groupTakes otherMember) (groupOrdered otherMember) furtherBuilt
            isSecond,
          before⟩
      · intro branch member
        rcases Outcome.exists_of_mem_right branchesBuilt member with
          ⟨group, groupMember, -, branchBuilt⟩
        exact ih (groupTakes groupMember) (groupOrdered groupMember) branchBuilt

/-! ## Trees -/

/-- At every check of a tree, the branches differ in type and stand in the order of the
first prototypes below them. -/
def Tree.Sorted (tree : Tree) : Prop :=
  ∀ arm ∈ tree.arms, arm.root.Sorted

section Trees

variable {protos : List Prototype} {context : String} {tree : Tree}

theorem map_arity_candidates (protos : List Prototype) :
    (Candidate.ofPrototypes protos).map Candidate.arity = protos.map Prototype.arity := by
  rw [Candidate.ofPrototypes, List.map_map]
  conv_rhs => rw [← List.zipIdx_map_fst 0 protos, List.map_map]
  apply List.map_congr_left
  intro entry _
  exact entry.1.length_converters

theorem pairwise_index_candidates (protos : List Prototype) :
    (Candidate.ofPrototypes protos).Pairwise fun earlier later => earlier.index < later.index := by
  have indices : (Candidate.ofPrototypes protos).map (·.index) = List.range' 0 protos.length := by
    rw [Candidate.ofPrototypes, List.map_map]
    exact List.zipIdx_map_snd 0 protos
  rw [← List.pairwise_map, indices]
  exact List.pairwise_lt_range'

/-- A tree has an arm for every number of arguments that some prototype takes, in the
order in which they are first declared. -/
theorem argCounts_ofPrototypes (built : Tree.ofPrototypes protos context = .ok tree) :
    tree.arms.map (·.argCount) = (protos.map Prototype.arity).eraseDups := by
  rcases ofPrototypes_eq_ok_iff.mp built with ⟨-, -, armsBuilt⟩
  have same : List.Forall₂ (· = ·)
      ((groupBy Candidate.arity (Candidate.ofPrototypes protos)).map (·.1))
      (tree.arms.map (·.argCount)) := by
    rw [List.forall₂_map_left_iff, List.forall₂_map_right_iff]
    exact armsBuilt.imp fun group arm pair => pair.1.symm
  rw [List.forall₂_eq_eq_eq] at same
  rw [← same, groupBy, map_arity_candidates, List.map_map]
  exact List.map_id _

theorem nodup_argCounts (built : Tree.ofPrototypes protos context = .ok tree) :
    (tree.arms.map (·.argCount)).Nodup := by
  rcases ofPrototypes_eq_ok_iff.mp built with ⟨-, -, armsBuilt⟩
  apply List.pairwise_map.mpr
  refine pairwise_of_forall₂ ?_ armsBuilt
    (pairwise_groupBy Candidate.arity (pairwise_index_candidates protos))
  rintro group other arm further ⟨sameCount, _⟩ ⟨otherCount, _⟩ ⟨different, _⟩
  rwa [sameCount, otherCount]

theorem leaves_ofPrototypes_perm (built : Tree.ofPrototypes protos context = .ok tree) :
    tree.leaves.Perm ((Candidate.ofPrototypes protos).map fun candidate =>
      (candidate.arity, candidate.leafFrom 0)) := by
  rcases ofPrototypes_eq_ok_iff.mp built with ⟨-, -, armsBuilt⟩
  have armwise : List.Forall₂ (fun group arm =>
      (arm.root.leaves.map fun leaf => (arm.argCount, leaf)).Perm
        (group.2.map fun candidate => (candidate.arity, candidate.leafFrom 0)))
      (groupBy Candidate.arity (Candidate.ofPrototypes protos)) tree.arms := by
    refine List.Forall₂.imp ?_ ((List.forall₂_and_left _ _).mpr ⟨fun _ member => member, armsBuilt⟩)
    rintro group arm ⟨member, sameCount, rootBuilt⟩
    have below := leaves_ofCandidates_perm (arity_of_mem_group member) rootBuilt
    refine (below.map _).trans (List.Perm.of_eq ?_)
    rw [List.map_map]
    apply List.map_congr_left
    intro candidate listed
    rw [(mem_and_key_of_mem_group member listed).2, ← sameCount]
    rfl
  rw [Tree.leaves]
  refine (flatMap_perm_of_forall₂ armwise).trans ?_
  rw [← List.map_flatMap]
  exact (flatMap_groupBy_perm _ _).map _

theorem sorted_ofPrototypes (built : Tree.ofPrototypes protos context = .ok tree) :
    tree.Sorted := by
  rcases ofPrototypes_eq_ok_iff.mp built with ⟨-, -, armsBuilt⟩
  intro arm member
  rcases Outcome.exists_of_mem_right armsBuilt member with ⟨group, groupMember, -, rootBuilt⟩
  refine sorted_ofCandidates (arity_of_mem_group groupMember) ?_ rootBuilt
  rw [((mem_groupBy_iff _ _ group).mp groupMember).2]
  exact (pairwise_index_candidates protos).filter _

theorem max?_argCounts (some : tree.arms ≠ []) :
    (tree.arms.map (·.argCount)).max? = .some tree.maxArgCount := by
  rw [Tree.maxArgCount]
  cases arms : tree.arms with
  | nil => exact absurd arms some
  | cons arm rest =>
      rw [List.map_cons, List.max?_cons', List.foldl_map, List.foldl_cons, Nat.zero_max]

/-- The most arguments that any arm takes are the most that any prototype takes. -/
theorem max?_arity_ofPrototypes (built : Tree.ofPrototypes protos context = .ok tree) :
    (protos.map Prototype.arity).max? = some tree.maxArgCount := by
  have counts := argCounts_ofPrototypes built
  have someArm : tree.arms ≠ [] := by
    intro none
    rcases List.exists_mem_of_ne_nil _ (ofPrototypes_eq_ok_iff.mp built).1 with ⟨proto, member⟩
    have counted : proto.arity ∈ tree.arms.map (·.argCount) := by
      rw [counts, List.mem_eraseDups]
      exact List.mem_map_of_mem member
    simp [none] at counted
  have most := max?_argCounts someArm
  rw [counts] at most
  simpa [List.max?_eq_some_iff] using most

/-- The tree of an overload set is a trie of it that loses nothing. -/
theorem ofPrototypes_trie (built : Tree.ofPrototypes protos context = .ok tree) :
    (tree.arms.map (·.argCount)).Nodup ∧
      (tree.leaves.map (·.2.proto)).Perm (List.range protos.length) ∧
      (∀ entry ∈ tree.leaves, ∃ proto, protos[entry.2.proto]? = some proto ∧
        entry.1 = proto.arity ∧ entry.2.path = proto.converters.zipIdx) ∧
      tree.Sorted ∧ tree.Branching ∧
      (protos.map Prototype.arity).max? = some tree.maxArgCount := by
  have leaves := leaves_ofPrototypes_perm built
  refine ⟨nodup_argCounts built, ?_, ?_, sorted_ofPrototypes built, branching_ofPrototypes built,
    max?_arity_ofPrototypes built⟩
  · refine (leaves.map _).trans (List.Perm.of_eq ?_)
    rw [Candidate.ofPrototypes, List.map_map, List.map_map, List.range_eq_range']
    exact List.zipIdx_map_snd 0 protos
  · intro entry member
    rcases List.mem_map.mp (leaves.mem_iff.mp member) with ⟨candidate, listed, rfl⟩
    rcases List.mem_map.mp listed with ⟨declared, declaredMember, rfl⟩
    exact ⟨declared.1, List.mem_zipIdx_iff_getElem?.mp declaredMember,
      declared.1.length_converters, rfl⟩

end Trees

/-- Two of these prototypes share the check of their first argument, and the one
between them has an arm of its own. -/
theorem ofPrototypes_trie_shared_check :
    let argument (word : UInt64) : Argument := ⟨default, ⟨word⟩⟩
    let protos : List Prototype :=
      [⟨default, [argument 1, argument 2]⟩, ⟨default, [argument 3]⟩,
        ⟨default, [argument 1, argument 1]⟩]
    let tree : Tree := ⟨"function f",
      [⟨2, .check 0 [(⟨1⟩, .check 1 [(⟨2⟩, .call 0), (⟨1⟩, .call 2)])]⟩,
        ⟨1, .check 0 [(⟨3⟩, .call 1)]⟩]⟩
    Tree.ofPrototypes protos "function f" = .ok tree ∧
      tree.leaves =
        [(2, ⟨[(⟨1⟩, 0), (⟨2⟩, 1)], 0⟩), (2, ⟨[(⟨1⟩, 0), (⟨1⟩, 1)], 2⟩), (1, ⟨[(⟨3⟩, 0)], 1⟩)] ∧
      (tree.leaves.map (·.2.proto)).Perm (List.range 3) ∧ tree.Sorted ∧
      (protos.map Prototype.arity).max? = some tree.maxArgCount := by
  intro argument protos tree
  have built : Tree.ofPrototypes protos "function f" = .ok tree := by cbv
  rcases ofPrototypes_trie built with ⟨-, perm, -, sorted, -, most⟩
  exact ⟨built, rfl, perm, sorted, most⟩

end Bindery.Dispatch
