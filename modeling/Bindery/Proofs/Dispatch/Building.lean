import Bindery.Dispatch.Build
import Bindery.Proofs.Outcome

/-!
# What building a dispatch tree succeeds on

Grouping keeps declaration order: the first group whose key passes a test is the
group of the first item whose key does.  A tree is built exactly if every group
of candidates, on every level, comes to a node; the branches and arms then stand
in the order of the groups.
-/

namespace Bindery.Dispatch

section Grouping

variable {α κ : Type} [DecidableEq κ]

/-- Leaving out repetitions does not change which item passes a test first. -/
theorem find?_eraseDups (test : κ → Bool) (items : List κ) :
    items.eraseDups.find? test = items.find? test := by
  match items with
  | [] => rfl
  | item :: rest =>
      rw [List.eraseDups_cons, List.find?_cons, List.find?_cons]
      cases passes : test item with
      | true => rfl
      | false =>
          rw [find?_eraseDups test, List.find?_filter]
          change List.find? _ rest = List.find? test rest
          congr 1
          funext other
          by_cases same : other = item
          · simp [same, passes]
          · simp [same]
termination_by items.length
decreasing_by exact Nat.lt_succ_of_le (List.length_filter_le _ _)

theorem find?_groupBy (key : α → κ) (test : κ → Bool) (items : List α) :
    (groupBy key items).find? (fun group => test group.1) =
      (items.find? fun item => test (key item)).map fun item =>
        (key item, items.filter fun other => key other = key item) := by
  rw [groupBy, List.find?_map]
  change Option.map _ (List.find? test _) = _
  rw [find?_eraseDups, List.find?_map, Option.map_map]
  rfl

/-- A group has the key of some item, and all items of that key, in order. -/
theorem mem_groupBy_iff (key : α → κ) (items : List α) (group : κ × List α) :
    group ∈ groupBy key items ↔
      (∃ item ∈ items, key item = group.1) ∧
        group.2 = items.filter fun item => key item = group.1 := by
  rcases group with ⟨shared, members⟩
  simp only [groupBy, List.mem_map, List.mem_eraseDups, Prod.mk.injEq]
  constructor
  · rintro ⟨_, used, rfl, rfl⟩
    exact ⟨used, rfl⟩
  · rintro ⟨used, same⟩
    exact ⟨shared, used, rfl, same.symm⟩

theorem mem_and_key_of_mem_group {key : α → κ} {items : List α} {group : κ × List α}
    (member : group ∈ groupBy key items) {item : α} (listed : item ∈ group.2) :
    item ∈ items ∧ key item = group.1 := by
  rw [((mem_groupBy_iff key items group).mp member).2, List.mem_filter] at listed
  simpa using listed

/-- Every item has its group. -/
theorem group_mem_groupBy (key : α → κ) {items : List α} {item : α} (listed : item ∈ items) :
    (key item, items.filter fun other => key other = key item) ∈ groupBy key items :=
  (mem_groupBy_iff key items _).mpr ⟨⟨item, listed, rfl⟩, rfl⟩

theorem groupBy_ne_nil (key : α → κ) {items : List α} (some : items ≠ []) :
    groupBy key items ≠ [] := by
  cases items with
  | nil => exact absurd rfl some
  | cons item rest => simp [groupBy, List.eraseDups_cons]

/-- A group has members. -/
theorem members_ne_nil {key : α → κ} {items : List α} {group : κ × List α}
    (member : group ∈ groupBy key items) : group.2 ≠ [] := by
  obtain ⟨⟨item, itemMember, sameKey⟩, members_eq⟩ := (mem_groupBy_iff key items group).mp member
  rw [members_eq]
  exact List.ne_nil_of_mem (List.mem_filter.mpr ⟨itemMember, by simpa using sameKey⟩)

end Grouping

section Candidates

variable {candidate : Candidate} {argIndex : Nat}

theorem converterAt_eq_of_getElem? {key : TypeKey}
    (asked : candidate.converters[argIndex]? = some key) :
    candidate.converterAt argIndex = key := by
  rw [Candidate.converterAt, List.getD_eq_getElem?_getD, asked, Option.getD_some]

theorem getElem?_converters (takes : argIndex < candidate.arity) :
    candidate.converters[argIndex]? = some (candidate.converterAt argIndex) := by
  have stands := List.getElem?_eq_getElem takes
  rw [converterAt_eq_of_getElem? stands, stands]

end Candidates

/-- Candidates without further arguments come to a node exactly if there is one
of them. -/
theorem ofCandidates_zero_eq_ok_iff {context : String} {argIndex : Nat}
    {candidates : List Candidate} {node : Node} :
    Node.ofCandidates context 0 argIndex candidates = .ok node ↔
      ∃ candidate, candidates = [candidate] ∧ node = .call candidate.index := by
  rcases candidates with _ | ⟨candidate, _ | ⟨other, rest⟩⟩
  · simp [Node.ofCandidates]
  · simp [Node.ofCandidates, eq_comm]
  · simp [Node.ofCandidates]

/-- Candidates with further arguments come to a check of the next one, which has
a branch for every group. -/
theorem ofCandidates_succ_eq_ok_iff {context : String} {remaining argIndex : Nat}
    {candidates : List Candidate} {node : Node} :
    Node.ofCandidates context (remaining + 1) argIndex candidates = .ok node ↔
      ∃ branches, node = .check argIndex branches ∧
        List.Forall₂ (fun group branch => branch.1 = group.1 ∧
            Node.ofCandidates context remaining (argIndex + 1) group.2 = .ok branch.2)
          (groupBy (·.converterAt argIndex) candidates) branches := by
  rw [Node.ofCandidates, Outcome.bind_eq_ok_iff]
  have branch_iff (group : TypeKey × List Candidate) (branch : TypeKey × Node) :
      (do return (group.1, ← Node.ofCandidates context remaining (argIndex + 1) group.2)) =
          Except.ok branch ↔
        branch.1 = group.1 ∧
          Node.ofCandidates context remaining (argIndex + 1) group.2 = .ok branch.2 := by
    rw [Outcome.bind_eq_ok_iff]
    constructor
    · rintro ⟨next, built, same⟩
      cases same
      exact ⟨rfl, built⟩
    · rintro ⟨same, built⟩
      exact ⟨branch.2, built, by rw [← same]; rfl⟩
  simp only [Outcome.mapM_eq_ok_iff, branch_iff, Outcome.pure_eq_ok_iff]
  constructor
  · rintro ⟨branches, built, same⟩
    exact ⟨branches, same.symm, built⟩
  · rintro ⟨branches, same, built⟩
    exact ⟨branches, built, same.symm⟩

/-- Candidates with further arguments come to no node if those of one group do not, and
for the same reason. -/
theorem exists_group_of_ofCandidates_eq_error {context : String} {remaining argIndex : Nat}
    {candidates : List Candidate} {error : BindError}
    (failed : Node.ofCandidates context (remaining + 1) argIndex candidates = .error error) :
    ∃ group ∈ groupBy (·.converterAt argIndex) candidates,
      Node.ofCandidates context remaining (argIndex + 1) group.2 = .error error := by
  rw [Node.ofCandidates, Outcome.bind_pure_eq_error_iff] at failed
  obtain ⟨group, member, groupFailed⟩ := Outcome.exists_of_mapM_eq_error failed
  exact ⟨group, member, Outcome.bind_pure_eq_error_iff.mp groupFailed⟩

/-- Candidates that are grouped for one arm have its number of arguments left. -/
theorem arity_of_mem_group {candidates : List Candidate} {group : Nat × List Candidate}
    (member : group ∈ groupBy Candidate.arity candidates) :
    ∀ candidate ∈ group.2, candidate.arity = 0 + group.1 := by
  intro candidate listed
  rw [Nat.zero_add]
  exact (mem_and_key_of_mem_group member listed).2

/-- A tree is built exactly from a set that is not empty and whose groups by
number of arguments all come to a node. -/
theorem ofPrototypes_eq_ok_iff {protos : List Prototype} {context : String} {tree : Tree} :
    Tree.ofPrototypes protos context = .ok tree ↔
      protos ≠ [] ∧ tree.context = context ∧
        List.Forall₂ (fun group arm => arm.argCount = group.1 ∧
            Node.ofCandidates context group.1 0 group.2 = .ok arm.root)
          (groupBy Candidate.arity (Candidate.ofPrototypes protos)) tree.arms := by
  by_cases empty : protos = []
  · simp [Tree.ofPrototypes, empty]
  rw [Tree.ofPrototypes, if_neg (by simpa using empty), Outcome.bind_eq_ok_iff]
  have arm_iff (group : Nat × List Candidate) (arm : Arm) :
      (do return (⟨group.1, ← Node.ofCandidates context group.1 0 group.2⟩ : Arm)) =
          Except.ok arm ↔
        arm.argCount = group.1 ∧ Node.ofCandidates context group.1 0 group.2 = .ok arm.root := by
    rw [Outcome.bind_eq_ok_iff]
    constructor
    · rintro ⟨root, built, same⟩
      cases same
      exact ⟨rfl, built⟩
    · rintro ⟨same, built⟩
      exact ⟨arm.root, built, by rw [← same]; rfl⟩
  simp only [Outcome.mapM_eq_ok_iff, arm_iff, Outcome.pure_eq_ok_iff]
  constructor
  · rintro ⟨arms, built, rfl⟩
    exact ⟨empty, rfl, built⟩
  · rintro ⟨-, rfl, built⟩
    exact ⟨tree.arms, built, rfl⟩

theorem exists_group_of_ofPrototypes_eq_error {protos : List Prototype} {context : String}
    {error : BindError} (some : protos ≠ [])
    (failed : Tree.ofPrototypes protos context = .error error) :
    ∃ group ∈ groupBy Candidate.arity (Candidate.ofPrototypes protos),
      Node.ofCandidates context group.1 0 group.2 = .error error := by
  rw [Tree.ofPrototypes, if_neg (by simpa using some), Outcome.bind_pure_eq_error_iff] at failed
  obtain ⟨group, member, groupFailed⟩ := Outcome.exists_of_mapM_eq_error failed
  exact ⟨group, member, Outcome.bind_pure_eq_error_iff.mp groupFailed⟩

/-- Every check below a node has a branch. -/
inductive Node.Branching : Node → Prop where
  | call (proto : Nat) : Branching (.call proto)
  | check (argIndex : Nat) {branches : List (TypeKey × Node)} (some : branches ≠ [])
      (below : ∀ branch ∈ branches, Branching branch.2) : Branching (.check argIndex branches)

/-- Every check of a tree has a branch. -/
def Tree.Branching (tree : Tree) : Prop :=
  ∀ arm ∈ tree.arms, arm.root.Branching

theorem branching_ofCandidates {context : String} {remaining argIndex : Nat}
    {candidates : List Candidate} {node : Node} (some : candidates ≠ [])
    (built : Node.ofCandidates context remaining argIndex candidates = .ok node) :
    node.Branching := by
  induction remaining generalizing argIndex candidates node with
  | zero =>
      obtain ⟨candidate, -, rfl⟩ := ofCandidates_zero_eq_ok_iff.mp built
      exact .call candidate.index
  | succ remaining ih =>
      obtain ⟨branches, rfl, branchesBuilt⟩ := ofCandidates_succ_eq_ok_iff.mp built
      apply Node.Branching.check
      · rintro rfl
        exact groupBy_ne_nil _ some (List.forall₂_nil_right_iff.mp branchesBuilt)
      · intro branch member
        obtain ⟨group, groupMember, -, built⟩ := Outcome.exists_of_mem_right branchesBuilt member
        exact ih (members_ne_nil groupMember) built

theorem branching_ofPrototypes {protos : List Prototype} {context : String} {tree : Tree}
    (built : Tree.ofPrototypes protos context = .ok tree) : tree.Branching := by
  obtain ⟨-, -, armsBuilt⟩ := ofPrototypes_eq_ok_iff.mp built
  intro arm member
  obtain ⟨group, groupMember, -, rootBuilt⟩ := Outcome.exists_of_mem_right armsBuilt member
  exact branching_ofCandidates (members_ne_nil groupMember) rootBuilt

end Bindery.Dispatch
