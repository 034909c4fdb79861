import Bindery.Proofs.Dispatch.Building
import Mathlib.Data.List.Permutation

/-!
# Which overload sets come to a tree

Building splits an overload set again and again and looks for ambiguity only when
all arguments are used up.  The candidates left together there are those whose
argument types agree from the first to the last, so a set is refused exactly if two
of its prototypes take the same types, and the error counts all prototypes that
take the types in question.
-/

namespace Bindery.Dispatch

/-- What only members of one group can be is counted in that group. -/
theorem countP_group {α κ : Type} [DecidableEq κ] {key : α → κ} {items : List α}
    {group : κ × List α} (member : group ∈ groupBy key items) {test : α → Bool}
    (inside : ∀ item ∈ items, test item = true → key item = group.1) :
    group.2.countP test = items.countP test := by
  rw [((mem_groupBy_iff key items group).mp member).2, List.countP_filter]
  apply List.countP_congr
  intro item listed
  rw [Bool.and_eq_true, decide_eq_true_eq]
  exact ⟨And.left, fun passes => ⟨passes, inside item listed passes⟩⟩

/-- The number of candidates that take the given types. -/
def sharing (types : List TypeKey) (candidates : List Candidate) : Nat :=
  candidates.countP fun candidate => candidate.converters = types

theorem exists_of_sharing_pos {types : List TypeKey} {candidates : List Candidate}
    (shared : 0 < sharing types candidates) :
    ∃ candidate ∈ candidates, candidate.converters = types := by
  simpa [sharing, List.countP_pos_iff] using shared

theorem sharing_branch {argIndex : Nat} {types : List TypeKey} {candidates : List Candidate}
    {group : TypeKey × List Candidate}
    (member : group ∈ groupBy (·.converterAt argIndex) candidates)
    (leads : types.getD argIndex .empty = group.1) :
    sharing types group.2 = sharing types candidates := by
  apply countP_group member
  intro candidate _ takes
  rw [← leads, ← of_decide_eq_true takes]
  rfl

theorem sharing_arm {types : List TypeKey} {candidates : List Candidate}
    {group : Nat × List Candidate} (member : group ∈ groupBy Candidate.arity candidates)
    (leads : types.length = group.1) : sharing types group.2 = sharing types candidates := by
  apply countP_group member
  intro candidate _ takes
  rw [← leads, ← of_decide_eq_true takes]
  rfl

/-- Candidates that come to a node are told apart by their types. -/
theorem sharing_le_one_of_ofCandidates {context : String} {remaining argIndex : Nat}
    {candidates : List Candidate} {node : Node}
    (built : Node.ofCandidates context remaining argIndex candidates = .ok node)
    (types : List TypeKey) : sharing types candidates ≤ 1 := by
  induction remaining generalizing argIndex candidates node with
  | zero =>
      rcases ofCandidates_zero_eq_ok_iff.mp built with ⟨candidate, rfl, -⟩
      exact List.countP_le_length
  | succ remaining ih =>
      rcases ofCandidates_succ_eq_ok_iff.mp built with ⟨branches, -, branchesBuilt⟩
      rcases Nat.eq_zero_or_pos (sharing types candidates) with none | shared
      · omega
      rcases exists_of_sharing_pos shared with ⟨candidate, listed, rfl⟩
      have member := group_mem_groupBy (·.converterAt argIndex) listed
      rcases Outcome.exists_of_mem_right branchesBuilt.flip member with ⟨branch, -, -, branchBuilt⟩
      rw [← sharing_branch member rfl]
      exact ih branchBuilt

/-- Candidates that building keeps together: they have the same number of arguments
and agree on the types of those before `argIndex`. -/
structure Together (remaining argIndex : Nat) (candidates : List Candidate) : Prop where
  arity : ∀ candidate ∈ candidates, candidate.arity = argIndex + remaining
  agree : ∀ first ∈ candidates, ∀ second ∈ candidates,
    first.converters.take argIndex = second.converters.take argIndex

theorem take_succ_converters {candidate : Candidate} {argIndex : Nat}
    (takes : argIndex < candidate.arity) :
    candidate.converters.take (argIndex + 1) =
      candidate.converters.take argIndex ++ [candidate.converterAt argIndex] := by
  rw [List.take_add_one, getElem?_converters takes, Option.toList_some]

/-- A branch keeps together what agrees on one more argument. -/
theorem Together.branch {remaining argIndex : Nat} {candidates : List Candidate}
    {group : TypeKey × List Candidate} (together : Together (remaining + 1) argIndex candidates)
    (member : group ∈ groupBy (·.converterAt argIndex) candidates) :
    Together remaining (argIndex + 1) group.2 := by
  constructor
  · intro candidate inGroup
    have := together.arity candidate (mem_and_key_of_mem_group member inGroup).1
    omega
  · intro first firstInGroup second secondInGroup
    rcases mem_and_key_of_mem_group member firstInGroup with ⟨firstMember, firstKey⟩
    rcases mem_and_key_of_mem_group member secondInGroup with ⟨secondMember, secondKey⟩
    have firstArity := together.arity first firstMember
    have secondArity := together.arity second secondMember
    rw [take_succ_converters (by omega), take_succ_converters (by omega),
      together.agree first firstMember second secondMember, firstKey, secondKey]

/-- When all arguments are used up, candidates kept together take the same types. -/
theorem Together.converters_eq {argIndex : Nat} {candidates : List Candidate}
    (together : Together 0 argIndex candidates) {first second : Candidate}
    (firstMember : first ∈ candidates) (secondMember : second ∈ candidates) :
    first.converters = second.converters := by
  have firstUsedUp : first.converters.length = argIndex := together.arity first firstMember
  have secondUsedUp : second.converters.length = argIndex := together.arity second secondMember
  have agreed := together.agree first firstMember second secondMember
  rwa [List.take_of_length_le (Nat.le_of_eq firstUsedUp),
    List.take_of_length_le (Nat.le_of_eq secondUsedUp)] at agreed

/-- Candidates that come to no node hold some that take the same types, and the error
counts all of these. -/
theorem ambiguous_of_ofCandidates {context : String} {remaining argIndex : Nat}
    {candidates : List Candidate} {error : BindError}
    (together : Together remaining argIndex candidates) (some : candidates ≠ [])
    (failed : Node.ofCandidates context remaining argIndex candidates = .error error) :
    ∃ types, 2 ≤ sharing types candidates ∧
      error = .ambiguousOverload context types.length (sharing types candidates) := by
  induction remaining generalizing argIndex candidates with
  | zero =>
      rcases candidates with _ | ⟨candidate, _ | ⟨other, rest⟩⟩
      · exact absurd rfl some
      · cases failed
      · have all : sharing candidate.converters (candidate :: other :: rest) =
            (candidate :: other :: rest).length := by
          apply List.countP_eq_length.mpr
          intro third member
          exact decide_eq_true (together.converters_eq member List.mem_cons_self)
        have usedUp : candidate.converters.length = argIndex :=
          together.arity candidate List.mem_cons_self
        refine ⟨candidate.converters, ?_, ?_⟩
        · rw [all]
          simp
        · rw [all, usedUp]
          cases failed
          rfl
  | succ remaining ih =>
      rcases exists_group_of_ofCandidates_eq_error failed with ⟨group, member, groupFailed⟩
      rcases ih (together.branch member) (members_ne_nil member) groupFailed with
        ⟨types, shared, rfl⟩
      have leads : types.getD argIndex .empty = group.1 := by
        rcases exists_of_sharing_pos (Nat.lt_of_succ_lt shared) with ⟨candidate, inGroup, rfl⟩
        exact (mem_and_key_of_mem_group member inGroup).2
      rw [sharing_branch member leads] at shared ⊢
      exact ⟨types, shared, rfl⟩

section Trees

variable {protos : List Prototype} {context : String}

/-- Building sees of a prototype only its place and the types of its arguments. -/
theorem candidates_eq (protos : List Prototype) :
    Candidate.ofPrototypes protos =
      (protos.map Prototype.converters).zipIdx.map fun entry => ⟨entry.2, entry.1⟩ := by
  rw [Candidate.ofPrototypes, List.zipIdx_map, List.map_map]
  rfl

theorem sharing_candidates (types : List TypeKey) (protos : List Prototype) :
    sharing types (Candidate.ofPrototypes protos) =
      (protos.map Prototype.converters).count types := by
  have seen : (Candidate.ofPrototypes protos).map Candidate.converters =
      protos.map Prototype.converters := by
    rw [candidates_eq, List.map_map]
    exact List.zipIdx_map_fst 0 _
  rw [sharing, ← seen, List.count_eq_countP, List.countP_map]
  apply List.countP_congr
  intro candidate _
  simp

theorem together_arm {group : Nat × List Candidate}
    (member : group ∈ groupBy Candidate.arity (Candidate.ofPrototypes protos)) :
    Together group.1 0 group.2 :=
  ⟨arity_of_mem_group member, fun _ _ _ _ => rfl⟩

/-- The prototypes of a tree are told apart by the types of their arguments. -/
theorem nodup_of_ofPrototypes {tree : Tree}
    (built : Tree.ofPrototypes protos context = .ok tree) :
    (protos.map Prototype.converters).Nodup := by
  rcases ofPrototypes_eq_ok_iff.mp built with ⟨-, -, armsBuilt⟩
  rw [List.nodup_iff_count_le_one]
  intro types
  rw [← sharing_candidates]
  rcases Nat.eq_zero_or_pos (sharing types (Candidate.ofPrototypes protos)) with none | shared
  · omega
  rcases exists_of_sharing_pos shared with ⟨candidate, listed, rfl⟩
  have member := group_mem_groupBy Candidate.arity listed
  rcases Outcome.exists_of_mem_right armsBuilt.flip member with ⟨arm, -, -, rootBuilt⟩
  rw [← sharing_arm member rfl]
  exact sharing_le_one_of_ofCandidates rootBuilt _

/-- A set that is not empty and comes to no tree holds prototypes that take the same
types, and the error counts all of these. -/
theorem ambiguous_of_ofPrototypes {error : BindError} (some : protos ≠ [])
    (failed : Tree.ofPrototypes protos context = .error error) :
    ∃ types, 2 ≤ (protos.map Prototype.converters).count types ∧
      error = .ambiguousOverload context types.length
        ((protos.map Prototype.converters).count types) := by
  rcases exists_group_of_ofPrototypes_eq_error some failed with ⟨group, member, groupFailed⟩
  rcases ambiguous_of_ofCandidates (together_arm member) (members_ne_nil member) groupFailed
    with ⟨types, shared, rfl⟩
  have leads : types.length = group.1 := by
    rcases exists_of_sharing_pos (Nat.lt_of_succ_lt shared) with ⟨candidate, inGroup, rfl⟩
    exact (mem_and_key_of_mem_group member inGroup).2
  rw [sharing_arm member leads, sharing_candidates] at shared ⊢
  exact ⟨types, shared, rfl⟩

/-- A set comes to a tree exactly if it is not empty and no two of its prototypes take
the same types. -/
theorem exists_tree_iff :
    (∃ tree, Tree.ofPrototypes protos context = .ok tree) ↔
      protos ≠ [] ∧ (protos.map Prototype.converters).Nodup := by
  constructor
  · rintro ⟨tree, built⟩
    exact ⟨(ofPrototypes_eq_ok_iff.mp built).1, nodup_of_ofPrototypes built⟩
  · rintro ⟨some, distinct⟩
    cases outcome : Tree.ofPrototypes protos context with
    | ok tree => exact ⟨tree, rfl⟩
    | error error =>
        rcases ambiguous_of_ofPrototypes some outcome with ⟨types, shared, -⟩
        have := List.nodup_iff_count_le_one.mp distinct types
        omega

theorem ofPrototypes_congr {others : List Prototype}
    (same : others.map Prototype.converters = protos.map Prototype.converters) :
    Tree.ofPrototypes others context = Tree.ofPrototypes protos context := by
  have sameLength : others.length = protos.length := by
    simpa using congrArg List.length same
  have sameEmptiness : others.isEmpty = protos.isEmpty := by
    rw [Bool.eq_iff_iff, List.isEmpty_iff_length_eq_zero, List.isEmpty_iff_length_eq_zero,
      sameLength]
  rw [Tree.ofPrototypes, Tree.ofPrototypes, sameEmptiness, candidates_eq others, same,
    ← candidates_eq protos]

end Trees

/-- Building accepts exactly the sets that are not empty and whose prototypes differ in
the types of their arguments.  It refuses the empty set as empty; any other set it
refuses for some types that several prototypes take, and counts those.  The types of
the arguments decide all this: what the prototypes return plays no part. -/
theorem ofPrototypes_accepts_distinct (protos : List Prototype) (context : String) :
    (Tree.ofPrototypes protos context = .error (.emptyOverloadSet context) ↔ protos = []) ∧
      ((∃ tree, Tree.ofPrototypes protos context = .ok tree) ↔
        protos ≠ [] ∧ (protos.map Prototype.converters).Nodup) ∧
      (protos ≠ [] → ¬ (protos.map Prototype.converters).Nodup →
        ∃ types, 2 ≤ (protos.map Prototype.converters).count types ∧
          Tree.ofPrototypes protos context =
            .error (.ambiguousOverload context types.length
              ((protos.map Prototype.converters).count types))) ∧
      ∀ others : List Prototype,
        others.map Prototype.converters = protos.map Prototype.converters →
          Tree.ofPrototypes others context = Tree.ofPrototypes protos context := by
  refine ⟨⟨?_, ?_⟩, exists_tree_iff, ?_, fun others same => ofPrototypes_congr same⟩
  · intro refused
    by_contra some
    rcases ambiguous_of_ofPrototypes some refused with ⟨types, -, other⟩
    cases other
  · rintro rfl
    rfl
  · intro some repeated
    cases outcome : Tree.ofPrototypes protos context with
    | ok tree => exact absurd (nodup_of_ofPrototypes outcome) repeated
    | error error =>
        rcases ambiguous_of_ofPrototypes some outcome with ⟨types, shared, rfl⟩
        exact ⟨types, shared, rfl⟩

/-- Three of these prototypes take the same two types and differ in their results only. -/
theorem ofPrototypes_accepts_distinct_results :
    let argument (word : UInt64) : Argument := ⟨default, ⟨word⟩⟩
    let void : Return := ⟨default, none⟩
    let number : Return := ⟨default, some ⟨1⟩⟩
    let protos : List Prototype :=
      [⟨number, [argument 1]⟩, ⟨void, [argument 1, argument 2]⟩,
        ⟨number, [argument 1, argument 2]⟩, ⟨void, [argument 2, argument 1]⟩,
        ⟨number, [argument 1, argument 2]⟩]
    let others := protos.map fun proto => { proto with result := void }
    ¬ (protos.map Prototype.converters).Nodup ∧
      (∃ types, 2 ≤ (protos.map Prototype.converters).count types ∧
        Tree.ofPrototypes protos "function f" =
          .error (.ambiguousOverload "function f" types.length
            ((protos.map Prototype.converters).count types))) ∧
      Tree.ofPrototypes protos "function f" = .error (.ambiguousOverload "function f" 2 3) ∧
      Tree.ofPrototypes others "function f" = Tree.ofPrototypes protos "function f" := by
  intro argument void number protos others
  have repeated : ¬ (protos.map Prototype.converters).Nodup := by decide
  rcases ofPrototypes_accepts_distinct protos "function f" with ⟨-, -, refused, unread⟩
  exact ⟨repeated, refused (by simp [protos]) repeated, by cbv, unread others rfl⟩

end Bindery.Dispatch
