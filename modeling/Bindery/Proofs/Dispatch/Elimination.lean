import Bindery.Proofs.Dispatch.Building
import Mathlib.Data.List.Find

/-!
# Resolving a call by elimination

A call can be resolved without a tree, straight on the list of prototypes: those
of another number of arguments are ruled out first; then, argument by argument,
the first prototype whose type the argument satisfies decides, and those that
ask for another type there are ruled out.  The tree of an overload set decides
every call as elimination does, and elimination leaves one prototype of it.
-/

namespace Bindery.Dispatch

/-- A prototype with its place in the overload set. -/
abbrev Declared := Prototype × Nat

/-- The registered type that a prototype asks for at an argument. -/
def Declared.asksAt (declared : Declared) (argIndex : Nat) : Option TypeKey :=
  declared.1.converters[argIndex]?

/-- Rule out prototypes by `remaining` arguments, from `argIndex` on. -/
def eliminate (context : String) (satisfies : Nat → TypeKey → Bool) :
    (remaining argIndex : Nat) → List Declared → Except Rejection (List Declared)
  | 0, _, left => .ok left
  | remaining + 1, argIndex, left =>
      match left.find? fun entry => (entry.asksAt argIndex).any (satisfies argIndex) with
      | none => .error (.argumentType argIndex context)
      | some first =>
          eliminate context satisfies remaining (argIndex + 1)
            (left.filter fun entry => entry.asksAt argIndex = first.asksAt argIndex)

/-- The places of the prototypes that a call leaves over. -/
def elimination (protos : List Prototype) (context : String) (argCount : Nat)
    (satisfies : Nat → TypeKey → Bool) : Except Rejection (List Nat) :=
  match protos.zipIdx.filter fun entry => entry.1.arity = argCount with
  | [] => .error (.argumentCount context)
  | left => (eliminate context satisfies argCount 0 left).map (·.map (·.2))

/-- In lists that correspond item by item, corresponding items match first. -/
theorem find?_forall₂ {α β : Type} {R : α → β → Prop} {test : α → Bool} {test' : β → Bool}
    (agree : ∀ first second, R first second → test first = test' second)
    {items : List α} {others : List β} (related : List.Forall₂ R items others) :
    Option.Rel R (items.find? test) (others.find? test') := by
  induction related with
  | nil => exact .none
  | @cons item other items others pair _ ih =>
      rw [List.find?_cons, List.find?_cons, agree item other pair]
      cases test' other with
      | true => exact .some pair
      | false => exact ih

/-- A check follows the first branch whose type is satisfied. -/
theorem resolveBranches_eq (context : String) (satisfies : Nat → TypeKey → Bool)
    (argIndex : Nat) (branches : List (TypeKey × Node)) :
    resolveBranches context satisfies argIndex branches =
      match branches.find? fun branch => satisfies argIndex branch.1 with
      | some branch => branch.2.resolve context satisfies
      | none => .error (.argumentType argIndex context) := by
  induction branches with
  | nil => rw [resolveBranches, List.find?_nil]
  | cons branch branches ih =>
      rcases branch with ⟨key, node⟩
      rw [resolveBranches, List.find?_cons]
      cases satisfies argIndex key with
      | true => rfl
      | false => exact ih

/-- Of results that belong to groups, the first whose label passes a test belongs to the
group of the first item whose key does. -/
theorem find?_built {α β κ : Type} [DecidableEq κ] {key : α → κ} {R : κ × List α → β → Prop}
    {label : β → κ} (labelled : ∀ group result, R group result → label result = group.1)
    {items : List α} {results : List β} (built : List.Forall₂ R (groupBy key items) results)
    (test : κ → Bool) :
    Option.Rel (fun item => R (key item, items.filter fun other => key other = key item))
      (items.find? fun item => test (key item))
      (results.find? fun result => test (label result)) := by
  have found : Option.Rel R _ (results.find? fun result => test (label result)) :=
    find?_forall₂ (fun group result pair => by rw [labelled group result pair]) built
  rw [find?_groupBy key test] at found
  generalize results.find? (fun result => test (label result)) = taken at found ⊢
  cases first : items.find? fun item => test (key item) with
  | none =>
      rw [first] at found
      cases found
      exact .none
  | some item =>
      rw [first] at found
      cases found with
      | some pair => exact .some pair

section Decision

variable {context : String} {satisfies : Nat → TypeKey → Bool} {remaining argIndex : Nat}
  {candidates : List Candidate} {node : Node}

/-- A check goes on among the candidates that ask for the same type as the first one
whose type is satisfied. -/
theorem resolve_of_find?_eq_some
    (built : Node.ofCandidates context (remaining + 1) argIndex candidates = .ok node)
    {first : Candidate}
    (found : candidates.find? (fun candidate =>
      satisfies argIndex (candidate.converterAt argIndex)) = some first) :
    ∃ next, Node.ofCandidates context remaining (argIndex + 1) (candidates.filter
        fun candidate => candidate.converterAt argIndex = first.converterAt argIndex) = .ok next ∧
      node.resolve context satisfies = next.resolve context satisfies := by
  obtain ⟨branches, rfl, branchesBuilt⟩ := ofCandidates_succ_eq_ok_iff.mp built
  have taken := find?_built (fun _ _ pair => pair.1) branchesBuilt (satisfies argIndex)
  rw [found] at taken
  rw [Node.resolve, resolveBranches_eq]
  generalize branches.find? (fun branch => satisfies argIndex branch.1) = branch at taken ⊢
  cases taken with
  | @some _ branch pair => exact ⟨branch.2, pair.2, rfl⟩

/-- A check turns a call down if no candidate's type is satisfied. -/
theorem resolve_of_find?_eq_none
    (built : Node.ofCandidates context (remaining + 1) argIndex candidates = .ok node)
    (found : candidates.find? (fun candidate =>
      satisfies argIndex (candidate.converterAt argIndex)) = none) :
    node.resolve context satisfies = .error (.argumentType argIndex context) := by
  obtain ⟨branches, rfl, branchesBuilt⟩ := ofCandidates_succ_eq_ok_iff.mp built
  have taken := find?_built (fun _ _ pair => pair.1) branchesBuilt (satisfies argIndex)
  rw [found] at taken
  rw [Node.resolve, resolveBranches_eq]
  generalize branches.find? (fun branch => satisfies argIndex branch.1) = branch at taken ⊢
  cases taken
  rfl

end Decision

/-- The candidate that building makes of a declared prototype. -/
def Declared.candidate (declared : Declared) : Candidate :=
  ⟨declared.2, declared.1.converters⟩

@[simp]
theorem arity_candidate (declared : Declared) : declared.candidate.arity = declared.1.arity :=
  declared.1.length_converters

theorem asksAt_eq_converterAt {declared : Declared} {argIndex : Nat}
    (takes : argIndex < declared.1.arity) :
    declared.asksAt argIndex = some (declared.candidate.converterAt argIndex) := by
  have inside : argIndex < declared.candidate.arity := by
    rwa [arity_candidate]
  exact getElem?_converters inside

/-- Among prototypes that take the argument, the first that asks for a satisfied
type is the same whether the type is taken from the prototype or its candidate. -/
theorem find?_asksAt_eq {declared : List Declared} {argIndex : Nat}
    (takes : ∀ entry ∈ declared, argIndex < entry.1.arity) (test : TypeKey → Bool) :
    (declared.find? fun entry => (entry.asksAt argIndex).any test) =
      declared.find? fun entry => test (entry.candidate.converterAt argIndex) := by
  apply List.find?_congr
  intro entry member
  rw [asksAt_eq_converterAt (takes entry member)]
  rfl

/-- The candidates of the prototypes that ask for one type at an argument. -/
theorem filter_converterAt_map_candidate {declared : List Declared} {argIndex : Nat}
    (takes : ∀ entry ∈ declared, argIndex < entry.1.arity) {first : Declared}
    (firstTakes : argIndex < first.1.arity) :
    ((declared.map Declared.candidate).filter fun candidate =>
        candidate.converterAt argIndex = first.candidate.converterAt argIndex) =
      (declared.filter fun entry =>
        entry.asksAt argIndex = first.asksAt argIndex).map Declared.candidate := by
  rw [List.filter_map]
  congr 1
  apply List.filter_congr
  intro entry member
  rw [asksAt_eq_converterAt (takes entry member), asksAt_eq_converterAt firstTakes]
  simp

/-- A node decides among prototypes as elimination by the arguments left does. -/
theorem resolve_ofCandidates (satisfies : Nat → TypeKey → Bool) {context : String}
    {remaining argIndex : Nat} {declared : List Declared} {node : Node}
    (takes : ∀ entry ∈ declared, entry.1.arity = argIndex + remaining)
    (built : Node.ofCandidates context remaining argIndex (declared.map Declared.candidate) =
      .ok node) :
    (node.resolve context satisfies).map ([·]) =
      (eliminate context satisfies remaining argIndex declared).map (·.map (·.2)) := by
  induction remaining generalizing argIndex declared node with
  | zero =>
      obtain ⟨candidate, single, rfl⟩ := ofCandidates_zero_eq_ok_iff.mp built
      obtain ⟨entry, rfl, rfl⟩ := List.map_eq_singleton_iff.mp single
      rw [Node.resolve]
      rfl
  | succ remaining ih =>
      have takesNext : ∀ entry ∈ declared, argIndex < entry.1.arity := by
        intro entry member
        have := takes entry member
        omega
      -- The prototype that decides is found together with its candidate.
      have candidates_find? : (declared.map Declared.candidate).find? (fun candidate =>
          satisfies argIndex (candidate.converterAt argIndex)) =
            (declared.find? fun entry =>
              satisfies argIndex (entry.candidate.converterAt argIndex)).map Declared.candidate := by
        rw [List.find?_map]
        rfl
      rw [eliminate, find?_asksAt_eq takesNext]
      cases deciding : declared.find? fun entry =>
          satisfies argIndex (entry.candidate.converterAt argIndex) with
      | none =>
          rw [deciding] at candidates_find?
          rw [resolve_of_find?_eq_none built candidates_find?]
          rfl
      | some first =>
          rw [deciding] at candidates_find?
          obtain ⟨next, nextBuilt, same⟩ := resolve_of_find?_eq_some built candidates_find?
          have firstTakes := takesNext first (List.mem_of_find?_eq_some deciding)
          rw [filter_converterAt_map_candidate takesNext firstTakes] at nextBuilt
          rw [same]
          apply ih _ nextBuilt
          intro entry member
          have := takes entry (List.mem_of_mem_filter member)
          omega

/-- The candidates that take a number of arguments. -/
theorem filter_arity_ofPrototypes (protos : List Prototype) (argCount : Nat) :
    ((Candidate.ofPrototypes protos).filter fun candidate => candidate.arity = argCount) =
      (protos.zipIdx.filter fun entry => entry.1.arity = argCount).map Declared.candidate := by
  change List.filter _ (protos.zipIdx.map Declared.candidate) = _
  rw [List.filter_map]
  congr 1
  apply List.filter_congr
  intro entry _
  simp

/-- The tree of an overload set decides every call as elimination on the list of
prototypes does, and there the prototype chosen is the only one left. -/
theorem resolve_ofPrototypes_eq_elimination {protos : List Prototype} {context : String}
    {tree : Tree} (built : Tree.ofPrototypes protos context = .ok tree) (argCount : Nat)
    (satisfies : Nat → TypeKey → Bool) :
    (tree.resolve argCount satisfies).map ([·]) =
      elimination protos context argCount satisfies := by
  obtain ⟨-, sameContext, armsBuilt⟩ := ofPrototypes_eq_ok_iff.mp built
  -- The arm taken and the prototypes of the number of arguments are found together.
  have found : Option.Rel _ _ (tree.arms.find? fun arm => arm.argCount = argCount) :=
    find?_forall₂ (fun group arm pair => by rw [pair.1]) armsBuilt
  rw [find?_groupBy _ (fun count => decide (count = argCount)), ← List.head?_filter,
    filter_arity_ofPrototypes, List.head?_map] at found
  rw [Tree.resolve, elimination]
  generalize tree.arms.find? (fun arm => arm.argCount = argCount) = taken at found ⊢
  cases left : protos.zipIdx.filter fun entry => entry.1.arity = argCount with
  | nil =>
      rw [left] at found
      cases found
      rw [sameContext]
      rfl
  | cons first rest =>
      have takes : ∀ entry ∈ first :: rest, entry.1.arity = 0 + argCount := by
        intro entry member
        rw [← left] at member
        simpa using List.of_mem_filter member
      have firstTakes : (Declared.candidate first).arity = argCount := by
        simpa using takes first List.mem_cons_self
      rw [left] at found
      cases found with
      | some pair =>
          have rootBuilt := pair.2
          simp only [firstTakes, filter_arity_ofPrototypes, left] at rootBuilt
          rw [sameContext]
          exact resolve_ofCandidates satisfies takes rootBuilt

/-- Two of these prototypes agree on their first argument, and a call may satisfy
the types of all of them: the one declared first is chosen. -/
theorem elimination_overlapping :
    let argument (word : UInt64) : Argument := ⟨default, ⟨word⟩⟩
    let protos : List Prototype :=
      [⟨default, [argument 1, argument 2]⟩, ⟨default, [argument 3]⟩,
        ⟨default, [argument 1, argument 1]⟩]
    ∃ tree, Tree.ofPrototypes protos "function f" = .ok tree ∧
      (tree.resolve 2 fun _ _ => true).map ([·]) =
        elimination protos "function f" 2 (fun _ _ => true) ∧
      elimination protos "function f" 2 (fun _ _ => true) = .ok [0] ∧
      (tree.resolve 2 fun argIndex key => argIndex = 0 ∨ key = ⟨1⟩).map ([·]) =
        elimination protos "function f" 2 (fun argIndex key => argIndex = 0 ∨ key = ⟨1⟩) ∧
      elimination protos "function f" 2 (fun argIndex key => argIndex = 0 ∨ key = ⟨1⟩) =
        .ok [2] :=
  ⟨_, rfl, resolve_ofPrototypes_eq_elimination rfl _ _, rfl,
    resolve_ofPrototypes_eq_elimination rfl _ _, rfl⟩

end Bindery.Dispatch
