import Bindery.Proofs.Dispatch.Acceptance
import Bindery.Proofs.Dispatch.Elimination
import Mathlib.Data.List.FinRange

/-!
# Which prototype a call selects

The tree of an overload set never goes back on a branch, so a prototype that fits a
call can be missed.  What it selects always fits.  As long as no argument satisfies
two of the types asked for at its place, nothing that fits is missed either, and the
order of declaration plays no part.  Prototypes declared later never take a call away
from those declared before.
-/

namespace Bindery

/-- A prototype takes the number of arguments of a call, and every argument satisfies
the type asked for at its place. -/
def Prototype.Fits (argCount : Nat) (satisfies : Nat → TypeKey → Bool) (proto : Prototype) : Prop :=
  proto.arity = argCount ∧
    ∀ entry ∈ proto.converters.zipIdx, satisfies entry.2 entry.1 = true

instance (argCount : Nat) (satisfies : Nat → TypeKey → Bool) (proto : Prototype) :
    Decidable (proto.Fits argCount satisfies) :=
  inferInstanceAs (Decidable (_ ∧ _))

namespace Dispatch

/-- The types that the prototypes of a number of arguments ask for at one of them. -/
def askedAt (protos : List Prototype) (argCount argIndex : Nat) : List TypeKey :=
  (protos.filter fun proto => proto.arity = argCount).filterMap (·.converters[argIndex]?)

/-- Every argument of a call satisfies at most one of the types asked for at its
place. -/
def Exclusive (protos : List Prototype) (argCount : Nat) (satisfies : Nat → TypeKey → Bool) :
    Prop :=
  ∀ argIndex < argCount, ∀ first ∈ askedAt protos argCount argIndex,
    ∀ second ∈ askedAt protos argCount argIndex,
      satisfies argIndex first = true → satisfies argIndex second = true → first = second

instance (protos : List Prototype) (argCount : Nat) (satisfies : Nat → TypeKey → Bool) :
    Decidable (Exclusive protos argCount satisfies) :=
  inferInstanceAs (Decidable (∀ argIndex < argCount, _))

section Nodes

variable {context : String} {satisfies : Nat → TypeKey → Bool} {remaining argIndex : Nat}
  {candidates : List Candidate} {node : Node}

/-- The arguments from `argIndex` on satisfy the types that a candidate asks for. -/
def Candidate.FitsFrom (satisfies : Nat → TypeKey → Bool) (argIndex : Nat)
    (candidate : Candidate) : Prop :=
  ∀ place, argIndex ≤ place → place < candidate.arity →
    satisfies place (candidate.converterAt place) = true

theorem arity_of_mem_filter
    (takes : ∀ candidate ∈ candidates, candidate.arity = argIndex + (remaining + 1))
    {test : Candidate → Bool} :
    ∀ candidate ∈ candidates.filter test, candidate.arity = argIndex + 1 + remaining := by
  intro candidate member
  have := takes candidate (List.mem_of_mem_filter member)
  omega

/-- What a check selects is selected among the candidates that ask for the same type as
the first one whose type is satisfied. -/
theorem exists_next_of_resolve
    (built : Node.ofCandidates context (remaining + 1) argIndex candidates = .ok node) {proto : Nat}
    (selected : node.resolve context satisfies = .ok proto) :
    ∃ first next,
      candidates.find? (fun candidate =>
        satisfies argIndex (candidate.converterAt argIndex)) = some first ∧
      Node.ofCandidates context remaining (argIndex + 1) (candidates.filter
        fun candidate => candidate.converterAt argIndex = first.converterAt argIndex) = .ok next ∧
      next.resolve context satisfies = .ok proto := by
  cases found : candidates.find? fun candidate =>
      satisfies argIndex (candidate.converterAt argIndex) with
  | none =>
      rw [resolve_of_find?_eq_none built found] at selected
      cases selected
  | some first =>
      rcases resolve_of_find?_eq_some built found with ⟨next, nextBuilt, same⟩
      rw [same] at selected
      exact ⟨first, next, rfl, nextBuilt, selected⟩

/-- What a node selects is a candidate that fits. -/
theorem exists_fitting_of_resolve
    (takes : ∀ candidate ∈ candidates, candidate.arity = argIndex + remaining)
    (built : Node.ofCandidates context remaining argIndex candidates = .ok node) {proto : Nat}
    (selected : node.resolve context satisfies = .ok proto) :
    ∃ candidate ∈ candidates, candidate.index = proto ∧ candidate.FitsFrom satisfies argIndex := by
  induction remaining generalizing argIndex candidates node with
  | zero =>
      rcases ofCandidates_zero_eq_ok_iff.mp built with ⟨candidate, rfl, rfl⟩
      rw [Node.resolve, Except.ok.injEq] at selected
      refine ⟨candidate, List.mem_cons_self, selected, ?_⟩
      intro place behind inside
      have := takes candidate List.mem_cons_self
      omega
  | succ remaining ih =>
      rcases exists_next_of_resolve built selected with ⟨first, next, found, nextBuilt, selected⟩
      rcases ih (arity_of_mem_filter takes) nextBuilt selected with
        ⟨candidate, member, sameIndex, fits⟩
      rcases List.mem_filter.mp member with ⟨listed, sameType⟩
      refine ⟨candidate, listed, sameIndex, ?_⟩
      intro place behind inside
      rcases Nat.eq_or_lt_of_le behind with rfl | behind
      · rw [of_decide_eq_true sameType]
        simpa using List.find?_some found
      · exact fits place behind inside

/-- A node selects a candidate that fits, if no argument satisfies the types of two. -/
theorem resolve_of_fitsFrom
    (takes : ∀ candidate ∈ candidates, candidate.arity = argIndex + remaining)
    (exclusive : ∀ place, ∀ first ∈ candidates, ∀ second ∈ candidates,
      satisfies place (first.converterAt place) = true →
        satisfies place (second.converterAt place) = true →
          first.converterAt place = second.converterAt place)
    (built : Node.ofCandidates context remaining argIndex candidates = .ok node)
    {candidate : Candidate} (listed : candidate ∈ candidates)
    (fits : candidate.FitsFrom satisfies argIndex) :
    node.resolve context satisfies = .ok candidate.index := by
  induction remaining generalizing argIndex candidates node with
  | zero =>
      rcases ofCandidates_zero_eq_ok_iff.mp built with ⟨only, rfl, rfl⟩
      rw [List.mem_singleton.mp listed, Node.resolve]
  | succ remaining ih =>
      have passes : satisfies argIndex (candidate.converterAt argIndex) = true := by
        apply fits argIndex (Nat.le_refl argIndex)
        have := takes candidate listed
        omega
      cases found : candidates.find? fun candidate =>
          satisfies argIndex (candidate.converterAt argIndex) with
      | none => exact absurd passes (List.find?_eq_none.mp found candidate listed)
      | some first =>
          rcases resolve_of_find?_eq_some built found with ⟨next, nextBuilt, same⟩
          -- The branch taken is that of the candidate: no other type is satisfied.
          have firstPasses : satisfies argIndex (first.converterAt argIndex) = true := by
            simpa using List.find?_some found
          have sameType := exclusive argIndex candidate listed first
            (List.mem_of_find?_eq_some found) passes firstPasses
          rw [same]
          apply ih _ _ nextBuilt
          · exact List.mem_filter.mpr ⟨listed, decide_eq_true sameType⟩
          · exact fun place behind inside => fits place (Nat.le_of_succ_le behind) inside
          · exact arity_of_mem_filter takes
          · exact fun place other member another anotherMember =>
              exclusive place other (List.mem_of_mem_filter member) another
                (List.mem_of_mem_filter anotherMember)

/-- Candidates that are declared later leave a selection as it is. -/
theorem resolve_append {extendedContext : String} {later : List Candidate} {extended : Node}
    (built : Node.ofCandidates context remaining argIndex candidates = .ok node)
    (extendedBuilt : Node.ofCandidates extendedContext remaining argIndex (candidates ++ later) =
      .ok extended)
    {proto : Nat} (selected : node.resolve context satisfies = .ok proto) :
    extended.resolve extendedContext satisfies = .ok proto := by
  induction remaining generalizing argIndex candidates later node extended with
  | zero =>
      rcases ofCandidates_zero_eq_ok_iff.mp built with ⟨candidate, rfl, rfl⟩
      rcases ofCandidates_zero_eq_ok_iff.mp extendedBuilt with ⟨other, single, rfl⟩
      rcases List.cons.inj single with ⟨rfl, -⟩
      rw [Node.resolve] at selected ⊢
      exact selected
  | succ remaining ih =>
      rcases exists_next_of_resolve built selected with ⟨first, next, found, nextBuilt, selected⟩
      have stillFound : (candidates ++ later).find? (fun candidate =>
          satisfies argIndex (candidate.converterAt argIndex)) = some first := by
        rw [List.find?_append, found, Option.some_or]
      rcases resolve_of_find?_eq_some extendedBuilt stillFound with
        ⟨extendedNext, extendedNextBuilt, same⟩
      rw [List.filter_append] at extendedNextBuilt
      rw [same]
      exact ih nextBuilt extendedNextBuilt selected

end Nodes

/-! ## Trees -/

/-- The candidates that take a number of arguments. -/
def takers (protos : List Prototype) (argCount : Nat) : List Candidate :=
  (Candidate.ofPrototypes protos).filter fun candidate => candidate.arity = argCount

theorem mem_takers_iff {protos : List Prototype} {argCount : Nat} {candidate : Candidate} :
    candidate ∈ takers protos argCount ↔
      ∃ proto, protos[candidate.index]? = some proto ∧ proto.arity = argCount ∧
        candidate.converters = proto.converters := by
  simp only [takers, Candidate.ofPrototypes, List.mem_filter, List.mem_map, decide_eq_true_eq]
  constructor
  · rintro ⟨⟨⟨proto, index⟩, member, rfl⟩, takes⟩
    exact ⟨proto, List.mem_zipIdx_iff_getElem?.mp member,
      proto.length_converters.symm.trans takes, rfl⟩
  · rintro ⟨proto, stands, takes, same⟩
    refine ⟨⟨(proto, candidate.index), List.mem_zipIdx_iff_getElem?.mpr stands, ?_⟩, ?_⟩
    · rw [← same]
    · rw [Candidate.arity, same, proto.length_converters, takes]

theorem arity_of_mem_takers {protos : List Prototype} {argCount : Nat} {candidate : Candidate}
    (member : candidate ∈ takers protos argCount) : candidate.arity = 0 + argCount := by
  rcases mem_takers_iff.mp member with ⟨proto, -, takes, same⟩
  rw [Candidate.arity, same, proto.length_converters, takes, Nat.zero_add]

theorem converterAt_eq_empty {candidate : Candidate} {place : Nat}
    (outside : candidate.arity ≤ place) : candidate.converterAt place = .empty := by
  rw [Candidate.converterAt, List.getD_eq_getElem?_getD, List.getElem?_eq_none outside,
    Option.getD_none]

theorem fitsFrom_zero_iff {satisfies : Nat → TypeKey → Bool} {candidate : Candidate} :
    candidate.FitsFrom satisfies 0 ↔
      ∀ entry ∈ candidate.converters.zipIdx, satisfies entry.2 entry.1 = true := by
  constructor
  · rintro fits ⟨key, place⟩ member
    have asked := List.mem_zipIdx_iff_getElem?.mp member
    have inside : place < candidate.arity := (List.getElem?_eq_some_iff.mp asked).1
    have passes := fits place (Nat.zero_le place) inside
    rwa [converterAt_eq_of_getElem? asked] at passes
  · intro fits place _ inside
    exact fits (_, place) (List.mem_zipIdx_iff_getElem?.mpr (getElem?_converters inside))

section Trees

variable {protos : List Prototype} {context : String} {tree : Tree} {argCount : Nat}
  {satisfies : Nat → TypeKey → Bool}

/-- The arm of a number of arguments decides among the candidates that take as many. -/
theorem resolve_of_mem_takers (built : Tree.ofPrototypes protos context = .ok tree)
    {candidate : Candidate} (member : candidate ∈ takers protos argCount) :
    ∃ root, Node.ofCandidates context argCount 0 (takers protos argCount) = .ok root ∧
      tree.resolve argCount satisfies = root.resolve context satisfies := by
  rcases ofPrototypes_eq_ok_iff.mp built with ⟨-, rfl, armsBuilt⟩
  have taken := find?_built (fun _ _ pair => pair.1) armsBuilt fun count =>
    decide (count = argCount)
  rw [← List.head?_filter, ← takers] at taken
  rw [Tree.resolve]
  generalize tree.arms.find? (fun arm => decide (arm.argCount = argCount)) = arm at taken ⊢
  cases split : takers protos argCount with
  | nil =>
      rw [split] at member
      cases member
  | cons first rest =>
      have firstTakes : first.arity = argCount := by
        simpa using arity_of_mem_takers (split ▸ List.mem_cons_self)
      rw [split, List.head?_cons] at taken
      cases taken with
      | @some _ arm pair =>
          rw [firstTakes, ← takers, split] at pair
          exact ⟨arm.root, pair.2, rfl⟩

/-- A call is turned down unless some candidate takes its number of arguments. -/
theorem exists_mem_takers_of_resolve (built : Tree.ofPrototypes protos context = .ok tree)
    {place : Nat} (selected : tree.resolve argCount satisfies = .ok place) :
    ∃ candidate, candidate ∈ takers protos argCount := by
  rw [Tree.resolve] at selected
  split at selected
  · next arm found =>
      rcases ofPrototypes_eq_ok_iff.mp built with ⟨-, -, armsBuilt⟩
      rcases Outcome.exists_of_mem_right armsBuilt (List.mem_of_find?_eq_some found) with
        ⟨group, member, sameCount, -⟩
      rcases ((mem_groupBy_iff _ _ _).mp member).1 with ⟨candidate, listed, takes⟩
      have asked : arm.argCount = argCount := by simpa using List.find?_some found
      refine ⟨candidate, List.mem_filter.mpr ⟨listed, decide_eq_true ?_⟩⟩
      rw [takes, ← sameCount, asked]
  · cases selected

/-- What is selected fits the call. -/
theorem exists_fits_of_resolve (built : Tree.ofPrototypes protos context = .ok tree) {place : Nat}
    (selected : tree.resolve argCount satisfies = .ok place) :
    ∃ proto, protos[place]? = some proto ∧ proto.Fits argCount satisfies := by
  rcases exists_mem_takers_of_resolve built selected with ⟨taker, takerMember⟩
  rcases resolve_of_mem_takers built takerMember with ⟨root, rootBuilt, same⟩
  rw [same] at selected
  rcases exists_fitting_of_resolve (fun _ => arity_of_mem_takers) rootBuilt selected with
    ⟨candidate, member, rfl, fits⟩
  rcases mem_takers_iff.mp member with ⟨proto, stands, takes, sameTypes⟩
  refine ⟨proto, stands, takes, ?_⟩
  rw [← sameTypes]
  exact fitsFrom_zero_iff.mp fits

theorem converterAt_mem_askedAt {candidate : Candidate}
    (member : candidate ∈ takers protos argCount) {place : Nat} (inside : place < argCount) :
    candidate.converterAt place ∈ askedAt protos argCount place := by
  have arity := arity_of_mem_takers member
  rcases mem_takers_iff.mp member with ⟨proto, stands, takes, sameTypes⟩
  have listed : proto ∈ protos.filter fun proto => proto.arity = argCount :=
    List.mem_filter.mpr ⟨List.mem_of_getElem? stands, decide_eq_true takes⟩
  refine List.mem_filterMap.mpr ⟨proto, listed, ?_⟩
  rw [← sameTypes]
  exact getElem?_converters (by omega)

/-- Exclusive checks tell the candidates of a number of arguments apart. -/
theorem Exclusive.converterAt_eq (exclusive : Exclusive protos argCount satisfies) (place : Nat)
    {first second : Candidate} (firstMember : first ∈ takers protos argCount)
    (secondMember : second ∈ takers protos argCount)
    (firstPasses : satisfies place (first.converterAt place) = true)
    (secondPasses : satisfies place (second.converterAt place) = true) :
    first.converterAt place = second.converterAt place := by
  by_cases inside : place < argCount
  · exact exclusive place inside _ (converterAt_mem_askedAt firstMember inside) _
      (converterAt_mem_askedAt secondMember inside) firstPasses secondPasses
  · have firstArity := arity_of_mem_takers firstMember
    have secondArity := arity_of_mem_takers secondMember
    rw [converterAt_eq_empty (by omega), converterAt_eq_empty (by omega)]

/-- Under exclusive checks a prototype is selected exactly if it fits. -/
theorem resolve_eq_ok_iff_fits (built : Tree.ofPrototypes protos context = .ok tree)
    (exclusive : Exclusive protos argCount satisfies) {place : Nat} :
    tree.resolve argCount satisfies = .ok place ↔
      ∃ proto, protos[place]? = some proto ∧ proto.Fits argCount satisfies := by
  refine ⟨exists_fits_of_resolve built, ?_⟩
  rintro ⟨proto, stands, takes, fits⟩
  have member : ⟨place, proto.converters⟩ ∈ takers protos argCount :=
    mem_takers_iff.mpr ⟨proto, stands, takes, rfl⟩
  rcases resolve_of_mem_takers built member with ⟨root, rootBuilt, same⟩
  rw [same]
  exact resolve_of_fitsFrom (fun _ => arity_of_mem_takers)
    (fun position _ firstMember _ secondMember =>
      exclusive.converterAt_eq position firstMember secondMember)
    rootBuilt member (fitsFrom_zero_iff.mpr fits)

/-- Every prototype is selected by some call whose arguments satisfy one type each. -/
theorem exists_exclusive_selecting (built : Tree.ofPrototypes protos context = .ok tree)
    {place : Nat} {proto : Prototype} (stands : protos[place]? = some proto) :
    ∃ satisfies, Exclusive protos proto.arity satisfies ∧
      tree.resolve proto.arity satisfies = .ok place := by
  -- A call whose arguments are of just the types that the prototype asks for.
  let exactly (argIndex : Nat) (key : TypeKey) : Bool := proto.converters[argIndex]? = some key
  have exclusive : Exclusive protos proto.arity exactly := by
    intro argIndex _ first _ second _ firstAsked secondAsked
    exact Option.some.inj
      ((of_decide_eq_true firstAsked).symm.trans (of_decide_eq_true secondAsked))
  refine ⟨exactly, exclusive, (resolve_eq_ok_iff_fits built exclusive).mpr ⟨proto, stands, rfl, ?_⟩⟩
  intro entry member
  exact decide_eq_true (List.mem_zipIdx_iff_getElem?.mp member)

end Trees

/-! ## Order of declaration -/

/-- The prototypes in another order: the one that stood at `rename place` comes to stand
at `place`. -/
def rearrange (protos : List Prototype) (rename : Equiv.Perm (Fin protos.length)) :
    List Prototype :=
  List.ofFn fun place => protos.get (rename place)

section Order

variable {protos : List Prototype} {argCount : Nat} {satisfies : Nat → TypeKey → Bool}

theorem rearrange_perm (rename : Equiv.Perm (Fin protos.length)) :
    (rearrange protos rename).Perm protos := by
  have moved := rename.ofFn_comp_perm protos.get
  rwa [List.ofFn_get] at moved

theorem getElem?_rearrange (rename : Equiv.Perm (Fin protos.length))
    (place : Fin protos.length) :
    (rearrange protos rename)[place.val]? = protos[(rename place).val]? := by
  rw [rearrange, List.getElem?_ofFn, dif_pos place.isLt,
    List.getElem?_eq_getElem (rename place).isLt]
  rfl

theorem Exclusive.of_perm {others : List Prototype} (same : others.Perm protos)
    (exclusive : Exclusive protos argCount satisfies) : Exclusive others argCount satisfies := by
  have asked (argIndex : Nat) :
      (askedAt others argCount argIndex).Perm (askedAt protos argCount argIndex) :=
    (same.filter _).filterMap _
  intro argIndex inside first firstAsked second secondAsked
  exact exclusive argIndex inside first ((asked argIndex).mem_iff.mp firstAsked) second
    ((asked argIndex).mem_iff.mp secondAsked)

/-- A set that comes to a tree does so in any order. -/
theorem exists_tree_of_perm {others : List Prototype} (same : others.Perm protos)
    {context : String} {tree : Tree} (built : Tree.ofPrototypes protos context = .ok tree)
    (otherContext : String) : ∃ other, Tree.ofPrototypes others otherContext = .ok other := by
  rcases exists_tree_iff.mp ⟨tree, built⟩ with ⟨some, distinct⟩
  refine exists_tree_iff.mpr ⟨?_, (same.map _).nodup_iff.mpr distinct⟩
  rintro rfl
  exact some same.nil_eq.symm

/-- Under exclusive checks the same prototype is selected in any order, or none is. -/
theorem resolve_rearrange {context otherContext : String} {tree rearranged : Tree}
    (built : Tree.ofPrototypes protos context = .ok tree)
    (rename : Equiv.Perm (Fin protos.length))
    (rearrangedBuilt : Tree.ofPrototypes (rearrange protos rename) otherContext = .ok rearranged)
    (exclusive : Exclusive protos argCount satisfies) :
    (∃ place : Fin protos.length, rearranged.resolve argCount satisfies = .ok place.val ∧
        tree.resolve argCount satisfies = .ok (rename place).val) ∨
      ∃ rejection otherRejection, tree.resolve argCount satisfies = .error rejection ∧
        rearranged.resolve argCount satisfies = .error otherRejection := by
  -- A prototype is selected in one order exactly if it is in the other.
  have same (place : Fin protos.length) : rearranged.resolve argCount satisfies = .ok place.val ↔
      tree.resolve argCount satisfies = .ok (rename place).val := by
    rw [resolve_eq_ok_iff_fits built exclusive,
      resolve_eq_ok_iff_fits rearrangedBuilt (exclusive.of_perm (rearrange_perm rename)),
      getElem?_rearrange]
  cases selection : rearranged.resolve argCount satisfies with
  | ok place =>
      rcases exists_fits_of_resolve rearrangedBuilt selection with ⟨proto, stands, -⟩
      have inside : place < protos.length := by
        rw [← (rearrange_perm rename).length_eq]
        exact (List.getElem?_eq_some_iff.mp stands).1
      exact .inl ⟨⟨place, inside⟩, rfl, (same ⟨place, inside⟩).mp selection⟩
  | error otherRejection =>
      cases outcome : tree.resolve argCount satisfies with
      | ok place =>
          rcases exists_fits_of_resolve built outcome with ⟨proto, stands, -⟩
          have inside : place < protos.length := (List.getElem?_eq_some_iff.mp stands).1
          have selected := (same (rename.symm ⟨place, inside⟩)).mpr (by simpa using outcome)
          rw [selection] at selected
          cases selected
      | error rejection => exact .inr ⟨rejection, otherRejection, rfl, rfl⟩

end Order

/-- The tree of an overload set selects only prototypes that fit.  Under exclusive checks
it selects whatever fits, so that every prototype is selected by some call, and in any
other order of declaration the same prototype is selected or none is. -/
theorem resolve_selects_fitting {protos : List Prototype} {context : String} {tree : Tree}
    (built : Tree.ofPrototypes protos context = .ok tree) :
    (∀ argCount satisfies place, tree.resolve argCount satisfies = .ok place →
        ∃ proto, protos[place]? = some proto ∧ proto.Fits argCount satisfies) ∧
      (∀ argCount satisfies, Exclusive protos argCount satisfies →
        ∀ place, tree.resolve argCount satisfies = .ok place ↔
          ∃ proto, protos[place]? = some proto ∧ proto.Fits argCount satisfies) ∧
      (∀ place proto, protos[place]? = some proto →
        ∃ satisfies, Exclusive protos proto.arity satisfies ∧
          tree.resolve proto.arity satisfies = .ok place) ∧
      ∀ (rename : Equiv.Perm (Fin protos.length)) (otherContext : String),
        ∃ rearranged, Tree.ofPrototypes (rearrange protos rename) otherContext = .ok rearranged ∧
          ∀ argCount satisfies, Exclusive protos argCount satisfies →
            (∃ place : Fin protos.length, rearranged.resolve argCount satisfies = .ok place.val ∧
                tree.resolve argCount satisfies = .ok (rename place).val) ∨
              ∃ rejection otherRejection, tree.resolve argCount satisfies = .error rejection ∧
                rearranged.resolve argCount satisfies = .error otherRejection := by
  refine ⟨fun _ _ _ => exists_fits_of_resolve built,
    fun _ _ exclusive _ => resolve_eq_ok_iff_fits built exclusive,
    fun _ _ => exists_exclusive_selecting built, ?_⟩
  intro rename otherContext
  rcases exists_tree_of_perm (rearrange_perm rename) built otherContext with
    ⟨rearranged, rearrangedBuilt⟩
  exact ⟨rearranged, rearrangedBuilt, fun argCount satisfies exclusive =>
    resolve_rearrange built rename rearrangedBuilt exclusive⟩

/-- Two of these prototypes fit in their first argument, and only the last of them in its
second one too.  It is selected wherever it is declared. -/
theorem resolve_selects_fitting_reversed :
    let argument (word : UInt64) : Argument := ⟨default, ⟨word⟩⟩
    let protos : List Prototype :=
      [⟨default, [argument 1, argument 2]⟩, ⟨default, [argument 3]⟩,
        ⟨default, [argument 1, argument 1]⟩]
    let satisfies (_ : Nat) (key : TypeKey) : Bool := key = ⟨1⟩
    ∃ tree rearranged, Tree.ofPrototypes protos "function f" = .ok tree ∧
      Tree.ofPrototypes (rearrange protos Fin.revPerm) "function f" = .ok rearranged ∧
      Exclusive protos 2 satisfies ∧ tree.resolve 2 satisfies = .ok 2 ∧
      rearranged.resolve 2 satisfies = .ok 0 := by
  intro argument protos satisfies
  obtain ⟨tree, built⟩ : ∃ tree, Tree.ofPrototypes protos "function f" = .ok tree :=
    exists_tree_iff.mpr ⟨by simp [protos], by decide⟩
  have exclusive : Exclusive protos 2 satisfies := by decide
  rcases resolve_selects_fitting built with ⟨-, selects, -, inAnyOrder⟩
  have selected : tree.resolve 2 satisfies = .ok 2 :=
    (selects 2 satisfies exclusive 2).mpr ⟨_, rfl, by decide⟩
  rcases inAnyOrder Fin.revPerm "function f" with ⟨rearranged, rearrangedBuilt, same⟩
  refine ⟨tree, rearranged, built, rearrangedBuilt, exclusive, selected, ?_⟩
  rcases same 2 satisfies exclusive with ⟨place, chosen, here⟩ | ⟨rejection, -, refused, -⟩
  · rw [selected, Except.ok.injEq] at here
    have first : place = ⟨0, by decide⟩ := Fin.revPerm.injective (Fin.ext here.symm)
    rw [chosen, first]
  · rw [selected] at refused
    cases refused

/-- Where checks overlap, a prototype that fits can be missed: the first argument of this
call leads to the first prototype, and its second argument then fits nothing there. -/
example :
    let argument (word : UInt64) : Argument := ⟨default, ⟨word⟩⟩
    let missed : Prototype := ⟨default, [argument 3, argument 4]⟩
    let protos : List Prototype := [⟨default, [argument 1, argument 2]⟩, missed]
    let satisfies (_ : Nat) (key : TypeKey) : Bool := key ≠ ⟨2⟩
    missed.Fits 2 satisfies ∧
      (Tree.ofPrototypes protos "function f").map (·.resolve 2 satisfies) =
        .ok (.error (.argumentType 1 "function f")) := by
  decide +kernel

/-- The candidates of a set that is declared further come behind those it had. -/
theorem takers_append (protos later : List Prototype) (argCount : Nat) :
    ∃ others, takers (protos ++ later) argCount = takers protos argCount ++ others := by
  simp only [takers, Candidate.ofPrototypes, List.zipIdx_append, List.map_append,
    List.filter_append]
  exact ⟨_, rfl⟩

/-- What a set selects it goes on to select when further prototypes are declared behind
it, whatever they ask for. -/
theorem append_keeps_selection {protos later : List Prototype} {context : String}
    {extended : Tree} (some : protos ≠ [])
    (extendedBuilt : Tree.ofPrototypes (protos ++ later) context = .ok extended)
    (ownContext : String) :
    ∃ tree, Tree.ofPrototypes protos ownContext = .ok tree ∧
      ∀ argCount satisfies place, tree.resolve argCount satisfies = .ok place →
        extended.resolve argCount satisfies = .ok place := by
  rcases exists_tree_iff.mp ⟨extended, extendedBuilt⟩ with ⟨-, distinct⟩
  rw [List.map_append] at distinct
  obtain ⟨tree, built⟩ : ∃ tree, Tree.ofPrototypes protos ownContext = .ok tree :=
    exists_tree_iff.mpr ⟨some, distinct.of_append_left⟩
  refine ⟨tree, built, ?_⟩
  intro argCount satisfies place selected
  rcases takers_append protos later argCount with ⟨others, behind⟩
  rcases exists_mem_takers_of_resolve built selected with ⟨taker, member⟩
  rcases resolve_of_mem_takers built member with ⟨root, rootBuilt, same⟩
  rcases resolve_of_mem_takers extendedBuilt (behind ▸ List.mem_append_left others member) with
    ⟨extendedRoot, extendedRootBuilt, extendedSame⟩
  rw [behind] at extendedRootBuilt
  rw [same] at selected
  rw [extendedSame]
  exact resolve_append rootBuilt extendedRootBuilt selected

/-- The arguments of this call satisfy the types of all three prototypes that take two. -/
theorem append_keeps_selection_overlapping :
    let argument (word : UInt64) : Argument := ⟨default, ⟨word⟩⟩
    let protos : List Prototype :=
      [⟨default, [argument 1, argument 2]⟩, ⟨default, [argument 3]⟩]
    let later : List Prototype :=
      [⟨default, [argument 1, argument 1]⟩, ⟨default, [argument 2, argument 2]⟩]
    ∃ tree extended, Tree.ofPrototypes protos "function f" = .ok tree ∧
      Tree.ofPrototypes (protos ++ later) "function f" = .ok extended ∧
      tree.resolve 2 (fun _ _ => true) = .ok 0 ∧ extended.resolve 2 (fun _ _ => true) = .ok 0 := by
  intro argument protos later
  obtain ⟨extended, extendedBuilt⟩ :
      ∃ extended, Tree.ofPrototypes (protos ++ later) "function f" = .ok extended :=
    exists_tree_iff.mpr ⟨by simp [protos], by decide⟩
  rcases append_keeps_selection (by simp [protos]) extendedBuilt "function f" with
    ⟨tree, built, keeps⟩
  have sameTree : Tree.ofPrototypes protos "function f" = .ok ⟨"function f",
      [⟨2, .check 0 [(⟨1⟩, .check 1 [(⟨2⟩, .call 0)])]⟩, ⟨1, .check 0 [(⟨3⟩, .call 1)]⟩]⟩ := by
    cbv
  have selected : tree.resolve 2 (fun _ _ => true) = .ok 0 := by
    rw [built, Except.ok.injEq] at sameTree
    rw [sameTree]
    rfl
  exact ⟨tree, extended, built, extendedBuilt, selected, keeps 2 _ 0 selected⟩

end Dispatch

end Bindery
