import Bindery.Indirection
import Mathlib.Data.List.Basic

/-!
# Pointer depth

The operator between two indirections is decided by the first mark at which they
differ.  Where no pointer stands behind a reference, that mark shows which of the two
has more pointers, so the operator goes in the right direction.  It goes one step, so
it arrives exactly if the depths differ by one at most.
-/

namespace Bindery

namespace Indirection

/-- The number of pointers among the marks. -/
def depth (marks : Indirection) : Nat :=
  marks.count .pointer

/-- Pointers, and references behind them. -/
def stacked (pointers references : Nat) : Indirection :=
  List.replicate pointers .pointer ++ List.replicate references .reference

/-- No pointer stands behind a reference. -/
def PointersFirst (marks : Indirection) : Prop :=
  marks.Pairwise fun first second => second = .pointer → first = .pointer

instance (marks : Indirection) : Decidable marks.PointersFirst :=
  inferInstanceAs (Decidable (List.Pairwise _ _))

@[simp]
theorem depth_nil : depth [] = 0 := rfl

@[simp]
theorem depth_pointer_cons (marks : Indirection) : depth (.pointer :: marks) = marks.depth + 1 :=
  List.count_cons_self

@[simp]
theorem depth_reference_cons (marks : Indirection) : depth (.reference :: marks) = marks.depth :=
  List.count_cons_of_ne (by decide)

theorem depth_stacked (pointers references : Nat) :
    (stacked pointers references).depth = pointers := by
  simp [depth, stacked, List.count_replicate]

theorem pointersFirst_stacked (pointers references : Nat) :
    (stacked pointers references).PointersFirst := by
  rw [PointersFirst, stacked, List.pairwise_append]
  refine ⟨?_, ?_, ?_⟩
  · exact List.pairwise_replicate.mpr (.inr fun same => same)
  · exact List.pairwise_replicate.mpr (.inr fun same => same)
  · intro first isPointer second _ _
    exact List.eq_of_mem_replicate isPointer

theorem PointersFirst.tail {mark : Mark} {marks : Indirection}
    (ordered : PointersFirst (mark :: marks)) : marks.PointersFirst :=
  (List.pairwise_cons.mp ordered).2

/-- Behind a reference there are only references. -/
theorem PointersFirst.depth_of_reference {marks : Indirection}
    (ordered : PointersFirst (.reference :: marks)) : marks.depth = 0 := by
  apply List.count_eq_zero_of_not_mem
  intro member
  cases (List.pairwise_cons.mp ordered).1 _ member rfl

end Indirection

/-- The pointer depth of an expression behind operators, given its own: `&` adds a
pointer, and `*` takes one away, which has to be there. -/
def depthBehind? : (operators : List Char) → (depth : Nat) → Option Nat
  | [], depth => some depth
  | '&' :: operators, depth => (depthBehind? operators depth).map (· + 1)
  | '*' :: operators, depth =>
      match depthBehind? operators depth with
      | some (rest + 1) => some rest
      | _ => none
  | _ :: _, _ => none

namespace Adjustment

@[simp]
theorem depthBehind?_identity (depth : Nat) :
    depthBehind? identity.operator.toList depth = some depth := rfl

@[simp]
theorem depthBehind?_addressOf (depth : Nat) :
    depthBehind? addressOf.operator.toList depth = some (depth + 1) := rfl

@[simp]
theorem depthBehind?_deref (depth : Nat) :
    depthBehind? deref.operator.toList (depth + 1) = some depth := rfl

@[simp]
theorem between_cons_self (mark : Mark) (source destination : Indirection) :
    between (mark :: source) (mark :: destination) = between source destination := by
  rw [between, if_pos rfl]

theorem between_append (common source destination : Indirection) :
    between (common ++ source) (common ++ destination) = between source destination := by
  induction common with
  | nil => rfl
  | cons mark common ih => rw [List.cons_append, List.cons_append, between_cons_self, ih]

theorem ofFirst_eq_deref_iff (first second : Option Mark) :
    ofFirst first second = .deref ↔ ofFirst second first = .addressOf := by
  rcases first with _ | _ | _ <;> rcases second with _ | _ | _ <;> decide

/-- Dereferencing one way is taking an address the other way. -/
theorem between_eq_deref_iff (source destination : Indirection) :
    between source destination = .deref ↔ between destination source = .addressOf := by
  fun_induction between source destination with
  | case1 source mark destination ih => rw [between_cons_self, ih]
  | case2 first source second destination differ =>
      rw [between, if_neg (Ne.symm differ)]
      exact ofFirst_eq_deref_iff _ _
  | case3 source destination shorter =>
      have swapped : between destination source = ofFirst destination.head? source.head? := by
        cases destination with
        | nil => cases source <;> rfl
        | cons second destination =>
            cases source with
            | nil => rfl
            | cons first source => exact absurd rfl (shorter first source second destination rfl)
      rw [swapped]
      exact ofFirst_eq_deref_iff _ _

/-- The operator that goes from one pointer depth towards another. -/
def towards (source destination : Nat) : Adjustment :=
  if source < destination then .addressOf
  else if destination < source then .deref
  else .identity

theorem towards_succ_succ (source destination : Nat) :
    towards (source + 1) (destination + 1) = towards source destination := by
  simp [towards]

theorem towards_eq_identity_iff {source destination : Nat} :
    towards source destination = .identity ↔ source = destination := by
  grind [towards]

theorem towards_eq_deref_iff {source destination : Nat} :
    towards source destination = .deref ↔ destination < source := by
  grind [towards]

theorem towards_eq_addressOf_iff {source destination : Nat} :
    towards source destination = .addressOf ↔ source < destination := by
  grind [towards]

/-- Where pointers come first, the first difference shows which side has more of them. -/
theorem between_eq_towards {source destination : Indirection} (ordered : source.PointersFirst)
    (otherOrdered : destination.PointersFirst) :
    between source destination = towards source.depth destination.depth := by
  fun_induction between source destination with
  | case1 source mark destination ih =>
      rw [ih ordered.tail otherOrdered.tail]
      cases mark with
      | reference => simp
      | pointer => simp [towards_succ_succ]
  | case2 first source second destination differ =>
      -- The side that goes on with a reference has no more pointers.
      cases first with
      | reference =>
          cases second with
          | reference => exact absurd rfl differ
          | pointer => simp [ofFirst, towards, ordered.depth_of_reference]
      | pointer =>
          cases second with
          | reference => simp [ofFirst, towards, otherOrdered.depth_of_reference]
          | pointer => exact absurd rfl differ
  | case3 source destination shorter =>
      cases source with
      | nil =>
          rcases destination with _ | ⟨_ | _, destination⟩
          · rfl
          · simp [ofFirst, towards, otherOrdered.depth_of_reference]
          · simp [ofFirst, towards]
      | cons first source =>
          cases destination with
          | cons second destination => exact absurd rfl (shorter first source second destination rfl)
          | nil =>
              cases first with
              | reference => simp [ofFirst, towards, ordered.depth_of_reference]
              | pointer => simp [ofFirst, towards]

/-- One operator makes up for a difference of one pointer. -/
theorem depthBehind?_towards_iff {source destination : Nat} :
    depthBehind? (towards source destination).operator.toList source = some destination ↔
      ((source : Int) - destination).natAbs ≤ 1 := by
  rcases Nat.lt_trichotomy source destination with less | rfl | more
  · rw [towards_eq_addressOf_iff.mpr less, depthBehind?_addressOf, Option.some.injEq]
    omega
  · rw [towards_eq_identity_iff.mpr rfl, depthBehind?_identity]
    simp
  · rcases Nat.exists_eq_succ_of_ne_zero (Nat.ne_zero_of_lt more) with ⟨rest, rfl⟩
    rw [towards_eq_deref_iff.mpr more, depthBehind?_deref, Option.some.injEq]
    omega

/-- The operator moves the pointer depth the right way.  With pointers in front of
references it keeps the depth, takes the address or dereferences as the destination has
as many pointers, more or fewer, and so the written expression has the depth of the
destination exactly if the numbers of pointers differ by one at most.  Whatever the
marks, the way back from dereferencing is taking the address, and marks that both
sides begin with do not matter. -/
theorem between_moves_depth :
    (∀ pointers references wanted others : Nat,
      let source := Indirection.stacked pointers references
      let destination := Indirection.stacked wanted others
      (between source destination = .identity ↔ pointers = wanted) ∧
      (between source destination = .deref ↔ wanted < pointers) ∧
      (between source destination = .addressOf ↔ pointers < wanted) ∧
      ∀ expression, ∃ operators, adjust expression source destination = operators ++ expression ∧
        (depthBehind? operators.toList source.depth = some destination.depth ↔
          ((pointers : Int) - wanted).natAbs ≤ 1)) ∧
    ∀ source destination : Indirection,
      (between source destination = .deref ↔ between destination source = .addressOf) ∧
      ∀ common, between (common ++ source) (common ++ destination) = between source destination := by
  constructor
  · intro pointers references wanted others source destination
    have chosen : between source destination = towards pointers wanted := by
      rw [between_eq_towards (Indirection.pointersFirst_stacked _ _)
        (Indirection.pointersFirst_stacked _ _), Indirection.depth_stacked,
        Indirection.depth_stacked]
    rw [chosen]
    refine ⟨towards_eq_identity_iff, towards_eq_deref_iff, towards_eq_addressOf_iff, ?_⟩
    intro expression
    refine ⟨(towards pointers wanted).operator, ?_, ?_⟩
    · rw [adjust, chosen, apply]
    · rw [Indirection.depth_stacked, Indirection.depth_stacked]
      exact depthBehind?_towards_iff
  · intro source destination
    exact ⟨between_eq_deref_iff source destination,
      fun common => between_append common source destination⟩

end Adjustment

end Bindery
