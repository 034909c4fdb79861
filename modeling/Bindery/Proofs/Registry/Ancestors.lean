import Bindery.Proofs.Graph.Walk
import Bindery.Proofs.Registry.History
import Mathlib.Data.List.Perm.Subperm

/-!
# Ancestors in every registry

Ancestors are defined for whatever the bases of the registered types are: they may be
repeated, run in a circle, or name keys that are not registered.  The list is always
that of a depth-first walk along the declared bases.  In a registry whose links close
no circle, a type has more ancestors than each of its bases, and no more than there
are types.
-/

namespace Bindery.Registry

variable {registry : Registry} {key base : TypeKey}

/-- The ancestors are what a depth-first walk over the direct bases meets. -/
theorem walk_ancestors (registry : Registry) (key : TypeKey) :
    Graph.Walk registry.basesOf [] (registry.basesOf key) (registry.ancestors key) := by
  have closed : ∀ node, ∀ other ∈ registry.basesOf node, other ∈ registry.handles :=
    fun _ _ link => mem_handles_of_directBase link
  apply Graph.walk_preorder closed
  · exact closed key
  · simp

theorem nodup_ancestors (registry : Registry) (key : TypeKey) : (registry.ancestors key).Nodup :=
  (walk_ancestors registry key).nodup.2

/-- Whatever the bases of the registered types are, the ancestors of a key are listed
once each; they are the keys that chains of links lead to, and only registered types
have links; they stand in the order in which a depth-first walk along the declared
bases first comes to them.  A key is listed among its own ancestors exactly if it lies
on a cycle. -/
theorem ancestors_depth_first (registry : Registry) (key : TypeKey) :
    (registry.ancestors key).Nodup ∧
      (∀ target, target ∈ registry.ancestors key ↔
        Relation.TransGen registry.DirectBase key target) ∧
      (∀ derived base, registry.DirectBase derived base ↔
        ∃ conv ∈ registry.converters, conv.key = derived ∧ base ∈ conv.bases) ∧
      (∀ met, Graph.Walk registry.basesOf [] (registry.basesOf key) met ↔
        met = registry.ancestors key) ∧
      (key ∈ registry.ancestors key ↔ Relation.TransGen registry.DirectBase key key) := by
  refine ⟨nodup_ancestors registry key, fun _ => mem_ancestors_iff, fun _ _ => directBase_iff, ?_,
    mem_ancestors_iff⟩
  intro met
  constructor
  · intro walk
    exact walk.unique (walk_ancestors registry key)
  · rintro rfl
    exact walk_ancestors registry key

/-- The walk from `Disc` comes back to it through `Round`, and only then to the base of
`Disc` that is left; `Gone` is not registered. -/
example :
    let round := classConverter "Round"
    let disc := classConverter "Disc"
    let flat := classConverter "Flat"
    let gone := TypeKey.ofName "Gone"
    let registry := run {} [.register round, .register disc, .register flat]
    let edited := (registry.modify disc.key
      fun conv => { conv with bases := [round.key, round.key, flat.key] }).modify round.key
      fun conv => { conv with bases := [disc.key, gone] }
    edited.ancestors disc.key = [round.key, disc.key, flat.key, gone] ∧
      edited.ancestors round.key = [disc.key, round.key, gone, flat.key] := by
  decide +kernel

namespace Sound

/-- A type has more ancestors than any of its bases. -/
theorem length_ancestors_lt (sound : registry.Sound) (link : registry.DirectBase key base) :
    (registry.ancestors base).length < (registry.ancestors key).length := by
  have apart : base ∉ registry.ancestors base := by
    intro self
    exact sound.acyclic base (mem_ancestors_iff.mp self)
  have fewer : base :: registry.ancestors base ⊆ registry.ancestors key := by
    intro other member
    rw [mem_ancestors_iff]
    rcases List.mem_cons.mp member with rfl | above
    · exact .single link
    · exact .head link (mem_ancestors_iff.mp above)
  exact (List.subperm_of_subset ((nodup_ancestors registry base).cons apart) fewer).length_le

/-- A type has no more ancestors than there are types. -/
theorem length_ancestors_le (sound : registry.Sound) (key : TypeKey) :
    (registry.ancestors key).length ≤ registry.size := by
  have registered : registry.ancestors key ⊆ registry.keys := by
    intro other above
    rcases Relation.TransGen.tail'_iff.mp (mem_ancestors_iff.mp above) with ⟨_, _, link⟩
    rcases directBase_iff.mp link with ⟨conv, member, _, listed⟩
    exact sound.registered conv member other listed
  have bounded := (List.subperm_of_subset (nodup_ancestors registry key) registered).length_le
  simpa [keys, size] using bounded

end Sound

end Bindery.Registry
