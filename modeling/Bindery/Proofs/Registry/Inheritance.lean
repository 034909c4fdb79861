import Bindery.Proofs.Graph.Reachability
import Bindery.Proofs.Registry.Lookup
import Bindery.Registry.Inheritance

/-!
# Inheritance along every history of a registry

The ancestors of a type are exactly the types that chains of base links lead to.
A link is refused if its base already leads back to the derived type, so links
never close a cycle, however registrations and links follow each other and
whichever of them fail.
-/

namespace Bindery

namespace Converter

/-- The converter as it was before bases were declared on it. -/
def withoutBases (conv : Converter) : Converter :=
  { conv with bases := [] }

theorem withoutBases_eq_self {conv : Converter} (fresh : conv.bases = []) :
    conv.withoutBases = conv := by
  rcases conv with ⟨profile, hooks⟩
  rcases profile with ⟨type, identity, storage, boundName, ctor, methods, members, bases⟩
  cases fresh
  rfl

theorem withoutBases_withBase (conv : Converter) (base : TypeKey) :
    (conv.withBase base).withoutBases = conv.withoutBases := by
  unfold withBase
  split <;> rfl

theorem mem_bases_withBase {conv : Converter} {base other : TypeKey} :
    other ∈ (conv.withBase base).bases ↔ other ∈ conv.bases ∨ other = base := by
  by_cases listed : base ∈ conv.bases
  · rw [withBase, if_pos listed]
    constructor
    · exact Or.inl
    · rintro (old | rfl)
      · exact old
      · exact listed
  · simp [withBase, listed]

theorem nodup_bases_withBase {conv : Converter} (base : TypeKey) (nodup : conv.bases.Nodup) :
    (conv.withBase base).bases.Nodup := by
  by_cases listed : base ∈ conv.bases
  · rwa [withBase, if_pos listed]
  · simpa [withBase, listed] using nodup.concat listed

end Converter

namespace Registry

variable {registry : Registry}

/-- One link of the inheritance graph. -/
def DirectBase (registry : Registry) (derived base : TypeKey) : Prop :=
  base ∈ registry.basesOf derived

theorem directBase_iff {derived base : TypeKey} :
    registry.DirectBase derived base ↔
      ∃ conv ∈ registry.converters, conv.key = derived ∧ base ∈ conv.bases := by
  unfold DirectBase basesOf
  constructor
  · intro link
    split at link
    · next conv isFound =>
        obtain ⟨member, sameKey⟩ := find?_eq_some_iff.mp isFound
        exact ⟨conv, member, sameKey, link⟩
    · cases link
  · rintro ⟨conv, member, sameKey, link⟩
    rw [find?_eq_some_iff.mpr ⟨member, sameKey⟩]
    exact link

theorem mem_handles_of_directBase {derived base : TypeKey}
    (link : registry.DirectBase derived base) : base ∈ registry.handles := by
  obtain ⟨conv, member, _, listed⟩ := directBase_iff.mp link
  rw [handles, List.mem_eraseDups]
  exact List.mem_append_right _ (List.mem_flatMap.mpr ⟨conv, member, listed⟩)

/-- The ancestors are the types that are reached by following at least one link. -/
theorem mem_ancestors_iff {key target : TypeKey} :
    target ∈ registry.ancestors key ↔ Relation.TransGen registry.DirectBase key target := by
  have closed : ∀ node, ∀ other ∈ registry.basesOf node, other ∈ registry.handles :=
    fun _ _ link => mem_handles_of_directBase link
  rw [ancestors, Graph.mem_preorder_iff, Relation.TransGen.head'_iff]
  constructor
  · rintro ⟨start, link, path⟩
    exact ⟨start, link, ((Graph.path_iff_reflTransGen closed).mp path).2⟩
  · rintro ⟨start, link, chain⟩
    exact ⟨start, link, (Graph.path_iff_reflTransGen closed).mpr ⟨closed _ _ link, chain⟩⟩

theorem mem_keys_of_transGen {key base : TypeKey}
    (chain : Relation.TransGen registry.DirectBase key base) : key ∈ registry.keys := by
  rcases Relation.TransGen.head'_iff.mp chain with ⟨_, link, _⟩
  rcases directBase_iff.mp link with ⟨conv, member, rfl, _⟩
  exact List.mem_map_of_mem member

/-- A link is accepted exactly between two registered types that are not yet
joined the other way round. -/
theorem addBase_eq_ok_iff {derived base : TypeKey} {next : Registry} :
    registry.addBase derived base = .ok next ↔
      (registry.contains derived = true ∧ registry.contains base = true ∧
        ¬ Relation.ReflTransGen registry.DirectBase base derived) ∧
        next = registry.modify derived (·.withBase base) (·.key_withBase base) := by
  rw [Relation.reflTransGen_iff_eq_or_transGen, ← mem_ancestors_iff, contains_iff_exists_find?,
    contains_iff_exists_find?, not_or]
  simp only [addBase, Outcome.bind_eq_ok_iff, get_eq_ok_iff, Outcome.guard_eq_ok_iff,
    Outcome.pure_eq_ok_iff]
  constructor
  · rintro ⟨derivedConv, derivedFound, baseConv, baseFound, self, acyclic, rfl⟩
    exact ⟨⟨⟨derivedConv, derivedFound⟩, ⟨baseConv, baseFound⟩, self, acyclic⟩, rfl⟩
  · rintro ⟨⟨⟨derivedConv, derivedFound⟩, ⟨baseConv, baseFound⟩, self, acyclic⟩, rfl⟩
    exact ⟨derivedConv, derivedFound, baseConv, baseFound, self, acyclic, rfl⟩

/-- The links after one is accepted: those from before and the new one. -/
theorem directBase_modify {derived base first second : TypeKey}
    (link : (registry.modify derived (·.withBase base) (·.key_withBase base)).DirectBase
      first second) :
    registry.DirectBase first second ∨ first = derived ∧ second = base := by
  rw [directBase_iff, converters_modify] at link
  obtain ⟨changed, member, rfl, listed⟩ := link
  obtain ⟨conv, convMember, rfl⟩ := List.mem_map.mp member
  by_cases here : conv.key = derived
  · rw [if_pos here] at listed ⊢
    rw [Converter.key_withBase]
    rcases Converter.mem_bases_withBase.mp listed with old | rfl
    · exact .inl (directBase_iff.mpr ⟨conv, convMember, rfl, old⟩)
    · exact .inr ⟨here, rfl⟩
  · rw [if_neg here] at listed ⊢
    exact .inl (directBase_iff.mpr ⟨conv, convMember, rfl, listed⟩)

end Registry

end Bindery
