import Bindery.CastTable.Basic
import Bindery.Proofs.Registry.History

/-!
# Registries without a cast table

Base links may be set without any check, and then lead to keys that are not registered,
or in a circle.  Such registries have no cast table, and all others have one.  A base
that is not registered is named first.  A cycle is named by one of its links: the search
picks a type that lies on a cycle, and of whichever type on a cycle it picks, one base
leads back to it.
-/

namespace Bindery

namespace Registry

variable {registry : Registry} {key : TypeKey}

/-- Every base that is listed is registered. -/
def Closed (registry : Registry) : Prop :=
  ∀ conv ∈ registry.converters, ∀ base ∈ conv.bases, base ∈ registry.keys

theorem danglingBase?_eq_none_iff : registry.danglingBase? = none ↔ registry.Closed := by
  rw [danglingBase?, List.find?_eq_none]
  constructor
  · intro none conv member base listed
    have known := none base (List.mem_flatMap.mpr ⟨conv, member, listed⟩)
    rw [← contains_iff_mem_keys]
    simpa using known
  · intro closed base listed
    rcases List.mem_flatMap.mp listed with ⟨conv, member, isBase⟩
    simpa using contains_iff_mem_keys.mpr (closed conv member base isBase)

theorem exists_of_danglingBase?_eq_some {base : TypeKey}
    (found : registry.danglingBase? = some base) :
    ∃ conv ∈ registry.converters, base ∈ conv.bases ∧ base ∉ registry.keys := by
  rcases List.mem_flatMap.mp (List.mem_of_find?_eq_some found) with ⟨conv, member, listed⟩
  have unknown := List.find?_some found
  rw [Bool.not_eq_true', ← Bool.not_eq_true, contains_iff_mem_keys] at unknown
  exact ⟨conv, member, listed, unknown⟩

theorem mem_leavingOrder (registered : key ∈ registry.keys) : key ∈ registry.leavingOrder := by
  apply Graph.mem_postorder_of_enter
  · rw [handles, List.mem_eraseDups]
    exact List.mem_append_left _ registered
  · exact List.mem_map_of_mem registered

/-- A type that is picked lies on a cycle. -/
theorem cycle_of_cyclicType?_eq_some (picked : registry.cyclicType? = some key) :
    Relation.TransGen registry.DirectBase key key := by
  rw [cyclicType?] at picked
  split at picked
  · next found =>
      cases picked
      have loop : key ∈ registry.basesOf key := by simpa using List.find?_some found
      exact .single loop
  · split at picked
    · next last _ =>
        have found := List.find?_some picked
        rw [Bool.and_eq_true, decide_eq_true_eq, decide_eq_true_eq] at found
        exact .head found.1 (mem_ancestors_iff.mp found.2)
    · cases picked

/-- A type is picked as soon as there is a cycle.  The walk leaves every type, hence one on
the cycle, and the last link of that cycle comes from a type that is picked at the latest. -/
theorem cyclicType?_ne_none (cycle : Relation.TransGen registry.DirectBase key key) :
    registry.cyclicType? ≠ none := by
  rw [cyclicType?]
  split
  · simp
  · split
    · next last left =>
        have around : last ∈ registry.ancestors last := by simpa using List.find?_some left
        rw [mem_ancestors_iff] at around
        rcases Relation.TransGen.tail'_iff.mp around with ⟨before, onward, link⟩
        have fromLast : Relation.TransGen registry.DirectBase last before := by
          rcases Relation.reflTransGen_iff_eq_or_transGen.mp onward with rfl | chain
          · exact .single link
          · exact chain
        rw [Ne, List.find?_eq_none]
        intro unpicked
        apply unpicked before (mem_keys_of_transGen (.single link))
        rw [Bool.and_eq_true, decide_eq_true_eq, decide_eq_true_eq, mem_ancestors_iff]
        exact ⟨link, fromLast⟩
    · next none =>
        have left := List.mem_reverse.mpr (mem_leavingOrder (mem_keys_of_transGen cycle))
        have unfound := List.find?_eq_none.mp none key left
        exact absurd (mem_ancestors_iff.mpr cycle) (by simpa using unfound)

theorem cycleError?_eq_none_iff :
    registry.cycleError? = none ↔ ∀ key, ¬ Relation.TransGen registry.DirectBase key key := by
  rw [cycleError?, Option.map_eq_none_iff]
  constructor
  · intro none key cycle
    exact cyclicType?_ne_none cycle none
  · intro acyclic
    rw [Option.eq_none_iff_forall_ne_some]
    intro key picked
    exact acyclic key (cycle_of_cyclicType?_eq_some picked)

/-- The error is true of the registry: it names a registered type and one of its bases that
is another registered type and leads back to it, or a registered type that is its own
base. -/
inductive NamesCycle (registry : Registry) : RegistryError → Prop where
  | link {derived base : Converter} (derivedMember : derived ∈ registry.converters)
      (baseMember : base ∈ registry.converters) (listed : base.key ∈ derived.bases)
      (apart : base.key ≠ derived.key)
      (leadsBack : Relation.TransGen registry.DirectBase base.key derived.key) :
      NamesCycle registry (.cyclicInheritance derived.canonical base.canonical)
  | self {conv : Converter} (member : conv ∈ registry.converters)
      (listed : conv.key ∈ conv.bases) :
      NamesCycle registry (.selfInheritance conv.canonical)

theorem nameOf_of_mem {conv : Converter} (member : conv ∈ registry.converters) :
    registry.nameOf conv.key = conv.canonical := by
  rw [nameOf, find?_eq_some_iff.mpr ⟨member, rfl⟩]

theorem reaches_iff {source target : TypeKey} :
    registry.reaches source target = true ↔
      source = target ∨ Relation.TransGen registry.DirectBase source target := by
  rw [reaches, Bool.or_eq_true, decide_eq_true_eq, decide_eq_true_eq, mem_ancestors_iff]

/-- Whichever type on a cycle is picked, one of its links is named. -/
theorem Closed.namesCycle (closed : registry.Closed)
    (cycle : Relation.TransGen registry.DirectBase key key) :
    registry.NamesCycle (registry.cycleErrorAt key) := by
  rcases Relation.TransGen.head'_iff.mp cycle with ⟨first, firstLink, back⟩
  rcases directBase_iff.mp firstLink with ⟨conv, member, rfl, -⟩
  have bases : registry.basesOf conv.key = conv.bases := by
    rw [basesOf, find?_eq_some_iff.mpr ⟨member, rfl⟩]
  rw [cycleErrorAt]
  split
  · next base found =>
      have listed : base ∈ conv.bases := by
        rw [← bases, ← List.mem_reverse]
        exact List.mem_of_find?_eq_some found
      have leadsBack := List.find?_some found
      rw [reaches_iff] at leadsBack
      rw [nameOf_of_mem member]
      by_cases self : base = conv.key
      · subst self
        rw [if_pos rfl]
        exact .self member listed
      · rcases List.mem_map.mp (closed conv member base listed) with ⟨other, otherMember, rfl⟩
        rw [if_neg self, nameOf_of_mem otherMember]
        exact .link member otherMember listed self (leadsBack.resolve_left self)
  · next none =>
      -- The cycle itself leaves the type by a base that leads back.
      have unnamed := List.find?_eq_none.mp none first (List.mem_reverse.mpr firstLink)
      rw [reaches_iff, eq_comm] at unnamed
      exact absurd (Relation.reflTransGen_iff_eq_or_transGen.mp back) unnamed

end Registry

namespace CastTable

/-- A registry has a cast table exactly if every base is registered and no links run in a
circle.  If a base is not registered, the error names such a base.  Otherwise the error
names a link on a cycle, and it would do so for whichever type on a cycle is picked. -/
theorem build_refuses_exactly (registry : Registry) :
    ((∃ table, build registry = .ok table) ↔
        registry.Closed ∧ ∀ key, ¬ Relation.TransGen registry.DirectBase key key) ∧
      (¬ registry.Closed →
        ∃ conv ∈ registry.converters, ∃ base ∈ conv.bases, base ∉ registry.keys ∧
          build registry = .error (.typeNotFound base.text)) ∧
      (registry.Closed →
        (∀ error, build registry = .error error → registry.NamesCycle error) ∧
        ∀ key, Relation.TransGen registry.DirectBase key key →
          registry.NamesCycle (registry.cycleErrorAt key)) := by
  cases dangling : registry.danglingBase? with
  | some base =>
      have refused : build registry = .error (.typeNotFound base.text) := by
        rw [build, dangling]
      have opened : ¬ registry.Closed := by
        rw [← Registry.danglingBase?_eq_none_iff, dangling]
        exact Option.some_ne_none base
      rcases Registry.exists_of_danglingBase?_eq_some dangling with
        ⟨conv, member, listed, unknown⟩
      rw [refused]
      exact ⟨by simp [opened], fun _ => ⟨conv, member, base, listed, unknown, rfl⟩,
        fun closed => absurd closed opened⟩
  | none =>
      have closed := Registry.danglingBase?_eq_none_iff.mp dangling
      rw [build, dangling, ← Registry.cycleError?_eq_none_iff]
      cases found : registry.cycleError? with
      | none =>
          exact ⟨by simp [closed], fun opened => absurd closed opened,
            fun _ => ⟨by simp, fun _ => closed.namesCycle⟩⟩
      | some error =>
          rcases Option.map_eq_some_iff.mp found with ⟨key, picked, rfl⟩
          have named := closed.namesCycle (Registry.cycle_of_cyclicType?_eq_some picked)
          exact ⟨by simp, fun opened => absurd closed opened,
            fun _ => ⟨by simpa using named, fun _ => closed.namesCycle⟩⟩

/-- `Leaf` leads into the cycle and is not on it, so it is not named. -/
example :
    let leaf := Registry.classConverter "Leaf"
    let round := Registry.classConverter "Round"
    let disc := Registry.classConverter "Disc"
    let registry := Registry.run {} [.register leaf, .register round, .register disc,
      .addBase leaf.key disc.key, .addBase disc.key round.key]
    let edited := registry.modify round.key fun conv => { conv with bases := [disc.key] }
    build edited = .error (.cyclicInheritance "Round" "Disc") := by
  decide +kernel

end CastTable

end Bindery
