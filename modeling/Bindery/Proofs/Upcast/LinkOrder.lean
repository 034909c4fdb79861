import Bindery.Proofs.Upcast.Emission

/-!
# The order of base links

A link is checked against the links before it, but whether a list of links goes
through depends on the whole of it: both ends of each link are registered, and
all the links together close no circle.  So links go through in every order or
in none.  The cast table and the upcast function speak of the types in
registration order and of which of them derive from which, hence they do not
show in which order links were declared.
-/

namespace Bindery

namespace Registry

variable {registry middle next : Registry} {links : List (TypeKey × TypeKey)}

/-- Declare links one after the other, up to the first that is refused. -/
def addBases (registry : Registry) (links : List (TypeKey × TypeKey)) :
    Except RegistryError Registry :=
  links.foldlM (fun reached link => reached.addBase link.1 link.2) registry

/-- One link of the registry or of the list. -/
def Joined (registry : Registry) (links : List (TypeKey × TypeKey)) (derived base : TypeKey) :
    Prop :=
  registry.DirectBase derived base ∨ (derived, base) ∈ links

theorem addBases_cons_eq_ok_iff {link : TypeKey × TypeKey} :
    registry.addBases (link :: links) = .ok next ↔
      ∃ middle, registry.addBase link.1 link.2 = .ok middle ∧ middle.addBases links = .ok next := by
  rw [addBases, List.foldlM_cons, Outcome.bind_eq_ok_iff]
  rfl

/-- The links after one is accepted are exactly those from before and the new
one. -/
theorem directBase_addBase_iff {derived base first second : TypeKey}
    (accepted : registry.addBase derived base = .ok next) :
    next.DirectBase first second ↔
      registry.DirectBase first second ∨ first = derived ∧ second = base := by
  obtain ⟨⟨derivedKnown, _, _⟩, rfl⟩ := addBase_eq_ok_iff.mp accepted
  constructor
  · exact directBase_modify
  · rw [directBase_iff, directBase_iff, converters_modify]
    rintro (⟨conv, member, rfl, listed⟩ | ⟨rfl, rfl⟩)
    · refine ⟨_, List.mem_map_of_mem member, ?_, ?_⟩
      · split <;> simp
      · split
        · exact Converter.mem_bases_withBase.mpr (.inl listed)
        · exact listed
    · obtain ⟨conv, found⟩ := contains_iff_exists_find?.mp derivedKnown
      obtain ⟨member, rfl⟩ := find?_eq_some_iff.mp found
      refine ⟨_, List.mem_map_of_mem member, ?_, ?_⟩
      · simp
      · rw [if_pos rfl]
        exact Converter.mem_bases_withBase.mpr (.inr rfl)

theorem joined_addBase {link : TypeKey × TypeKey} (links : List (TypeKey × TypeKey))
    (accepted : registry.addBase link.1 link.2 = .ok middle) :
    middle.Joined links = registry.Joined (link :: links) := by
  funext derived base
  rw [Joined, Joined, directBase_addBase_iff accepted, List.mem_cons, Prod.ext_iff, or_assoc]

theorem withoutBases_addBase {derived base : TypeKey}
    (accepted : registry.addBase derived base = .ok next) :
    next.converters.map Converter.withoutBases =
      registry.converters.map Converter.withoutBases := by
  obtain ⟨_, rfl⟩ := addBase_eq_ok_iff.mp accepted
  exact withoutBases_modify derived base

theorem keys_addBase {derived base : TypeKey}
    (accepted : registry.addBase derived base = .ok next) : next.keys = registry.keys := by
  obtain ⟨_, rfl⟩ := addBase_eq_ok_iff.mp accepted
  exact keys_modify _

/-- What a list of links makes of a registry. -/
structure LinkedBy (registry : Registry) (links : List (TypeKey × TypeKey)) (next : Registry) :
    Prop where
  sound : registry.Sound → next.Sound
  directBase : ∀ derived base, next.DirectBase derived base ↔ registry.Joined links derived base
  withoutBases : next.converters.map Converter.withoutBases =
    registry.converters.map Converter.withoutBases
  keys : next.keys = registry.keys
  known : ∀ link ∈ links, link.1 ∈ registry.keys ∧ link.2 ∈ registry.keys

theorem linkedBy_of_addBases (accepted : registry.addBases links = .ok next) :
    registry.LinkedBy links next := by
  induction links generalizing registry with
  | nil =>
      cases accepted
      exact ⟨id, by simp [Joined], rfl, rfl, by simp⟩
  | cons link rest ih =>
      obtain ⟨middle, first, later⟩ := addBases_cons_eq_ok_iff.mp accepted
      have linked := ih later
      obtain ⟨⟨derivedKnown, baseKnown, _⟩, _⟩ := addBase_eq_ok_iff.mp first
      constructor
      · intro sound
        exact linked.sound (sound.addBase first)
      · intro derived base
        rw [linked.directBase, joined_addBase rest first]
      · rw [linked.withoutBases, withoutBases_addBase first]
      · rw [linked.keys, keys_addBase first]
      · intro other member
        rcases List.mem_cons.mp member with rfl | member
        · exact ⟨contains_iff_mem_keys.mp derivedKnown, contains_iff_mem_keys.mp baseKnown⟩
        · rw [← keys_addBase first]
          exact linked.known other member

/-- Links go through exactly if they join registered types and close no circle
together with the links that are there. -/
theorem exists_addBases_iff (sound : registry.Sound) :
    (∃ next, registry.addBases links = .ok next) ↔
      (∀ link ∈ links, link.1 ∈ registry.keys ∧ link.2 ∈ registry.keys) ∧
        ∀ key, ¬ Relation.TransGen (registry.Joined links) key key := by
  constructor
  · rintro ⟨next, accepted⟩
    have linked := linkedBy_of_addBases accepted
    refine ⟨linked.known, ?_⟩
    intro key cycle
    have joined : registry.Joined links ≤ next.DirectBase :=
      fun derived base => (linked.directBase derived base).mpr
    exact (linked.sound sound).acyclic key (Relation.TransGen.mono joined key key cycle)
  · rintro ⟨known, acyclic⟩
    induction links generalizing registry with
    | nil => exact ⟨registry, rfl⟩
    | cons link rest ih =>
        obtain ⟨derivedKnown, baseKnown⟩ := known link List.mem_cons_self
        have joins : registry.Joined (link :: rest) link.1 link.2 := .inr List.mem_cons_self
        have apart : ¬ Relation.ReflTransGen registry.DirectBase link.2 link.1 := by
          intro back
          have older : registry.DirectBase ≤ registry.Joined (link :: rest) := fun _ _ => .inl
          exact acyclic link.1 (.head' joins (Relation.ReflTransGen.mono older _ _ back))
        have accepted := addBase_eq_ok_iff.mpr
          ⟨⟨contains_iff_mem_keys.mpr derivedKnown, contains_iff_mem_keys.mpr baseKnown, apart⟩, rfl⟩
        rw [← joined_addBase rest accepted] at acyclic
        rw [← keys_addBase accepted] at known
        have restKnown := fun other member => known other (List.mem_cons_of_mem link member)
        obtain ⟨next, later⟩ := ih (sound.addBase accepted) restKnown acyclic
        exact ⟨next, addBases_cons_eq_ok_iff.mpr ⟨_, accepted, later⟩⟩

/-! ## What does not show the order -/

theorem basesOf_of_mem {conv : Converter} (member : conv ∈ registry.converters) :
    registry.basesOf conv.key = conv.bases := by
  rw [basesOf, find?_eq_some_iff.mpr ⟨member, rfl⟩]

theorem flatMap_bases_eq (registry : Registry) :
    registry.converters.flatMap (·.bases) = registry.keys.flatMap registry.basesOf := by
  rw [keys, List.flatMap_map]
  apply List.flatMap_congr
  intro conv member
  exact (basesOf_of_mem member).symm

theorem Sound.nodup_basesOf (sound : registry.Sound) (key : TypeKey) :
    (registry.basesOf key).Nodup := by
  unfold basesOf
  split
  · next conv isFound => exact sound.nodup conv (find?_eq_some_iff.mp isFound).1
  · exact List.nodup_nil

/-- A type is found with its label whatever bases are declared on it. -/
theorem exists_find?_of_withoutBases
    (same : next.converters.map Converter.withoutBases =
      registry.converters.map Converter.withoutBases)
    {key : TypeKey} {conv : Converter} (found : next.find? key = some conv) :
    ∃ other, registry.find? key = some other ∧ other.label = conv.label := by
  obtain ⟨member, rfl⟩ := find?_eq_some_iff.mp found
  have listed : conv.withoutBases ∈ registry.converters.map Converter.withoutBases := by
    rw [← same]
    exact List.mem_map_of_mem member
  obtain ⟨other, otherMember, equal⟩ := List.mem_map.mp listed
  have sameKey : other.key = conv.key := congrArg (·.key) equal
  have sameLabel : other.withoutBases.label = conv.withoutBases.label :=
    congrArg Converter.label equal
  exact ⟨other, find?_eq_some_iff.mpr ⟨otherMember, sameKey⟩, sameLabel⟩

theorem labelOf_eq_of_withoutBases
    (same : next.converters.map Converter.withoutBases =
      registry.converters.map Converter.withoutBases) : next.labelOf = registry.labelOf := by
  funext key
  cases found : next.find? key with
  | some conv =>
      obtain ⟨other, otherFound, sameLabel⟩ := exists_find?_of_withoutBases same found
      rw [labelOf_of_find? found, labelOf_of_find? otherFound, sameLabel]
  | none =>
      cases otherFound : registry.find? key with
      | none => rw [labelOf, labelOf, found, otherFound]
      | some other =>
          obtain ⟨conv, isFound, _⟩ := exists_find?_of_withoutBases same.symm otherFound
          rw [found] at isFound
          cases isFound

end Registry

/-- Registries with the same types and the same links have the same table. -/
theorem CastTable.build_congr {first second : Registry} (firstSound : first.Sound)
    (secondSound : second.Sound) (keys : second.keys = first.keys)
    (links : second.DirectBase = first.DirectBase) : build second = build first := by
  have heirs (base : TypeKey) : second.heirs base = first.heirs base := by
    rw [Registry.heirs, Registry.heirs, keys]
    apply List.filter_congr
    intro key _
    rw [decide_eq_decide, Registry.mem_ancestors_iff, Registry.mem_ancestors_iff, links]
  have count : (second.converters.flatMap (·.bases)).length =
      (first.converters.flatMap (·.bases)).length := by
    have lengths (key : TypeKey) :
        (second.basesOf key).length = (first.basesOf key).length := by
      apply List.Perm.length_eq
      rw [List.perm_ext_iff_of_nodup (secondSound.nodup_basesOf key) (firstSound.nodup_basesOf key)]
      intro base
      exact iff_of_eq (congrFun (congrFun links key) base)
    rw [Registry.flatMap_bases_eq, Registry.flatMap_bases_eq, keys, List.length_flatMap,
      List.length_flatMap, List.map_congr_left fun key _ => lengths key]
  rw [firstSound.build_eq_ok, secondSound.build_eq_ok, Registry.heirTable, Registry.heirTable,
    count, keys]
  simp only [heirs]

namespace Registry

theorem Sound.of_bases_eq_nil {registry : Registry}
    (fresh : ∀ conv ∈ registry.converters, conv.bases = []) : registry.Sound := by
  constructor
  · intro conv member base listed
    rw [fresh conv member] at listed
    cases listed
  · intro conv member
    rw [fresh conv member]
    exact List.nodup_nil
  · intro key cycle
    obtain ⟨_, link, _⟩ := Relation.TransGen.head'_iff.mp cycle
    obtain ⟨conv, member, _, listed⟩ := directBase_iff.mp link
    rw [fresh conv member] at listed
    cases listed

/-- Links that go through in one order go through in every order, and neither the
cast table nor the upcast function shows in which. -/
theorem addBases_perm {registry first : Registry} {links others : List (TypeKey × TypeKey)}
    (fresh : ∀ conv ∈ registry.converters, conv.bases = [])
    (accepted : registry.addBases links = .ok first) (perm : links.Perm others) :
    ∃ second, registry.addBases others = .ok second ∧
      ∃ table, CastTable.build first = .ok table ∧ CastTable.build second = .ok table ∧
        Upcast.emit second table = Upcast.emit first table ∧
        (Upcast.emit first table).outcome = .ok () := by
  have sound := Sound.of_bases_eq_nil fresh
  have sameLinks : registry.Joined others = registry.Joined links := by
    funext derived base
    rw [Joined, Joined, perm.mem_iff]
  obtain ⟨known, acyclic⟩ := (exists_addBases_iff sound).mp ⟨first, accepted⟩
  rw [← sameLinks] at acyclic
  have othersKnown := fun link member => known link (perm.mem_iff.mpr member)
  obtain ⟨second, othersAccepted⟩ := (exists_addBases_iff sound).mpr ⟨othersKnown, acyclic⟩
  have firstLinked := linkedBy_of_addBases accepted
  have secondLinked := linkedBy_of_addBases othersAccepted
  have firstSound := firstLinked.sound sound
  have secondSound := secondLinked.sound sound
  have keys : second.keys = first.keys := secondLinked.keys.trans firstLinked.keys.symm
  have directBase : second.DirectBase = first.DirectBase := by
    funext derived base
    rw [secondLinked.directBase, firstLinked.directBase, sameLinks]
  have labels : second.labelOf = first.labelOf :=
    labelOf_eq_of_withoutBases
      (secondLinked.withoutBases.trans firstLinked.withoutBases.symm)
  have built := firstSound.build_eq_ok
  have rebuilt := (CastTable.build_congr firstSound secondSound keys directBase).trans built
  have firstEmitted := Upcast.emit_eq_of_build built
  have secondEmitted := Upcast.emit_eq_of_build rebuilt
  refine ⟨second, othersAccepted, _, built, rebuilt, ?_, congrArg Draft.outcome firstEmitted⟩
  rw [firstEmitted, secondEmitted, Upcast.ladder, Upcast.ladder, labels]

/-- The links of a type to two bases that share a base of their own, declared from
the top and from the bottom. -/
theorem addBases_perm_diamond :
    let shape := classConverter "Shape"
    let round := classConverter "Round"
    let flat := classConverter "Flat"
    let disc := classConverter "Disc"
    let registry := run {} [.register disc, .register shape, .register round, .register flat]
    let links := [(round.key, shape.key), (flat.key, shape.key), (disc.key, round.key),
      (disc.key, flat.key)]
    ∃ first second, registry.addBases links = .ok first ∧
      registry.addBases links.reverse = .ok second ∧
      first.basesOf disc.key = [round.key, flat.key] ∧
      second.basesOf disc.key = [flat.key, round.key] ∧
      ∃ table, CastTable.build first = .ok table ∧ CastTable.build second = .ok table ∧
        Upcast.emit second table = Upcast.emit first table := by
  intro shape round flat disc registry links
  have firstBases : (registry.addBases links).toOption.map (·.basesOf disc.key) =
      some [round.key, flat.key] := by decide +kernel
  have secondBases : (registry.addBases links.reverse).toOption.map (·.basesOf disc.key) =
      some [flat.key, round.key] := by decide +kernel
  have fresh : ∀ conv ∈ registry.converters, conv.bases = [] := by decide +kernel
  cases accepted : registry.addBases links with
  | error error =>
      rw [accepted] at firstBases
      cases firstBases
  | ok first =>
      obtain ⟨second, reversed, table, built, rebuilt, same, _⟩ :=
        addBases_perm fresh accepted links.reverse_perm.symm
      rw [accepted] at firstBases
      rw [reversed] at secondBases
      exact ⟨first, second, rfl, reversed, Option.some.inj firstBases,
        Option.some.inj secondBases, table, built, rebuilt, same⟩

end Registry

end Bindery
