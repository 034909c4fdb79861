import Bindery.Proofs.CastTable.Refusal

/-!
# The cast table against the ancestors of each type

The table is filled type by type, in registration order: a walk along the bases of a
type lists it under everything that the walk meets.  Ancestors are found by another
walk.  Both follow the same chains of base links, so once some types are through,
those of them that have a base among their ancestors are listed under it, in the order
in which they came.  Wherever the table can be built, it answers every question about
casts by ancestry, and after every history of a registry it can be built.
-/

namespace Bindery

namespace CastTable

variable {key base : TypeKey} {derived : List (TypeKey × List TypeKey)}

theorem listOnce_of_not_mem {types : List TypeKey} (new : key ∉ types) :
    listOnce types key = types ++ [key] :=
  if_neg new

theorem listOnce_listOnce (types : List TypeKey) (key : TypeKey) :
    listOnce (listOnce types key) key = listOnce types key := by
  by_cases listed : key ∈ types <;> simp [listOnce, listed]

theorem lookup_cons_eq_ite (base : TypeKey) (entry : TypeKey × List TypeKey)
    (rest : List (TypeKey × List TypeKey)) :
    (entry :: rest).lookup base = if base = entry.1 then some entry.2 else rest.lookup base := by
  rw [List.lookup_cons]
  by_cases here : base = entry.1
  · simp [here]
  · simp [here, beq_false_of_ne here]

/-- Listing a type under one base leaves the others as they are. -/
theorem lookup_note (key : TypeKey) (derived : List (TypeKey × List TypeKey))
    (noted base : TypeKey) :
    (note key derived noted).lookup base =
      if base = noted then some (listOnce ((derived.lookup base).getD []) key)
      else derived.lookup base := by
  induction derived with
  | nil => simp [note, lookup_cons_eq_ite]
  | cons entry rest ih =>
      rw [note]
      by_cases isEntry : entry.1 = noted
      · subst isEntry
        by_cases here : base = entry.1 <;> simp [lookup_cons_eq_ite, here]
      · rw [if_neg isEntry, lookup_cons_eq_ite, lookup_cons_eq_ite, ih]
        by_cases here : base = entry.1
        · simp [here, isEntry]
        · simp [here]

theorem lookup_foldl_note (nodes : List TypeKey) :
    (nodes.foldl (fun derived node => if node = key then derived else note key derived node)
        derived).lookup base =
      if base ≠ key ∧ base ∈ nodes then some (listOnce ((derived.lookup base).getD []) key)
      else derived.lookup base := by
  induction nodes generalizing derived with
  | nil => simp
  | cons node nodes ih =>
      rw [List.foldl_cons, ih]
      by_cases self : node = key
      · subst self
        by_cases same : base = node <;> simp [same]
      · rw [if_neg self, lookup_note]
        by_cases here : base = node
        · subst here
          by_cases again : base ∈ nodes <;> simp [self, again, listOnce_listOnce]
        · simp [here]

end CastTable

namespace Registry

variable {registry : Registry} {key base : TypeKey}

/-- The walk along the bases of a type meets another one. -/
def Meets (registry : Registry) (key base : TypeKey) : Prop :=
  base ≠ key ∧ base ∈ Graph.preorder registry.basesOf registry.keys [key]

instance (registry : Registry) (key base : TypeKey) : Decidable (registry.Meets key base) :=
  inferInstanceAs (Decidable (_ ∧ _))

theorem lookup_noteWalk (derived : List (TypeKey × List TypeKey)) (key base : TypeKey) :
    (CastTable.noteWalk registry derived key).lookup base =
      if registry.Meets key base then
        some (CastTable.listOnce ((derived.lookup base).getD []) key)
      else derived.lookup base :=
  CastTable.lookup_foldl_note _

/-- Of some types, those whose walks meet a base. -/
def below (registry : Registry) (base : TypeKey) (keys : List TypeKey) : List TypeKey :=
  keys.filter fun key => registry.Meets key base

/-- What is listed when some types are through: under each base those whose walks met it,
in order, and no entry where there are none. -/
def Filled (registry : Registry) (derived : List (TypeKey × List TypeKey))
    (through : List TypeKey) : Prop :=
  ∀ base, derived.lookup base =
    if registry.below base through = [] then none else some (registry.below base through)

namespace Filled

open CastTable

variable {derived : List (TypeKey × List TypeKey)} {through : List TypeKey}

theorem getD_lookup (filled : registry.Filled derived through) (base : TypeKey) :
    (derived.lookup base).getD [] = registry.below base through := by
  rw [filled base]
  split
  · next none => exact none.symm
  · rfl

/-- One more type comes behind those that were there. -/
theorem noteWalk (filled : registry.Filled derived through) (new : key ∉ through) :
    registry.Filled (noteWalk registry derived key) (through ++ [key]) := by
  intro base
  have unlisted : key ∉ registry.below base through :=
    fun listed => new (List.mem_of_mem_filter listed)
  rw [lookup_noteWalk]
  by_cases meets : registry.Meets key base
  · have longer : registry.below base (through ++ [key]) =
        registry.below base through ++ [key] := by
      simp [below, meets]
    rw [if_pos meets, filled.getD_lookup, listOnce_of_not_mem unlisted, longer, if_neg (by simp)]
  · have same : registry.below base (through ++ [key]) = registry.below base through := by
      simp [below, meets]
    rw [if_neg meets, same]
    exact filled base

/-- What one type keeps, a run over several keeps. -/
theorem foldl (filled : registry.Filled derived through) {keys : List TypeKey}
    (nodup : (through ++ keys).Nodup) :
    registry.Filled (keys.foldl (CastTable.noteWalk registry) derived) (through ++ keys) := by
  induction keys generalizing derived through with
  | nil => simpa using filled
  | cons key keys ih =>
      rw [List.append_cons] at nodup ⊢
      have new : key ∉ through := by
        have first := (List.nodup_append.mp nodup).1
        exact fun old => (List.nodup_append.mp first).2.2 key old key List.mem_cons_self rfl
      exact ih (filled.noteWalk new) nodup

end Filled

theorem filled_fill (registry : Registry) :
    registry.Filled (CastTable.fill registry) registry.keys := by
  have nothing : registry.Filled [] [] := by
    intro base
    rfl
  exact nothing.foldl registry.nodup_keys

/-- The registered types that have a base among their ancestors, in registration order. -/
def heirs (registry : Registry) (base : TypeKey) : List TypeKey :=
  registry.keys.filter fun key => base ∈ registry.ancestors key

/-- The table that lists the heirs of every type that has some. -/
def heirTable (registry : Registry) : CastTable where
  types := registry.keys
  linkCount := (registry.converters.flatMap (·.bases)).length
  bases := (registry.keys.filter fun base => registry.heirs base ≠ []).map fun base =>
    (base, registry.heirs base)

namespace Closed

/-- An ancestor is registered, as is every type that has one. -/
theorem registered_of_mem_ancestors (closed : registry.Closed)
    (above : base ∈ registry.ancestors key) : key ∈ registry.keys ∧ base ∈ registry.keys := by
  have chain := mem_ancestors_iff.mp above
  refine ⟨mem_keys_of_transGen chain, ?_⟩
  rcases Relation.TransGen.tail'_iff.mp chain with ⟨_, _, link⟩
  rcases directBase_iff.mp link with ⟨conv, member, _, listed⟩
  exact closed conv member base listed

variable (closed : registry.Closed)
  (acyclic : ∀ key, ¬ Relation.TransGen registry.DirectBase key key)
include closed acyclic

/-- Without cycles, the types that a walk meets behind its start are the ancestors. -/
theorem meets_iff (registered : key ∈ registry.keys) :
    registry.Meets key base ↔ base ∈ registry.ancestors key := by
  have inside : ∀ node, ∀ other ∈ registry.basesOf node, other ∈ registry.keys := by
    intro node other link
    rcases directBase_iff.mp link with ⟨conv, member, -, listed⟩
    exact closed conv member other listed
  simp only [Meets, Graph.mem_preorder_iff, List.mem_singleton, exists_eq_left,
    Graph.path_iff_reflTransGen inside, mem_ancestors_iff, registered, true_and]
  constructor
  · rintro ⟨apart, chain⟩
    exact (Relation.reflTransGen_iff_eq_or_transGen.mp chain).resolve_left apart
  · intro chain
    refine ⟨?_, chain.to_reflTransGen⟩
    rintro rfl
    exact acyclic base chain

/-- The types listed under a base are its heirs. -/
theorem lookup_fill (base : TypeKey) :
    (CastTable.fill registry).lookup base =
      if registry.heirs base = [] then none else some (registry.heirs base) := by
  have same : registry.below base registry.keys = registry.heirs base := by
    apply List.filter_congr
    intro key registered
    rw [decide_eq_decide]
    exact closed.meets_iff acyclic registered
  rw [registry.filled_fill base, same]

end Closed

end Registry

namespace CastTable

variable {registry : Registry} {table : CastTable}

/-- The table that is built lists the heirs of every type that has some. -/
theorem build_eq_ok_iff :
    build registry = .ok table ↔
      (registry.Closed ∧ ∀ key, ¬ Relation.TransGen registry.DirectBase key key) ∧
        table = registry.heirTable := by
  rw [← Registry.danglingBase?_eq_none_iff, ← Registry.cycleError?_eq_none_iff, build]
  cases dangling : registry.danglingBase? with
  | some base => simp
  | none =>
      cases cycle : registry.cycleError? with
      | some error => simp
      | none =>
          have closed := Registry.danglingBase?_eq_none_iff.mp dangling
          have acyclic := Registry.cycleError?_eq_none_iff.mp cycle
          have bases : registry.keys.filterMap (fun base =>
              ((fill registry).lookup base).map (base, ·)) = registry.heirTable.bases := by
            rw [Registry.heirTable, ← List.filterMap_eq_map, List.filterMap_filter]
            apply List.filterMap_congr
            intro base _
            rw [closed.lookup_fill acyclic]
            by_cases none : registry.heirs base = [] <;> simp [none]
          simp only [bases, Except.ok.injEq, true_and]
          exact eq_comm

theorem closed_of_build (built : build registry = .ok table) : registry.Closed :=
  (build_eq_ok_iff.mp built).1.1

theorem mem_bases_iff (built : build registry = .ok table) {base : TypeKey}
    {derived : List TypeKey} :
    (base, derived) ∈ table.bases ↔ derived = registry.heirs base ∧ derived ≠ [] := by
  obtain ⟨⟨closed, -⟩, rfl⟩ := build_eq_ok_iff.mp built
  simp only [Registry.heirTable, List.mem_map, List.mem_filter, decide_eq_true_eq, Prod.mk.injEq]
  constructor
  · rintro ⟨_, ⟨_, some⟩, rfl, rfl⟩
    exact ⟨rfl, some⟩
  · rintro ⟨rfl, some⟩
    -- A base with a derived type is an ancestor of it, hence registered.
    rcases List.exists_mem_of_ne_nil _ some with ⟨key, member⟩
    have above : base ∈ registry.ancestors key := by simpa using List.of_mem_filter member
    exact ⟨base, ⟨(closed.registered_of_mem_ancestors above).2, some⟩, rfl, rfl⟩

theorem derivedOf_eq_heirs (built : build registry = .ok table) (base : TypeKey) :
    table.derivedOf base = registry.heirs base := by
  rw [derivedOf]
  split
  · next entry isFound =>
      have sameBase : entry.1 = base := by simpa using List.find?_some isFound
      rw [← sameBase]
      exact ((mem_bases_iff built).mp (List.mem_of_find?_eq_some isFound)).1
  · next absent =>
      by_contra some
      have listed := (mem_bases_iff built).mpr ⟨rfl, Ne.symm some⟩
      simpa using List.find?_eq_none.mp absent _ listed

theorem mem_derivedOf_iff (built : build registry = .ok table) {key base : TypeKey} :
    key ∈ table.derivedOf base ↔ base ∈ registry.ancestors key := by
  rw [derivedOf_eq_heirs built, Registry.heirs, List.mem_filter, decide_eq_true_eq,
    and_iff_right_iff_imp]
  intro above
  exact ((closed_of_build built).registered_of_mem_ancestors above).1

/-- The bases that the table lists, in registration order. -/
theorem bases_eq_filter (built : build registry = .ok table) :
    table.bases = (registry.keys.filter fun base => table.derivedOf base ≠ []).map fun base =>
      (base, table.derivedOf base) := by
  simp only [derivedOf_eq_heirs built]
  rw [(build_eq_ok_iff.mp built).2]
  rfl

theorem resolve_eq_ite (built : build registry = .ok table) (dynamic target : TypeKey) :
    table.resolve dynamic target =
      if dynamic = target then .identity
      else if target ∈ registry.ancestors dynamic then .upcast
      else .null := by
  simp only [resolve, mem_derivedOf_iff built]

end CastTable

namespace Registry

/-- A sound registry has a table. -/
theorem Sound.build_eq_ok {registry : Registry} (sound : registry.Sound) :
    CastTable.build registry = .ok registry.heirTable :=
  CastTable.build_eq_ok_iff.mpr ⟨⟨sound.registered, sound.acyclic⟩, rfl⟩

theorem Sound.not_mem_ancestors_self {registry : Registry} (sound : registry.Sound)
    (key : TypeKey) : key ∉ registry.ancestors key := by
  intro self
  exact sound.acyclic key (mem_ancestors_iff.mp self)

/-- After every history the table can be built, and it lists and answers what
the ancestors of the registered types say. -/
theorem run_empty_castTable (calls : List Call) (fresh : ∀ call ∈ calls, call.Fresh) :
    let reached := run {} calls
    ∃ table, CastTable.build reached = .ok table ∧
      (∀ base,
        table.derivedOf base =
            (reached.keys.filter fun key => base ∈ reached.ancestors key) ∧
          (table.derivedOf base).Nodup ∧
          (table.derivedOf base ≠ [] → base ∈ reached.keys)) ∧
      table.bases =
        ((reached.keys.filter fun base => table.derivedOf base ≠ []).map fun base =>
          (base, table.derivedOf base)) ∧
      ∀ dynamic target,
        (table.resolve dynamic target = .identity ↔ dynamic = target) ∧
          (table.resolve dynamic target = .upcast ↔
            dynamic ≠ target ∧ target ∈ reached.ancestors dynamic) ∧
          (table.resolve dynamic target = .null ↔
            dynamic ≠ target ∧ target ∉ reached.ancestors dynamic) := by
  intro reached
  have sound : reached.Sound := Sound.empty.run fresh
  refine ⟨_, sound.build_eq_ok, ?_, ?_, ?_⟩
  · intro base
    have listed := CastTable.derivedOf_eq_heirs sound.build_eq_ok base
    refine ⟨listed, ?_, ?_⟩
    · rw [listed]
      exact reached.nodup_keys.filter _
    · intro some
      rcases List.exists_mem_of_ne_nil _ some with ⟨key, member⟩
      have above := (CastTable.mem_derivedOf_iff sound.build_eq_ok).mp member
      have closed := CastTable.closed_of_build sound.build_eq_ok
      exact (closed.registered_of_mem_ancestors above).2
  · exact CastTable.bases_eq_filter sound.build_eq_ok
  · intro dynamic target
    rw [CastTable.resolve_eq_ite sound.build_eq_ok]
    by_cases same : dynamic = target
    · simp [same]
    · by_cases above : target ∈ reached.ancestors dynamic
      · simp [same, above]
      · simp [same, above]

/-- A type of two bases that share a base of their own is listed once under each
of the three. -/
theorem run_empty_castTable_diamond :
    let shape := classConverter "Shape"
    let round := classConverter "Round"
    let flat := classConverter "Flat"
    let disc := classConverter "Disc"
    let calls : List Call := [.register disc, .register shape, .register round, .register flat,
      .addBase round.key shape.key, .addBase flat.key shape.key, .addBase disc.key round.key,
      .addBase disc.key flat.key, .addBase shape.key disc.key]
    (∀ call ∈ calls, call.Fresh) ∧
      ∃ table, CastTable.build (run {} calls) = .ok table ∧
        table.derivedOf shape.key = [disc.key, round.key, flat.key] ∧
        table.bases.map (·.1) = [shape.key, round.key, flat.key] ∧
        table.resolve disc.key shape.key = .upcast ∧
        table.resolve shape.key disc.key = .null := by
  intro shape round flat disc calls
  have fresh : ∀ call ∈ calls, call.Fresh := by
    simp [calls, Call.Fresh, shape, round, flat, disc, classConverter, Converter.ofTypes]
  rcases run_empty_castTable calls fresh with ⟨table, built, listed, bases, resolved⟩
  refine ⟨fresh, table, built, ?_, ?_, ?_, ?_⟩
  · rw [(listed shape.key).1]
    decide +kernel
  · rw [bases]
    simp only [(listed _).1]
    decide +kernel
  · rw [(resolved disc.key shape.key).2.1]
    decide +kernel
  · rw [(resolved shape.key disc.key).2.2]
    decide +kernel

end Registry

end Bindery
