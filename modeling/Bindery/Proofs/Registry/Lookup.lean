import Bindery.Proofs.Outcome
import Bindery.Registry.Basic
import Mathlib.Data.List.Nodup

/-!
# Looking up registered types

The index of a registry finds a type exactly where it stands, so every key
stands at one place, and looking up a key gives the one registered type of that
key.  Registering a type and declaring something on one are described by what
is then looked up.
-/

namespace Bindery.Registry

variable {registry : Registry}

theorem place?_eq_some_iff {key : TypeKey} {place : Nat} :
    registry.place? key = some place ↔ (registry.converters[place]?).map (·.key) = some key :=
  registry.finds key place

theorem place?_of_getElem? {place : Nat} {conv : Converter}
    (stands : registry.converters[place]? = some conv) :
    registry.place? conv.key = some place := by
  rw [place?_eq_some_iff, stands]
  rfl

/-- No two places hold types of one key. -/
theorem nodup_keys (registry : Registry) : registry.keys.Nodup := by
  rw [List.nodup_iff_getElem?_ne_getElem?]
  intro first second ordered inside same
  have placed {place : Nat} {key : TypeKey} (stands : registry.keys[place]? = some key) :
      registry.place? key = some place := by
    rwa [place?_eq_some_iff, ← List.getElem?_map]
  have secondStands := List.getElem?_eq_getElem inside
  have firstPlace := placed (same.trans secondStands)
  rw [placed secondStands] at firstPlace
  exact Nat.ne_of_gt ordered (Option.some.inj firstPlace)

theorem find?_eq_some_iff {key : TypeKey} {conv : Converter} :
    registry.find? key = some conv ↔ conv ∈ registry.converters ∧ conv.key = key := by
  rw [find?, Option.bind_eq_some_iff]
  constructor
  · rintro ⟨place, placed, stands⟩
    have sameKey := place?_eq_some_iff.mp placed
    rw [stands] at sameKey
    exact ⟨List.mem_of_getElem? stands, Option.some.inj sameKey⟩
  · rintro ⟨member, rfl⟩
    obtain ⟨place, stands⟩ := List.mem_iff_getElem?.mp member
    exact ⟨place, place?_of_getElem? stands, stands⟩

theorem get_eq_ok_iff {key : TypeKey} {conv : Converter} :
    registry.get key = .ok conv ↔ registry.find? key = some conv := by
  rw [get]
  cases registry.find? key <;> simp

theorem contains_iff_mem_keys {key : TypeKey} :
    registry.contains key = true ↔ key ∈ registry.keys := by
  rw [contains, Option.isSome_iff_exists, keys, List.mem_map]
  constructor
  · rintro ⟨place, placed⟩
    obtain ⟨conv, stands, sameKey⟩ := Option.map_eq_some_iff.mp (place?_eq_some_iff.mp placed)
    exact ⟨conv, List.mem_of_getElem? stands, sameKey⟩
  · rintro ⟨conv, member, rfl⟩
    obtain ⟨place, stands⟩ := List.mem_iff_getElem?.mp member
    exact ⟨place, place?_of_getElem? stands⟩

theorem contains_iff_exists_find? {key : TypeKey} :
    registry.contains key = true ↔ ∃ conv, registry.find? key = some conv := by
  simp only [contains_iff_mem_keys, find?_eq_some_iff, keys, List.mem_map]

theorem contains_of_require {text : String} {key : TypeKey}
    (required : registry.require text = .ok key) : registry.contains key = true := by
  by_cases known : registry.contains (TypeKey.ofSpelling text) = true
  · simp only [require, lookup?, known, if_true, Except.ok.injEq] at required
    rwa [← required]
  · simp [require, lookup?, known] at required

theorem eq_of_require {text : String} {key : TypeKey}
    (required : registry.require text = .ok key) : key = TypeKey.ofSpelling text := by
  by_cases known : registry.contains (TypeKey.ofSpelling text) = true
  · simpa [require, lookup?, known] using required.symm
  · simp [require, lookup?, known] at required

/-- A type is selected by the exact spelling, and by the bare name only where the exact
spelling is not registered. -/
theorem select_eq_some_iff {type : NativeType} {key : TypeKey} :
    registry.select type = .ok (some key) ↔
      type.isVoid = false ∧
        (registry.contains type.key = true ∧ key = type.key ∨
          registry.contains type.key = false ∧
            registry.contains (TypeKey.ofName type.bareName) = true ∧
            key = TypeKey.ofName type.bareName) := by
  simp only [select]
  generalize type.isVoid = void, registry.contains type.key = exact,
    registry.contains (TypeKey.ofName type.bareName) = bare
  cases void with
  | true => simp
  | false =>
      cases exact with
      | true => simp [eq_comm]
      | false => cases bare <;> simp [eq_comm]

/-- Nothing is selected for `void` alone. -/
theorem select_eq_none_iff {type : NativeType} :
    registry.select type = .ok none ↔ type.isVoid = true := by
  simp only [select]
  generalize type.isVoid = void, registry.contains type.key = exact,
    registry.contains (TypeKey.ofName type.bareName) = bare
  cases void <;> cases exact <;> cases bare <;> simp

/-- A selection fails if neither the exact spelling nor the bare name is registered. -/
theorem select_eq_error_iff {type : NativeType} {fault : RegistryError} :
    registry.select type = .error fault ↔
      type.isVoid = false ∧ registry.contains type.key = false ∧
        registry.contains (TypeKey.ofName type.bareName) = false ∧
        fault = .typeNotFound type.canonical := by
  simp only [select]
  generalize type.isVoid = void, registry.contains type.key = exact,
    registry.contains (TypeKey.ofName type.bareName) = bare
  cases void <;> cases exact <;> cases bare <;> simp [eq_comm]

/-- Something is selected as soon as the exact spelling or the bare name is registered. -/
theorem exists_select_eq_some_iff {type : NativeType} :
    (∃ key, registry.select type = .ok (some key)) ↔
      type.isVoid = false ∧ (registry.contains type.key = true ∨
        registry.contains (TypeKey.ofName type.bareName) = true) := by
  simp only [select_eq_some_iff]
  cases registry.contains type.key <;> simp

theorem contains_of_select {type : NativeType} {key : TypeKey}
    (selected : registry.select type = .ok (some key)) : registry.contains key = true := by
  rcases select_eq_some_iff.mp selected with ⟨-, ⟨known, rfl⟩ | ⟨-, known, rfl⟩⟩
  · exact known
  · exact known

theorem contains_of_subset {later : Registry} (grown : registry.keys ⊆ later.keys) {key : TypeKey}
    (known : registry.contains key = true) : later.contains key = true :=
  contains_iff_mem_keys.mpr (grown (contains_iff_mem_keys.mp known))

/-- A type is registered exactly if its key is free, and is then the last. -/
theorem register_eq_ok_iff {conv : Converter} {next : Registry} :
    registry.register conv = .ok next ↔
      registry.contains conv.key = false ∧ next.converters = registry.converters ++ [conv] ∧
        next.index = (conv.key, registry.converters.length) :: registry.index := by
  unfold register
  split
  · next taken => simp [taken]
  · next free =>
      rcases next with ⟨converters, index, finds⟩
      simp only [Bool.not_eq_true] at free
      simp [free, eq_comm]

theorem keys_of_register {conv : Converter} {next : Registry}
    (registered : registry.register conv = .ok next) : next.keys = registry.keys ++ [conv.key] := by
  rcases register_eq_ok_iff.mp registered with ⟨-, converters, -⟩
  rw [keys, keys, converters, List.map_append]
  rfl

theorem find?_of_register {conv : Converter} {next : Registry}
    (registered : registry.register conv = .ok next) : next.find? conv.key = some conv := by
  rcases register_eq_ok_iff.mp registered with ⟨-, converters, -⟩
  rw [find?_eq_some_iff, converters]
  exact ⟨List.mem_append_right _ (List.mem_singleton_self conv), rfl⟩

section Modify

variable {key : TypeKey} {change : Converter → Converter}
  (keeps : ∀ conv, (change conv).key = conv.key)

/-- Only the type of the key is changed, and every type stays in its place. -/
theorem converters_modify :
    (registry.modify key change keeps).converters =
      registry.converters.map fun conv => if conv.key = key then change conv else conv := by
  apply List.ext_getElem?
  intro place
  unfold modify
  split
  · next changed placed =>
      rw [List.getElem?_modify, List.getElem?_map]
      cases stands : registry.converters[place]? with
      | none => rfl
      | some conv =>
          have sameKey : conv.key = key ↔ changed = place := by
            have here : registry.place? key = some place ↔ _ := place?_eq_some_iff
            rw [placed, stands] at here
            simpa using here.symm
          by_cases same : changed = place
          · simp [same, sameKey]
          · simp [same, sameKey]
  · next absent =>
      rw [List.getElem?_map]
      cases stands : registry.converters[place]? with
      | none => rfl
      | some conv =>
          have other : conv.key ≠ key := by
            rintro rfl
            have placed := place?_of_getElem? stands
            rw [absent] at placed
            cases placed
          simp [other]

theorem keys_modify : (registry.modify key change keeps).keys = registry.keys := by
  rw [keys, keys, converters_modify, List.map_map]
  apply List.map_congr_left
  intro conv _
  by_cases here : conv.key = key <;> simp [here, keeps]

end Modify

end Bindery.Registry
