import Bindery.Proofs.Registry.Naming
import Bindery.Proofs.Resolution

/-!
# Registries that gain types

A selection tries the exact spelling first and then the bare name.  So a new type leaves
every selection as it was, except that what went to the bare name goes to the new type if
that is the exact one.  Nothing that has been selected for is lost, and signatures that are
resolved against a registry are resolved against it after every history.
-/

namespace Bindery

namespace Registry

variable {registry next later : Registry} {type : NativeType}

theorem contains_of_register_iff {conv : Converter} (registered : registry.register conv = .ok next)
    (key : TypeKey) : next.contains key = true ↔ registry.contains key = true ∨ key = conv.key := by
  rw [contains_iff_mem_keys, contains_iff_mem_keys, keys_of_register registered, List.mem_append,
    List.mem_singleton]

theorem exists_register_of_free {conv : Converter} (free : registry.contains conv.key = false) :
    ∃ next, registry.register conv = .ok next :=
  ⟨_, dif_neg (Bool.not_eq_true _ ▸ free)⟩

/-- A new type takes over where it is the exact one. -/
theorem select_of_register {conv : Converter} (registered : registry.register conv = .ok next)
    {selected : Option TypeKey} (selects : registry.select type = .ok selected) :
    next.select type = .ok
      (if conv.key = type.key ∧ type.isVoid = false then some conv.key else selected) := by
  have known := contains_of_register_iff registered
  cases selected with
  | none =>
      have void := select_eq_none_iff.mp selects
      rw [if_neg (by simp [void]), select_eq_none_iff]
      exact void
  | some key =>
      rcases select_eq_some_iff.mp selects with ⟨value, found⟩
      by_cases takesOver : conv.key = type.key
      · rw [if_pos ⟨takesOver, value⟩, select_eq_some_iff, known]
        exact ⟨value, .inl ⟨.inr takesOver.symm, takesOver⟩⟩
      · -- The exact spelling is tried first, and whether it is known has not changed.
        have same : next.contains type.key = registry.contains type.key := by
          rw [Bool.eq_iff_iff, known, or_iff_left (Ne.symm takesOver)]
        rw [if_neg (fun both => takesOver both.1), select_eq_some_iff, same, known]
        rcases found with spelled | ⟨unspelled, bare, isBare⟩
        · exact ⟨value, .inl spelled⟩
        · exact ⟨value, .inr ⟨unspelled, .inl bare, isBare⟩⟩

/-- A failing selection succeeds with a new type if that has the exact spelling or the bare
name. -/
theorem exists_select_of_register_iff {conv : Converter}
    (registered : registry.register conv = .ok next) {fault : RegistryError}
    (failed : registry.select type = .error fault) :
    (∃ selected, next.select type = .ok selected) ↔
      conv.key = type.key ∨ conv.key = TypeKey.ofName type.bareName := by
  rcases select_eq_error_iff.mp failed with ⟨value, noExact, noBare, -⟩
  have nothingElse : (∃ selected, next.select type = .ok selected) ↔
      ∃ key, next.select type = .ok (some key) := by
    constructor
    · rintro ⟨_ | key, selected⟩
      · rw [select_eq_none_iff, value] at selected
        cases selected
      · exact ⟨key, selected⟩
    · rintro ⟨key, selected⟩
      exact ⟨some key, selected⟩
  rw [nothingElse, exists_select_eq_some_iff, contains_of_register_iff registered,
    contains_of_register_iff registered]
  simp [value, noExact, noBare, eq_comm]

theorem keys_subset_after (registry : Registry) (call : Call) :
    registry.keys ⊆ (registry.after call).keys := by
  unfold after
  split
  · next next accepted =>
      cases call with
      | register conv =>
          rw [keys_of_register accepted]
          exact List.subset_append_left _ _
      | addBase derived base =>
          rcases addBase_eq_ok_iff.mp accepted with ⟨-, rfl⟩
          rw [keys_modify]
          exact List.Subset.refl _
  · exact List.Subset.refl _

theorem keys_subset_run (registry : Registry) (calls : List Call) :
    registry.keys ⊆ (registry.run calls).keys := by
  induction calls generalizing registry with
  | nil => exact List.Subset.refl _
  | cons call calls ih => exact List.Subset.trans (registry.keys_subset_after call) (ih _)

/-- What is converted by a registered type still is where there are more of them. -/
theorem exists_select_of_subset (grown : registry.keys ⊆ later.keys) {key : TypeKey}
    (selected : registry.select type = .ok (some key)) :
    ∃ now, later.select type = .ok (some now) := by
  rcases exists_select_eq_some_iff.mp ⟨key, selected⟩ with ⟨value, known⟩
  have still := known.imp (contains_of_subset grown) (contains_of_subset grown)
  exact exists_select_eq_some_iff.mpr ⟨value, still⟩

end Registry

/-- What a prototype has from its signature alone: the type of the result, and the types
and names of the arguments. -/
def Prototype.declared (proto : Prototype) : NativeType × List Param :=
  (proto.result.type, proto.args.map Argument.param)

namespace Signature

variable {registry later : Registry}

theorem ResolvesResult.of_subset (grown : registry.keys ⊆ later.keys) {text : String}
    {result : Return} (resolved : ResolvesResult registry text result) :
    ∃ again, ResolvesResult later text again ∧ again.type = result.type := by
  rcases resolved with ⟨parsed, selected⟩
  cases converter : result.converter with
  | none =>
      rw [converter, Registry.select_eq_none_iff] at selected
      exact ⟨⟨result.type, none⟩, ⟨parsed, Registry.select_eq_none_iff.mpr selected⟩, rfl⟩
  | some key =>
      rw [converter] at selected
      rcases Registry.exists_select_of_subset grown selected with ⟨now, selectedNow⟩
      exact ⟨⟨result.type, some now⟩, ⟨parsed, selectedNow⟩, rfl⟩

theorem ResolvesArg.of_subset (grown : registry.keys ⊆ later.keys) {text : String}
    {slot : Argument} (resolved : ResolvesArg registry text slot) :
    ∃ again, ResolvesArg later text again ∧ again.param = slot.param := by
  rcases resolved with ⟨parsed, selected⟩
  rcases Registry.exists_select_of_subset grown selected with ⟨now, selectedNow⟩
  exact ⟨⟨slot.param, now⟩, ⟨parsed, selectedNow⟩, rfl⟩

theorem Resolves.of_subset (grown : registry.keys ⊆ later.keys) {signature : Signature}
    {proto : Prototype} (resolved : signature.Resolves registry proto) :
    ∃ again, signature.Resolves later again ∧ again.declared = proto.declared := by
  rcases resolved.result.of_subset grown with ⟨result, resultResolved, sameType⟩
  rcases Outcome.exists_forall₂_of_step resolved.args
    (fun _ _ argResolved => argResolved.of_subset grown) with ⟨args, argsResolved, sameParams⟩
  exact ⟨⟨result, args⟩, ⟨resultResolved, argsResolved⟩, Prod.ext sameType sameParams⟩

/-- What is resolved stays so where there are more types, and declares the same. -/
theorem exists_resolveAll_of_subset (grown : registry.keys ⊆ later.keys) {binding : Binding}
    {signatures : List Signature} {protos : List Prototype}
    (resolved : resolveAll registry binding signatures = .ok protos) :
    ∃ again, resolveAll later binding signatures = .ok again ∧
      again.map Prototype.declared = protos.map Prototype.declared := by
  rcases Outcome.exists_forall₂_of_step (resolveAll_eq_ok_iff.mp resolved)
    (fun _ _ protoResolved => protoResolved.of_subset grown) with ⟨again, againResolved, same⟩
  exact ⟨again, resolveAll_eq_ok_iff.mpr againResolved, same⟩

end Signature

namespace Registry

/-- Registering a type is monotone.  What was selected is selected still, unless the new type
is the exact one; a selection that failed succeeds only by the exact spelling or the bare name
of the type; and what was resolved is resolved after every further history, with the same
results and arguments. -/
theorem register_monotone {registry next : Registry} {conv : Converter}
    (registered : registry.register conv = .ok next) :
    next.find? conv.key = some conv ∧
      (∀ (type : NativeType) (selected : Option TypeKey), registry.select type = .ok selected →
        next.select type = .ok (if conv.key = TypeKey.ofName type.canonical ∧ type.isVoid = false
          then some conv.key else selected)) ∧
      (∀ (type : NativeType) (fault : RegistryError), registry.select type = .error fault →
        ((∃ selected, next.select type = .ok selected) ↔
          conv.key = TypeKey.ofName type.canonical ∨ conv.key = TypeKey.ofName type.bareName)) ∧
      ∀ (calls : List Call) (binding : Binding) (signatures : List Signature)
        (protos : List Prototype),
        Signature.resolveAll registry binding signatures = .ok protos →
          ∃ again, Signature.resolveAll (next.run calls) binding signatures = .ok again ∧
            again.map Prototype.declared = protos.map Prototype.declared := by
  refine ⟨find?_of_register registered, fun _ _ => select_of_register registered,
    fun _ _ => exists_select_of_register_iff registered, ?_⟩
  intro calls binding signatures protos resolved
  have grown : registry.keys ⊆ (next.run calls).keys := by
    refine List.Subset.trans ?_ (next.keys_subset_run calls)
    rw [keys_of_register registered]
    exact List.subset_append_left _ _
  exact Signature.exists_resolveAll_of_subset grown resolved

/-- Pointers go to the type itself until they are registered on their own. -/
theorem register_monotone_pointer :
    let node : NativeType := ⟨false, none, .simple "Node", []⟩
    let pointer : NativeType := ⟨false, none, .simple "Node", [.pointer]⟩
    let registry := run {} [.register (bareConverter node)]
    let signatures : List Signature := [⟨"void", ["Node *item"]⟩]
    registry.select pointer = .ok (some node.key) ∧
      ∃ next, registry.register (bareConverter pointer) = .ok next ∧
        next.select pointer = .ok (some pointer.key) ∧
        next.select node = .ok (some node.key) ∧
        ∃ protos, Signature.resolveAll next (.function "visit") signatures = .ok protos ∧
          protos.map Prototype.declared =
            [(⟨false, none, .simple "void", []⟩, [⟨pointer, some "item"⟩])] := by
  intro node pointer registry signatures
  have selected : registry.select pointer = .ok (some node.key) := by decide +kernel
  have itself : registry.select node = .ok (some node.key) := by decide +kernel
  have free : registry.contains (bareConverter pointer).key = false := by decide +kernel
  rcases exists_register_of_free free with ⟨next, registered⟩
  rcases register_monotone registered with ⟨-, selects, -, resolves⟩
  have resolved : Signature.resolveAll registry (.function "visit") signatures =
      .ok [⟨⟨⟨false, none, .simple "void", []⟩, none⟩, [⟨⟨pointer, some "item"⟩, node.key⟩]⟩] := by
    decide +kernel
  refine ⟨selected, next, registered, ?_, ?_, resolves [] _ _ _ resolved⟩
  · rw [selects pointer _ selected, if_pos (by decide +kernel)]
    rfl
  · rw [selects node _ itself, if_neg (by decide +kernel)]

end Registry

end Bindery
