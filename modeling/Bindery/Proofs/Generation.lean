import Bindery.Accessors
import Bindery.Proofs.Code.Rendering
import Bindery.Proofs.Dispatch.Building
import Bindery.Proofs.Dispatch.Printing
import Bindery.Proofs.Resolution

/-!
# What has been resolved can be generated

Resolving a declaration looks up every type that its code needs.  In the same
registry generation finds them again, and a tree that is built from prototypes
calls only these prototypes.  So once a declaration is resolved, generating its
code does not fail.
-/

namespace Bindery

namespace Draft

variable {α β : Type}

/-- Generation does not stop at an error. -/
def Completes (draft : Draft α) : Prop :=
  ∃ value, draft.outcome = .ok value

theorem Completes.andThen {draft : Draft α} {next : α → Draft β} (first : draft.Completes)
    (later : ∀ value, (next value).Completes) : (draft.andThen next).Completes := by
  obtain ⟨value, done⟩ := first
  obtain ⟨result, finished⟩ := later value
  exact ⟨result, outcome_andThen_eq_ok_iff.mpr ⟨value, done, finished⟩⟩

theorem completes_write (code : Code) : (write code).Completes :=
  ⟨(), rfl⟩

theorem completes_pure (value : α) : (pure value : Draft α).Completes :=
  ⟨value, rfl⟩

theorem completes_enter (target : Target) (entry : EntryPoint) : (target.enter entry).Completes :=
  ⟨(), rfl⟩

theorem completes_wrap (target : Target) (conv : Converter) (type : NativeType)
    (name inPointer : String) (ownership : Ownership) :
    (target.wrap conv type name inPointer ownership).Completes :=
  ⟨_, rfl⟩

theorem completes_converter {registry : Registry} {key : TypeKey}
    (known : registry.contains key = true) : (converter registry key).Completes := by
  obtain ⟨conv, found⟩ := Registry.contains_iff_exists_find?.mp known
  exact ⟨conv, Outcome.mapError_eq_ok_iff.mpr (Registry.get_eq_ok_iff.mpr found)⟩

end Draft

/-! ## Resolution and trees -/

/-- The types of a prototype are registered. -/
structure Prototype.Registered (registry : Registry) (proto : Prototype) : Prop where
  args : ∀ slot ∈ proto.args, registry.contains slot.converter = true
  result : ∀ key, proto.result.converter = some key → registry.contains key = true

/-- The type that owns an overload set, if one does, is registered. -/
def Binding.Registered (registry : Registry) (binding : Binding) : Prop :=
  ∀ key, binding.converter? = some key → registry.contains key = true

theorem Binding.registered_function {registry : Registry} (name : String) :
    (Binding.function name).Registered registry := by
  intro key owner
  cases owner

theorem Binding.registered_ctor {registry : Registry} {key : TypeKey}
    (known : registry.contains key = true) (owner : String) :
    (Binding.ctor owner key).Registered registry := by
  rintro _ ⟨⟩
  exact known

theorem Binding.registered_method {registry : Registry} {key : TypeKey}
    (known : registry.contains key = true) (owner name : String) :
    (Binding.method owner name key).Registered registry := by
  rintro _ ⟨⟩
  exact known

section Resolution

variable {registry : Registry}

theorem owner_eq_ok_iff {text : String} {key : TypeKey} :
    registry.owner text = .ok key ↔
      ∃ type, NativeType.parse text = .ok type ∧ registry.select type = .ok (some key) := by
  rw [Registry.owner, Outcome.bind_eq_ok_iff]
  simp only [Outcome.mapError_eq_ok_iff]
  apply exists_congr
  intro type
  apply and_congr_right
  intro _
  rw [Outcome.bind_eq_ok_iff]
  constructor
  · rintro ⟨_ | found, selected, owned⟩
    · cases owned
    · cases owned
      exact Outcome.mapError_eq_ok_iff.mp selected
  · exact fun selected => ⟨some key, Outcome.mapError_eq_ok_iff.mpr selected, rfl⟩

theorem contains_of_owner {text : String} {key : TypeKey}
    (owned : registry.owner text = .ok key) : registry.contains key = true := by
  rcases owner_eq_ok_iff.mp owned with ⟨type, -, selected⟩
  exact Registry.contains_of_select selected

theorem registered_of_resolves {signature : Signature} {proto : Prototype}
    (resolved : signature.Resolves registry proto) : proto.Registered registry := by
  constructor
  · intro slot member
    obtain ⟨_, -, -, selected⟩ := Outcome.exists_of_mem_right resolved.args member
    exact Registry.contains_of_select selected
  · intro key found
    have selected := resolved.result.2
    rw [found] at selected
    exact Registry.contains_of_select selected

theorem registered_of_resolveAll {binding : Binding} {signatures : List Signature}
    {protos : List Prototype}
    (resolved : Signature.resolveAll registry binding signatures = .ok protos) :
    ∀ proto ∈ protos, proto.Registered registry := by
  intro proto member
  obtain ⟨_, -, protoResolved⟩ :=
    Outcome.exists_of_mem_right (Signature.resolveAll_eq_ok_iff.mp resolved) member
  exact registered_of_resolves protoResolved

end Resolution

namespace Dispatch

/-- A node asks for registered types only, and calls prototypes of a set of the
given size. -/
inductive Node.Within (registry : Registry) (count : Nat) : Node → Prop where
  | call {proto : Nat} (inside : proto < count) : Within registry count (.call proto)
  | check (argIndex : Nat) {branches : List (TypeKey × Node)}
      (known : ∀ branch ∈ branches, registry.contains branch.1 = true)
      (below : ∀ branch ∈ branches, Within registry count branch.2) :
      Within registry count (.check argIndex branches)

section Building

variable {registry : Registry} {count : Nat}

/-- A candidate stands for a prototype of a set of the given size and asks for
registered types only. -/
structure Candidate.Within (registry : Registry) (count : Nat) (candidate : Candidate) :
    Prop where
  inside : candidate.index < count
  known : ∀ key ∈ candidate.converters, registry.contains key = true

theorem Candidate.Within.converterAt {candidate : Candidate} {argIndex : Nat}
    (within : candidate.Within registry count) (inside : argIndex < candidate.arity) :
    registry.contains (candidate.converterAt argIndex) = true := by
  apply within.known
  exact List.mem_of_getElem? (getElem?_converters inside)

theorem within_ofCandidates {context : String} {remaining argIndex : Nat}
    {candidates : List Candidate} {node : Node}
    (within : ∀ candidate ∈ candidates, candidate.Within registry count)
    (arity : ∀ candidate ∈ candidates, candidate.arity = argIndex + remaining)
    (built : Node.ofCandidates context remaining argIndex candidates = .ok node) :
    node.Within registry count := by
  induction remaining generalizing argIndex candidates node with
  | zero =>
      obtain ⟨candidate, rfl, rfl⟩ := ofCandidates_zero_eq_ok_iff.mp built
      exact .call (within candidate List.mem_cons_self).inside
  | succ remaining ih =>
      obtain ⟨branches, rfl, branchesBuilt⟩ := ofCandidates_succ_eq_ok_iff.mp built
      apply Node.Within.check
      · intro branch member
        obtain ⟨group, groupMember, sameKey, -⟩ := Outcome.exists_of_mem_right branchesBuilt member
        obtain ⟨⟨candidate, listed, asked⟩, -⟩ := (mem_groupBy_iff _ _ _).mp groupMember
        rw [sameKey, ← asked]
        apply (within candidate listed).converterAt
        rw [arity candidate listed]
        exact Nat.lt_add_of_pos_right (Nat.succ_pos remaining)
      · intro branch member
        obtain ⟨group, groupMember, -, built⟩ := Outcome.exists_of_mem_right branchesBuilt member
        have listed : ∀ candidate ∈ group.2, candidate ∈ candidates :=
          fun _ inGroup => (mem_and_key_of_mem_group groupMember inGroup).1
        apply ih _ _ built
        · exact fun candidate inGroup => within candidate (listed candidate inGroup)
        · intro candidate inGroup
          rw [arity candidate (listed candidate inGroup), Nat.add_right_comm, Nat.add_assoc]

theorem candidate_within {protos : List Prototype}
    (registered : ∀ proto ∈ protos, proto.Registered registry) :
    ∀ candidate ∈ Candidate.ofPrototypes protos, candidate.Within registry protos.length := by
  intro candidate member
  obtain ⟨⟨proto, index⟩, entry, rfl⟩ := List.mem_map.mp member
  have stands := List.mem_zipIdx_iff_getElem?.mp entry
  constructor
  · exact (List.getElem?_eq_some_iff.mp stands).1
  · intro key asked
    obtain ⟨slot, slotMember, rfl⟩ := List.mem_map.mp asked
    exact (registered proto (List.mem_of_getElem? stands)).args slot slotMember

/-- A tree that is built from prototypes of registered types stays within them. -/
theorem within_ofPrototypes {protos : List Prototype} {context : String} {tree : Tree}
    (registered : ∀ proto ∈ protos, proto.Registered registry)
    (built : Tree.ofPrototypes protos context = .ok tree) :
    ∀ arm ∈ tree.arms, arm.root.Within registry protos.length := by
  obtain ⟨-, -, armsBuilt⟩ := ofPrototypes_eq_ok_iff.mp built
  intro arm member
  obtain ⟨group, groupMember, -, rootBuilt⟩ := Outcome.exists_of_mem_right armsBuilt member
  apply within_ofCandidates _ (arity_of_mem_group groupMember) rootBuilt
  intro candidate inGroup
  exact candidate_within registered candidate (mem_and_key_of_mem_group groupMember inGroup).1

end Building

/-! ## Generated code -/

/-- The types that an emitter works with are registered. -/
structure Emitter.Registered (emitter : Emitter) : Prop where
  owner : emitter.binding.Registered emitter.registry
  protos : ∀ proto ∈ emitter.protos, proto.Registered emitter.registry

section Emission

variable {emitter : Emitter} (registered : emitter.Registered)

include registered

theorem completes_convertSelf : emitter.convertSelf.Completes := by
  unfold Emitter.convertSelf
  split
  · next owner name key bound =>
      have known : emitter.registry.contains key = true :=
        registered.owner key (by rw [bound]; rfl)
      apply (Draft.completes_converter known).andThen
      exact fun conv => Draft.completes_write _
  · exact Draft.completes_pure ()

omit registered in
theorem completes_convertArgs {index : Nat} {slots : List Argument}
    (known : ∀ slot ∈ slots, emitter.registry.contains slot.converter = true) :
    (emitter.convertArgs index slots).Completes := by
  induction slots generalizing index with
  | nil => exact Draft.completes_pure []
  | cons slot rest ih =>
      rw [List.forall_mem_cons] at known
      apply (Draft.completes_converter known.1).andThen
      intro conv
      apply (Draft.completes_write _).andThen
      intro _
      apply (ih known.2).andThen
      exact fun others => Draft.completes_pure _

omit registered in
theorem completes_callNative {callee args : String} {result : Return}
    (known : ∀ key, result.converter = some key → emitter.registry.contains key = true) :
    (emitter.callNative callee result args).Completes := by
  unfold Emitter.callNative
  split
  · next key converted =>
      apply (Draft.completes_converter (known key converted)).andThen
      intro conv
      apply (Draft.completes_write _).andThen
      intro _
      apply (Draft.completes_wrap _ _ _ _ _ _).andThen
      exact fun output => Draft.completes_pure _
  · apply (Draft.completes_write _).andThen
    exact fun _ => Draft.completes_pure _

omit registered in
theorem completes_construct {owner : TypeKey} {args : String} {result : Return}
    (ownerKnown : emitter.registry.contains owner = true)
    (known : ∀ key, result.converter = some key → emitter.registry.contains key = true) :
    (emitter.construct owner result args).Completes := by
  have constructed : emitter.registry.contains (result.converter.getD owner) = true := by
    cases converted : result.converter with
    | none => exact ownerKnown
    | some key => exact known key converted
  apply (Draft.completes_converter constructed).andThen
  intro conv
  apply (Draft.completes_write _).andThen
  intro _
  apply (Draft.completes_wrap _ _ _ _ _ _).andThen
  exact fun output => Draft.completes_pure _

theorem completes_invoke {args : String} {result : Return}
    (known : ∀ key, result.converter = some key → emitter.registry.contains key = true) :
    (emitter.invoke result args).Completes := by
  unfold Emitter.invoke
  split
  · next owner key bound =>
      exact completes_construct (registered.owner key (by rw [bound]; rfl)) known
  · exact completes_callNative known
  · exact completes_callNative known

theorem completes_callAt {index : Nat} (inside : index < emitter.protos.length) :
    (emitter.callAt index).Completes := by
  have proto := registered.protos _ (List.getElem_mem inside)
  rw [Emitter.callAt, List.getElem?_eq_getElem inside]
  apply (completes_convertSelf registered).andThen
  intro _
  apply (completes_convertArgs proto.args).andThen
  intro args
  apply (completes_invoke registered proto.result).andThen
  exact fun results => Draft.completes_write _

omit registered in
theorem completes_rungs {argIndex : Nat} {first : Bool} {branches : List (TypeKey × Node)}
    (known : ∀ branch ∈ branches, emitter.registry.contains branch.1 = true)
    (below : ∀ branch ∈ branches, (emitter.node branch.2).Completes) :
    (emitter.rungs argIndex first branches).Completes := by
  induction branches generalizing first with
  | nil => exact Draft.completes_pure ()
  | cons branch rest ih =>
      rcases branch with ⟨key, next⟩
      rw [List.forall_mem_cons] at known below
      rw [Emitter.rungs]
      apply (Draft.completes_converter known.1).andThen
      intro conv
      apply (Draft.completes_write _).andThen
      intro _
      apply below.1.andThen
      intro _
      apply (Draft.completes_write _).andThen
      exact fun _ => ih known.2 below.2

theorem completes_node {node : Node}
    (within : node.Within emitter.registry emitter.protos.length) :
    (emitter.node node).Completes := by
  induction within with
  | call inside =>
      rw [Emitter.node]
      exact completes_callAt registered inside
  | check argIndex known _ ih =>
      rw [Emitter.node]
      apply (completes_rungs known ih).andThen
      exact fun _ => Draft.completes_write _

theorem completes_arms {first : Bool} {arms : List Arm}
    (within : ∀ arm ∈ arms, arm.root.Within emitter.registry emitter.protos.length) :
    (emitter.arms first arms).Completes := by
  induction arms generalizing first with
  | nil => exact Draft.completes_pure ()
  | cons arm rest ih =>
      rw [List.forall_mem_cons] at within
      apply (Draft.completes_write _).andThen
      intro _
      apply (completes_node registered within.1).andThen
      intro _
      apply (Draft.completes_write _).andThen
      exact fun _ => ih within.2

end Emission

/-- The code of an overload set is generated whenever its tree is built from
prototypes that have been resolved. -/
theorem completes_emit {target : Target} {registry : Registry} {binding : Binding}
    {protos : List Prototype} {context : String} {tree : Tree}
    (owned : binding.Registered registry)
    (registered : ∀ proto ∈ protos, proto.Registered registry)
    (built : Tree.ofPrototypes protos context = .ok tree) :
    (tree.emit target registry binding protos).Completes := by
  let emitter : Emitter := ⟨target, registry, binding, protos, tree.context⟩
  have emitterRegistered : emitter.Registered := ⟨owned, registered⟩
  apply (Draft.completes_enter _ _).andThen
  intro _
  apply (Draft.completes_write _).andThen
  intro _
  apply (completes_arms emitterRegistered (within_ofPrototypes registered built)).andThen
  intro _
  apply (Draft.completes_write _).andThen
  intro _
  apply (Draft.completes_write _).andThen
  intro _
  apply (Draft.completes_write _).andThen
  exact fun _ => Draft.completes_write _

end Dispatch

namespace Accessors

variable {registry : Registry}

theorem selectPart_eq_ok_iff {context text : String} {type : NativeType} {conv : Converter} :
    selectPart registry context type text = .ok conv ↔
      registry.select type = .ok (some conv.key) ∧ registry.find? conv.key = some conv := by
  rw [selectPart, Outcome.bind_eq_ok_iff]
  constructor
  · rintro ⟨_ | key, selected, found⟩
    · cases found
    · replace found := Registry.get_eq_ok_iff.mp (Outcome.mapError_eq_ok_iff.mp found)
      rw [(Registry.find?_eq_some_iff.mp found).2]
      exact ⟨Outcome.mapError_eq_ok_iff.mp selected, found⟩
  · rintro ⟨selected, found⟩
    exact ⟨some conv.key, Outcome.mapError_eq_ok_iff.mpr selected,
      Outcome.mapError_eq_ok_iff.mpr (Registry.get_eq_ok_iff.mpr found)⟩

/-- What planned accessors are made from: the owner, the member and the type of the
member. -/
theorem exists_of_plan {owner member : String} {accessors : Accessors}
    (planned : plan registry owner member = .ok accessors) :
    ∃ ownerType ownerConv param name fieldConv,
      NativeType.parse owner = .ok ownerType ∧
      registry.select ownerType = .ok (some ownerConv.key) ∧
      registry.find? ownerConv.key = some ownerConv ∧
      Param.parse member = .ok param ∧ param.name = some name ∧
      registry.select param.type = .ok (some fieldConv.key) ∧
      registry.find? fieldConv.key = some fieldConv ∧
      accessors = {
        member := param
        name := name
        owner := ownerConv.key
        converter := fieldConv.key
        getter := "_" ++ ownerConv.clean ++ "_get_" ++ name
        setter := "_" ++ ownerConv.clean ++ "_set_" ++ name
        fieldPointer := fieldConv.prepare ("_self->" ++ name) param.type.marks
        ownership := .ofResult param.type.marks } := by
  replace planned := Outcome.mapError_eq_ok_iff.mp planned
  rcases Outcome.bind_eq_ok_iff.mp planned with ⟨ownerType, ownerParsed, planned⟩
  rcases Outcome.bind_eq_ok_iff.mp planned with ⟨ownerConv, ownerSelected, planned⟩
  rcases Outcome.bind_eq_ok_iff.mp planned with ⟨param, memberParsed, planned⟩
  rcases selectPart_eq_ok_iff.mp ownerSelected with ⟨ownerChosen, ownerFound⟩
  split at planned
  · cases planned
  · next name named =>
      rcases Outcome.bind_eq_ok_iff.mp planned with ⟨fieldConv, fieldSelected, same⟩
      rcases selectPart_eq_ok_iff.mp fieldSelected with ⟨fieldChosen, fieldFound⟩
      exact ⟨ownerType, ownerConv, param, name, fieldConv, Outcome.mapError_eq_ok_iff.mp ownerParsed,
        ownerChosen, ownerFound, Outcome.mapError_eq_ok_iff.mp memberParsed, named, fieldChosen,
        fieldFound, (Outcome.pure_eq_ok_iff.mp same).symm⟩

/-- The types that planned accessors work with are registered. -/
theorem contains_of_plan {owner member : String} {accessors : Accessors}
    (planned : plan registry owner member = .ok accessors) :
    registry.contains accessors.owner = true ∧ registry.contains accessors.converter = true := by
  rcases exists_of_plan planned with
    ⟨_, _, _, _, _, -, ownerChosen, -, -, -, fieldChosen, -, rfl⟩
  exact ⟨Registry.contains_of_select ownerChosen, Registry.contains_of_select fieldChosen⟩

/-- The code of planned accessors is generated. -/
theorem completes_emit {owner member : String} {accessors : Accessors} {target : Target}
    (planned : plan registry owner member = .ok accessors) :
    (accessors.emit target registry).Completes := by
  obtain ⟨ownerKnown, fieldKnown⟩ := contains_of_plan planned
  apply (Draft.completes_converter ownerKnown).andThen
  intro ownerConv
  apply (Draft.completes_converter fieldKnown).andThen
  intro fieldConv
  -- Neither accessor looks anything up.
  have getter : (accessors.emitGetter target ownerConv fieldConv).Completes := ⟨_, rfl⟩
  have setter : (accessors.emitSetter target ownerConv fieldConv).Completes := ⟨_, rfl⟩
  exact getter.andThen fun _ => setter

end Accessors

/-- Generation fails nowhere behind resolution: not for an overload set whose signatures
were resolved and came to a tree, if its owner is registered, and not for a member whose
accessors were planned. -/
theorem resolved_generates (target : Target) (registry : Registry) :
    (∀ (binding : Binding) (signatures : List Signature) (protos : List Prototype)
        (context : String) (tree : Dispatch.Tree),
        binding.Registered registry →
        Signature.resolveAll registry binding signatures = .ok protos →
        Dispatch.Tree.ofPrototypes protos context = .ok tree →
          (tree.emit target registry binding protos).outcome = .ok ()) ∧
      ∀ (owner member : String) (accessors : Accessors),
        Accessors.plan registry owner member = .ok accessors →
          (accessors.emit target registry).outcome = .ok () := by
  constructor
  · intro binding signatures protos context tree owned resolved built
    have completes : (tree.emit target registry binding protos).Completes :=
      Dispatch.completes_emit owned (registered_of_resolveAll resolved) built
    obtain ⟨_, done⟩ := completes
    exact done
  · intro owner member accessors planned
    have completes : (accessors.emit target registry).Completes := Accessors.completes_emit planned
    obtain ⟨_, done⟩ := completes
    exact done

/-- Two overloads of a method, one of which returns its own class, and a member. -/
theorem resolved_generates_node :
    let binding : Binding := .method "Node" "set" (TypeKey.ofName "Node")
    let signatures : List Signature := [⟨"void", ["int id", "Node *next"]⟩, ⟨"Node &", ["int"]⟩]
    ∃ registry protos tree accessors, Dispatch.nodeRegistry = .ok registry ∧
      binding.Registered registry ∧
      Signature.resolveAll registry binding signatures = .ok protos ∧
      Dispatch.Tree.ofPrototypes protos binding.text = .ok tree ∧
      Accessors.plan registry "Node" "int id" = .ok accessors ∧
      (tree.emit Dispatch.plainTarget registry binding protos).outcome = .ok () ∧
      (accessors.emit Dispatch.plainTarget registry).outcome = .ok () := by
  intro binding signatures
  have succeeds : (do
      let registry ← Dispatch.nodeRegistry.mapError .registry
      let protos ← Signature.resolveAll registry binding signatures
      let _ ← Dispatch.Tree.ofPrototypes protos binding.text
      let _ ← Accessors.plan registry "Node" "int id"
      return registry.contains (TypeKey.ofName "Node") : Except BindError Bool) = .ok true := by
    decide +kernel
  obtain ⟨registry, made, succeeds⟩ := Outcome.bind_eq_ok_iff.mp succeeds
  obtain ⟨protos, resolved, succeeds⟩ := Outcome.bind_eq_ok_iff.mp succeeds
  obtain ⟨tree, built, succeeds⟩ := Outcome.bind_eq_ok_iff.mp succeeds
  obtain ⟨accessors, planned, known⟩ := Outcome.bind_eq_ok_iff.mp succeeds
  have owned : binding.Registered registry := by
    intro key owner
    cases owner
    exact Outcome.pure_eq_ok_iff.mp known
  obtain ⟨overloads, members⟩ := resolved_generates Dispatch.plainTarget registry
  exact ⟨registry, protos, tree, accessors, Outcome.mapError_eq_ok_iff.mp made, owned, resolved,
    built, planned, overloads binding signatures protos binding.text tree owned resolved built,
    members "Node" "int id" accessors planned⟩

end Bindery
