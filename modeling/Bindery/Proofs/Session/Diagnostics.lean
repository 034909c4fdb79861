import Bindery.Proofs.Dispatch.Acceptance
import Bindery.Proofs.Session.Members

/-!
# Diagnostics of bindings

A binding can be refused for its owner, for a signature, for its dispatch tree or
for the plan of its accessors.  Each of these four names the binding in its own way,
and some errors name it themselves.  Together they name it exactly once.
-/

namespace Bindery

open Outcome

namespace BindError

/-- The bindings that an error names, from the outside in. -/
def contexts : BindError → List String
  | .malformed _ => []
  | .registry _ => []
  | .inBinding context source => context :: source.contexts
  | .emptyOverloadSet context => [context]
  | .ambiguousOverload context _ _ => [context]
  | .unsupportedArgument context _ _ => [context]
  | .unknownPrototype context _ _ => [context]
  | .unknownTemplate _ => []
  | .templateArity _ _ _ => []

/-- A malformed text or a refused type, with no binding around it. -/
inductive Bare : BindError → Prop where
  | malformed (fault : Malformed) : Bare (.malformed fault)
  | registry (error : RegistryError) : Bare (.registry error)

/-- The diagnostics of a binding: one layer around a bare error, or an error that names
the binding itself. -/
inductive Diagnoses (context : String) : BindError → Prop where
  | inBinding {source : BindError} (bare : source.Bare) :
      Diagnoses context (.inBinding context source)
  | emptyOverloadSet : Diagnoses context (.emptyOverloadSet context)
  | ambiguousOverload (argCount count : Nat) :
      Diagnoses context (.ambiguousOverload context argCount count)
  | unsupportedArgument (index : Nat) (type : String) :
      Diagnoses context (.unsupportedArgument context index type)

variable {context : String} {error : BindError}

theorem Bare.contexts_eq (bare : error.Bare) : error.contexts = [] := by
  cases bare with
  | malformed fault => rfl
  | registry error => rfl

theorem Diagnoses.contexts_eq (diagnoses : error.Diagnoses context) :
    error.contexts = [context] := by
  cases diagnoses with
  | inBinding bare => rw [contexts, bare.contexts_eq]
  | emptyOverloadSet => rfl
  | ambiguousOverload argCount count => rfl
  | unsupportedArgument index type => rfl

theorem Diagnoses.message_starts (diagnoses : error.Diagnoses context) :
    (context ++ ": ").toList <+: error.message.toList := by
  cases diagnoses <;> dsimp only [message] <;> simp

/-- Naming the binding makes a diagnostic of a bare error. -/
theorem Bare.diagnoses_within (bare : error.Bare) : (error.within context).Diagnoses context := by
  cases bare with
  | malformed fault => exact .inBinding (.malformed fault)
  | registry error => exact .inBinding (.registry error)

end BindError

/-! ## The four checks of a binding -/

section Checks

variable {registry : Registry} {context : String}

theorem owner_failsOnly_bare (text : String) : FailsOnly BindError.Bare (registry.owner text) := by
  apply FailsOnly.bind
  · exact FailsOnly.mapError fun fault _ => .malformed fault
  intro type
  apply FailsOnly.bind
  · exact FailsOnly.mapError fun error _ => .registry error
  intro selection
  cases selection with
  | none => exact failsOnly_error (.registry _)
  | some key => exact failsOnly_ok key

/-- The errors of a computation are diagnostics once the binding is named around them. -/
def Diagnosed {α : Type} (context : String) (outcome : Except BindError α) : Prop :=
  FailsOnly (fun error => (error.within context).Diagnoses context) outcome

/-- A text that is read, with its fault as the error. -/
theorem diagnosed_read {α : Type} (reading : Except Malformed α) :
    Diagnosed context (reading.mapError .malformed) :=
  FailsOnly.mapError fun fault _ => (BindError.Bare.malformed fault).diagnoses_within

/-- A type that is looked up, with the refusal of the registry as the error. -/
theorem diagnosed_lookUp {α : Type} (lookUp : Except RegistryError α) :
    Diagnosed context (lookUp.mapError .registry) :=
  FailsOnly.mapError fun error _ => (BindError.Bare.registry error).diagnoses_within

namespace Signature

theorem diagnosed_resolveResult (text : String) :
    Diagnosed context (resolveResult registry text) := by
  apply FailsOnly.bind (diagnosed_read _)
  intro type
  apply FailsOnly.bind (diagnosed_lookUp _)
  exact fun converter => failsOnly_ok _

theorem diagnosed_resolveArg (index : Nat) (text : String) :
    Diagnosed context (resolveArg registry context index text) := by
  apply FailsOnly.bind (diagnosed_read _)
  intro param
  apply FailsOnly.bind (diagnosed_lookUp _)
  intro selection
  cases selection with
  | none => exact failsOnly_error (.unsupportedArgument index _)
  | some converter => exact failsOnly_ok _

theorem diagnosed_resolveArgs (index : Nat) (texts : List String) :
    Diagnosed context (resolveArgs registry context index texts) := by
  induction texts generalizing index with
  | nil => exact failsOnly_ok []
  | cons text rest ih =>
      apply FailsOnly.bind (diagnosed_resolveArg index text)
      intro slot
      apply FailsOnly.bind (ih (index + 1))
      exact fun slots => failsOnly_ok (slot :: slots)

theorem diagnosed_resolve (signature : Signature) :
    Diagnosed context (signature.resolve registry context) := by
  apply FailsOnly.bind (diagnosed_resolveResult signature.result)
  intro result
  apply FailsOnly.bind (diagnosed_resolveArgs 0 signature.args)
  exact fun args => failsOnly_ok _

theorem diagnosed_resolveEach (signatures : List Signature) :
    Diagnosed context (resolveEach registry context signatures) := by
  induction signatures with
  | nil => exact failsOnly_ok []
  | cons signature rest ih =>
      apply FailsOnly.bind (diagnosed_resolve signature)
      intro proto
      apply FailsOnly.bind ih
      exact fun protos => failsOnly_ok (proto :: protos)

theorem resolveAll_failsOnly_diagnoses (binding : Binding) (signatures : List Signature) :
    FailsOnly (BindError.Diagnoses binding.text) (resolveAll registry binding signatures) :=
  FailsOnly.mapError (diagnosed_resolveEach signatures)

end Signature

theorem ofPrototypes_failsOnly_diagnoses (protos : List Prototype) :
    FailsOnly (BindError.Diagnoses context) (Dispatch.Tree.ofPrototypes protos context) := by
  intro error failed
  by_cases empty : protos = []
  · cases empty
    cases failed
    exact .emptyOverloadSet
  · rcases Dispatch.ambiguous_of_ofPrototypes empty failed with ⟨types, -, rfl⟩
    exact .ambiguousOverload _ _

namespace Accessors

theorem diagnosed_selectPart (type : NativeType) (text : String) :
    Diagnosed context (selectPart registry context type text) := by
  apply FailsOnly.bind (diagnosed_lookUp _)
  intro selection
  cases selection with
  | none => exact failsOnly_error (.unsupportedArgument 0 text)
  | some key => exact diagnosed_lookUp _

theorem diagnosed_resolve (owner member : String) :
    Diagnosed context (resolve registry context owner member) := by
  apply FailsOnly.bind (diagnosed_read _)
  intro ownerType
  apply FailsOnly.bind (diagnosed_selectPart ownerType owner)
  intro ownerConv
  apply FailsOnly.bind (diagnosed_read _)
  intro param
  split
  · exact failsOnly_error (BindError.Bare.malformed _).diagnoses_within
  · apply FailsOnly.bind (diagnosed_selectPart param.type _)
    exact fun fieldConv => failsOnly_ok _

theorem plan_failsOnly_diagnoses (owner member : String) :
    FailsOnly (BindError.Diagnoses (owner ++ " member")) (plan registry owner member) :=
  FailsOnly.mapError (diagnosed_resolve owner member)

end Accessors

end Checks

namespace Declare

variable {session after : Session} {error : BindError}

theorem diagnoses_of_bindOverloads {binding : Binding} {signatures : List Signature}
    {front : String} (owned : binding.Registered session.registry)
    (failed : bindOverloads binding signatures front session = .error error after) :
    error.Diagnoses binding.text := by
  rcases bindOverloads_eq_error owned failed with ⟨-, -, refused | ⟨protos, -, refused⟩⟩
  · exact Signature.resolveAll_failsOnly_diagnoses binding signatures error refused
  · exact ofPrototypes_failsOnly_diagnoses protos error refused

/-- The owner is looked up first, and a failure of that is named like any other. -/
theorem diagnoses_of_ownerFor_bind {context text : String} {next : TypeKey → Declare Unit}
    (failed : (ownerFor context text >>= next) session = .error error after)
    (later : ∀ key, session.registry.contains key = true →
      next key session = .error error after → error.Diagnoses context) :
    error.Diagnoses context := by
  rcases ownerFor_bind_eq_error failed with ⟨refused, -⟩ | ⟨key, owned, failed⟩
  · apply FailsOnly.mapError _ error refused
    exact fun source sourceFailed => .inBinding (owner_failsOnly_bare text source sourceFailed)
  · exact later key (contains_of_owner owned) failed

theorem diagnoses_of_bindMember {type member : String}
    (failed : bindMember type member session = .error error after) :
    error.Diagnoses (type ++ " member") :=
  Accessors.plan_failsOnly_diagnoses type member error (bindMember_eq_error failed).2

end Declare

/-- How a declaration that binds functions or members is named. -/
def Declaration.context? : Declaration → Option String
  | .bindFunction name _ => some ("function " ++ name)
  | .bindConstructor type _ => some (type ++ " constructor")
  | .bindMethod type name _ => some (type ++ "." ++ name ++ " method")
  | .bindMember type _ => some (type ++ " member")
  | .bindMembers type _ => some (type ++ " member")
  | _ => none

/-- A binding that is refused is named in its diagnostic exactly once, and in front: by
one layer around a malformed text or a refused type, or by an error that names the
binding itself. -/
theorem refused_binding_named_once (decl : Declaration) {context : String}
    (binds : decl.context? = some context) {session after : Session} {error : BindError}
    (refused : decl.perform session = .error error after) :
    error.Diagnoses context ∧ error.contexts = [context] ∧
      (context ++ ": ").toList <+: error.message.toList := by
  suffices diagnoses : error.Diagnoses context from
    ⟨diagnoses, diagnoses.contexts_eq, diagnoses.message_starts⟩
  cases decl with
  | bindFunction name signatures =>
      cases binds
      have refused := Declare.bind_pure_eq_error_iff.mp refused
      exact Declare.diagnoses_of_bindOverloads (Binding.registered_function name) refused
  | bindConstructor type overloads =>
      cases binds
      apply Declare.diagnoses_of_ownerFor_bind (Declare.bind_pure_eq_error_iff.mp refused)
      intro key known refused
      exact Declare.diagnoses_of_bindOverloads (Binding.registered_ctor known type) refused
  | bindMethod type name signatures =>
      cases binds
      apply Declare.diagnoses_of_ownerFor_bind (Declare.bind_pure_eq_error_iff.mp refused)
      intro key known refused
      exact Declare.diagnoses_of_bindOverloads (Binding.registered_method known type name) refused
  | bindMember type member =>
      cases binds
      exact Declare.diagnoses_of_bindMember (Declare.bind_pure_eq_error_iff.mp refused)
  | bindMembers type members =>
      cases binds
      rcases Declare.exists_refused_of_bindMembers (Declare.bind_pure_eq_error_iff.mp refused) with
        ⟨_, _, _, _, -, -, memberRefused⟩
      exact Declare.diagnoses_of_bindMember memberRefused
  | _ => cases binds

/-- The error of a step that fails. -/
def Declare.error? {α : Type} (step : Declare α) (session : Session) : Option BindError :=
  match step session with
  | .ok _ _ => none
  | .error error _ => some error

theorem Declare.error?_eq_some_iff {α : Type} {step : Declare α} {session : Session}
    {error : BindError} :
    step.error? session = some error ↔ ∃ after, step session = .error error after := by
  rw [error?]
  cases step session with
  | ok value after => simp
  | error found after => simp

/-- A method of a type that is not registered is named around the refusal of the registry;
a member of type `void` is named by the error itself. -/
theorem refused_binding_named_once_void_member :
    let method : Declaration := .bindMethod "Node" "run" [⟨"void", ["int"]⟩]
    let member : Declaration := .bindMember "int" "void rest"
    (method.context? = some "Node.run method" ∧ member.context? = some "int member") ∧
      (∃ error after, method.perform intSession = .error error after ∧
        error = .inBinding "Node.run method" (.registry (.typeNotFound "Node")) ∧
        error.contexts = ["Node.run method"]) ∧
      ∃ error after, member.perform intSession = .error error after ∧
        error = .unsupportedArgument "int member" 0 "void" ∧
        error.contexts = ["int member"] := by
  intro method member
  have names : method.context? = some "Node.run method" ∧
      member.context? = some "int member" := by decide +kernel
  have methodFails : method.perform.error? intSession =
      some (.inBinding "Node.run method" (.registry (.typeNotFound "Node"))) := by decide +kernel
  have memberFails : member.perform.error? intSession =
      some (.unsupportedArgument "int member" 0 "void") := by decide +kernel
  rcases Declare.error?_eq_some_iff.mp methodFails with ⟨methodAfter, methodRefused⟩
  rcases Declare.error?_eq_some_iff.mp memberFails with ⟨memberAfter, memberRefused⟩
  exact ⟨names,
    ⟨_, methodAfter, methodRefused, rfl,
      (refused_binding_named_once method names.1 methodRefused).2.1⟩,
    ⟨_, memberAfter, memberRefused, rfl,
      (refused_binding_named_once member names.2 memberRefused).2.1⟩⟩

end Bindery
