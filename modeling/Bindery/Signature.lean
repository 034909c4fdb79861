import Bindery.Binding
import Bindery.Registry.Basic

/-!
# Signatures

A signature is declared by the texts of its types.  Against a registry it
becomes a prototype.
-/

namespace Bindery

/-- The registered type that a text names as the owner of a constructor or
method; `void` owns nothing. -/
def Registry.owner (registry : Registry) (text : String) : Except BindError TypeKey := do
  let type ← (NativeType.parse text).mapError .malformed
  match ← (registry.select type).mapError .registry with
  | some key => return key
  | none => throw (.registry (.typeNotFound text))

/-- A call signature as declared. -/
structure Signature where
  result : String
  args : List String
deriving DecidableEq, Inhabited

namespace Signature

/-- Resolve the text of a result type. -/
def resolveResult (registry : Registry) (text : String) : Except BindError Return := do
  let type ← (NativeType.parse text).mapError .malformed
  let converter ← (registry.select type).mapError .registry
  return ⟨type, converter⟩

/-- Resolve the text of the argument at a position. -/
def resolveArg (registry : Registry) (context : String) (index : Nat) (text : String) :
    Except BindError Argument := do
  let param ← (Param.parse text).mapError .malformed
  match ← (registry.select param.type).mapError .registry with
  | some converter => return ⟨param, converter⟩
  | none => throw (.unsupportedArgument context index param.type.canonical)

/-- Resolve the texts of the arguments from a position on. -/
def resolveArgs (registry : Registry) (context : String) :
    (index : Nat) → List String → Except BindError (List Argument)
  | _, [] => return []
  | index, text :: rest => do
      let slot ← resolveArg registry context index text
      let slots ← resolveArgs registry context (index + 1) rest
      return slot :: slots

/-- Resolve a signature: its result first, then its arguments in order. -/
def resolve (registry : Registry) (context : String) (signature : Signature) :
    Except BindError Prototype := do
  let result ← resolveResult registry signature.result
  let args ← resolveArgs registry context 0 signature.args
  return ⟨result, args⟩

/-- Resolve signatures in order, up to the first failure. -/
def resolveEach (registry : Registry) (context : String) :
    List Signature → Except BindError (List Prototype)
  | [] => return []
  | signature :: rest => do
      let proto ← signature.resolve registry context
      let protos ← resolveEach registry context rest
      return proto :: protos

/-- The prototypes of an overload set; a failure names the binding. -/
def resolveAll (registry : Registry) (binding : Binding) (signatures : List Signature) :
    Except BindError (List Prototype) :=
  (resolveEach registry binding.text signatures).mapError (BindError.within binding.text)

end Signature

end Bindery
