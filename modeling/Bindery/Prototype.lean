import Bindery.NativeType.Basic

/-!
# Prototypes

A prototype is one call signature whose types have been resolved to registered
types.
-/

namespace Bindery

/-- The result of a call; only `void` has no registered type. -/
structure Return where
  type : NativeType
  converter : Option TypeKey
deriving DecidableEq, Inhabited

/-- One argument of a call. -/
structure Argument where
  param : Param
  converter : TypeKey
deriving DecidableEq, Inhabited

/-- A resolved call signature. -/
structure Prototype where
  result : Return
  args : List Argument
deriving DecidableEq, Inhabited

namespace Prototype

/-- Number of arguments. -/
def arity (proto : Prototype) : Nat :=
  proto.args.length

/-- The registered types of the arguments, in order. -/
def converters (proto : Prototype) : List TypeKey :=
  proto.args.map Argument.converter

@[simp]
theorem length_converters (proto : Prototype) : proto.converters.length = proto.arity := by
  simp [converters, arity]

end Prototype

/-- A construct that has been bound: its name, the generated entry point, and
the signatures that it answers to. -/
structure OverloadSet where
  name : String
  proxy : String
  protos : List Prototype
deriving DecidableEq, Inhabited

end Bindery
