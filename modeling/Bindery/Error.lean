/-!
# Causes of failure

What can be wrong with a declared interface, as data, and the one wording of
each cause.
-/

namespace Bindery

/-- What a reader of type expressions looked for. -/
inductive Expectation where
  | typeName
  | referenceSuffix
  | endOfExpression
  | memberName
deriving DecidableEq, Inhabited

/-- The expectation in a message. -/
def Expectation.text : Expectation → String
  | .typeName => "type name"
  | .referenceSuffix => "reference suffix"
  | .endOfExpression => "end of expression"
  | .memberName => "member name"

/-- A text that is no type expression, with the byte at which reading stopped. -/
structure Malformed where
  text : String
  offset : Nat
  expected : Expectation
deriving DecidableEq, Inhabited

/-- The wording of a malformed expression. -/
def Malformed.message (fault : Malformed) : String :=
  "malformed type expression '" ++ fault.text ++ "': expected " ++ fault.expected.text ++
    " at offset " ++ toString fault.offset

/-- A type or a base link that the registry refuses. -/
inductive RegistryError where
  | typeNotFound (name : String)
  | duplicateType (name : String)
  | cyclicInheritance (derived base : String)
  | selfInheritance (name : String)
deriving DecidableEq, Inhabited

/-- The wording of a registry error. -/
def RegistryError.message : RegistryError → String
  | .typeNotFound name => "type not found: " ++ name
  | .duplicateType name => "duplicate type: " ++ name
  | .cyclicInheritance derived base =>
      "'" ++ derived ++ "' cannot derive from '" ++ base ++ "': '" ++ base ++
        "' already derives from '" ++ derived ++ "'"
  | .selfInheritance name => "'" ++ name ++ "' cannot derive from itself"

/-- Why a declaration cannot be turned into code. -/
inductive BindError where
  | malformed (fault : Malformed)
  | registry (error : RegistryError)
  | inBinding (context : String) (source : BindError)
  | emptyOverloadSet (context : String)
  | ambiguousOverload (context : String) (argCount count : Nat)
  | unsupportedArgument (context : String) (index : Nat) (type : String)
  | unknownPrototype (context : String) (index count : Nat)
  | unknownTemplate (name : String)
  | templateArity (template : String) (expected found : Nat)
deriving DecidableEq, Inhabited

namespace BindError

/-- The wording of a failed declaration. -/
def message : BindError → String
  | .malformed fault => fault.message
  | .registry error => error.message
  | .inBinding context source => context ++ ": " ++ source.message
  | .emptyOverloadSet context => context ++ ": no prototype declared"
  | .ambiguousOverload context argCount count =>
      context ++ ": " ++ toString count ++ " prototypes taking " ++ toString argCount ++
        " argument(s) cannot be told apart by argument type"
  | .unsupportedArgument context index type =>
      context ++ ": argument " ++ toString index ++ " of type '" ++ type ++ "' has no converter"
  | .unknownPrototype context index count =>
      context ++ ": dispatch tree refers to prototype " ++ toString index ++ ", only " ++
        toString count ++ " given"
  | .unknownTemplate name => "unknown function template '" ++ name ++ "'"
  | .templateArity template expected found =>
      "function template '" ++ template ++ "' takes " ++ toString expected ++
        " parameter(s), " ++ toString found ++ " given"

/-- Name the binding that an error arose in, unless the error already does. -/
def within (context : String) : BindError → BindError
  | .unsupportedArgument own index type => .unsupportedArgument own index type
  | error => .inBinding context error

end BindError

end Bindery
