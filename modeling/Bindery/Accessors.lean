import Bindery.Dispatch.Emit

/-!
# Accessors of data members

A bound member has a getter and a setter.  Both convert the object first and
then work on the field through a pointer expression.
-/

namespace Bindery

/-- How the accessors of one member are generated. -/
structure Accessors where
  /-- The member; it always has a name. -/
  member : Param
  /-- The name of the member. -/
  name : String
  /-- The registered type that has the member. -/
  owner : TypeKey
  /-- The registered type of the member. -/
  converter : TypeKey
  getter : String
  setter : String
  /-- The field as the pointer that its conversion texts work on. -/
  fieldPointer : String
  ownership : Ownership
deriving DecidableEq, Inhabited

namespace Accessors

/-- The registered type of a member's owner or field; `void` has none. -/
def selectPart (registry : Registry) (context : String) (type : NativeType) (text : String) :
    Except BindError Converter := do
  match ← (registry.select type).mapError .registry with
  | some key => (registry.get key).mapError .registry
  | none => throw (.unsupportedArgument context 0 text)

/-- Resolve the owner, then the member, then the type of the member. -/
def resolve (registry : Registry) (context owner member : String) :
    Except BindError Accessors := do
  let ownerType ← (NativeType.parse owner).mapError .malformed
  let ownerConv ← selectPart registry context ownerType owner
  let param ← (Param.parse member).mapError .malformed
  match param.name with
  | none => throw (.malformed ⟨member, Text.byteLength member.toList, .memberName⟩)
  | some name =>
      let fieldConv ← selectPart registry context param.type param.type.canonical
      return {
        member := param
        name := name
        owner := ownerConv.key
        converter := fieldConv.key
        getter := "_" ++ ownerConv.clean ++ "_get_" ++ name
        setter := "_" ++ ownerConv.clean ++ "_set_" ++ name
        fieldPointer := fieldConv.prepare ("_self->" ++ name) param.type.marks
        ownership := .ofResult param.type.marks }

/-- The accessors of a member; a failure names the owner. -/
def plan (registry : Registry) (owner member : String) : Except BindError Accessors :=
  let context := owner ++ " member"
  (resolve registry context owner member).mapError (BindError.within context)

/-- Convert the object that an accessor is called on. -/
def convertSelf (target : Target) (owner : Converter) : Code :=
  [.line (owner.storage.declare "_self" ++ ";"), .block (owner.toNative target.self "&_self")]

/-- The entry point that reads the member. -/
def emitGetter (accessors : Accessors) (target : Target) (owner field : Converter) :
    Draft Unit := do
  target.enter ⟨.getter, accessors.getter, 0⟩
  .write (.indent :: convertSelf target owner)
  let result ← target.wrap field accessors.member.type "rval" accessors.fieldPointer
    accessors.ownership
  .write (target.commit [result])
  .write (.dedent :: target.closeEntry .getter)

/-- The entry point that writes the member. -/
def emitSetter (accessors : Accessors) (target : Target) (owner field : Converter) :
    Draft Unit := do
  target.enter ⟨.setter, accessors.setter, 1⟩
  .write (.indent :: convertSelf target owner)
  .write [.block (field.toNative (target.arg 0) accessors.fieldPointer), .dedent]
  .write (target.closeEntry .setter)

/-- Both entry points. -/
def emit (accessors : Accessors) (target : Target) (registry : Registry) : Draft Unit := do
  let owner ← Draft.converter registry accessors.owner
  let field ← Draft.converter registry accessors.converter
  accessors.emitGetter target owner field
  accessors.emitSetter target owner field

end Accessors

end Bindery
