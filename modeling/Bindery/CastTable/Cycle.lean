import Bindery.Registry.Inheritance

/-!
# Cycles of base links

A registry whose base links run in a circle has no cast table.  This module
picks the link that the failure names.  A type that is its own base comes
first, in the order in which a depth-first walk through all types meets them;
otherwise the type on a cycle that the walk leaves last is taken, and the first
registered type that links back to it.
-/

namespace Bindery.Registry

/-- Whether a chain of no, one or several base links leads from one type to
another. -/
def reaches (registry : Registry) (source target : TypeKey) : Bool :=
  source = target || target ∈ registry.ancestors source

/-- The registered types as a depth-first walk first meets them. -/
def meetingOrder (registry : Registry) : List TypeKey :=
  Graph.preorder registry.basesOf registry.handles registry.keys

/-- The registered types as a depth-first walk is done with them. -/
def leavingOrder (registry : Registry) : List TypeKey :=
  Graph.postorder registry.basesOf registry.handles (registry.keys.map .enter)

/-- A type with a base link that lies on a cycle. -/
def cyclicType? (registry : Registry) : Option TypeKey :=
  match registry.meetingOrder.find? fun key => key ∈ registry.basesOf key with
  | some key => some key
  | none =>
      match registry.leavingOrder.reverse.find? fun key => key ∈ registry.ancestors key with
      | some last =>
          registry.keys.find? fun key =>
            last ∈ registry.basesOf key && key ∈ registry.ancestors last
      | none => none

/-- How a registered type is called in a message. -/
def nameOf (registry : Registry) (key : TypeKey) : String :=
  match registry.find? key with
  | some conv => conv.canonical
  | none => key.text

/-- The error that names a type on a cycle: of its bases, the last declared one that
leads back to it. -/
def cycleErrorAt (registry : Registry) (key : TypeKey) : RegistryError :=
  match (registry.basesOf key).reverse.find? fun base => registry.reaches base key with
  | some base =>
      if base = key then .selfInheritance (registry.nameOf key)
      else .cyclicInheritance (registry.nameOf key) (registry.nameOf base)
  | none => .selfInheritance (registry.nameOf key)

/-- The error that names a cycle, if there is one. -/
def cycleError? (registry : Registry) : Option RegistryError :=
  registry.cyclicType?.map registry.cycleErrorAt

end Bindery.Registry
