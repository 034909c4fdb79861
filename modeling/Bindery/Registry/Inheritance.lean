import Bindery.Graph.DepthFirst
import Bindery.Registry.Basic

/-!
# Inheritance

Base links lead from a type to the keys of its direct bases.  A link that would
close a cycle is refused, so in a registry built by declarations no chain of
links is longer than the number of registered types; walks that follow chains
are bounded by that number.
-/

namespace Bindery.Registry

/-- Keys of the direct bases; an unregistered key has none. -/
def basesOf (registry : Registry) (key : TypeKey) : List TypeKey :=
  match registry.find? key with
  | some conv => conv.bases
  | none => []

/-- Every key that is registered or named as a base, once. -/
def handles (registry : Registry) : List TypeKey :=
  (registry.keys ++ registry.converters.flatMap (·.bases)).eraseDups

/-- Direct and transitive bases, each once, in the order of a depth-first walk
along the declared bases. -/
def ancestors (registry : Registry) (key : TypeKey) : List TypeKey :=
  Graph.preorder registry.basesOf registry.handles (registry.basesOf key)

/-- Make `base` a direct base of `derived`; a link that is already there stays
as it is. -/
def addBase (registry : Registry) (derived base : TypeKey) : Except RegistryError Registry := do
  let derivedConv ← registry.get derived
  let baseConv ← registry.get base
  if derived = base then
    throw (.selfInheritance derivedConv.canonical)
  if derived ∈ registry.ancestors base then
    throw (.cyclicInheritance derivedConv.canonical baseConv.canonical)
  return registry.modify derived (·.withBase base) (·.key_withBase base)

/-- Whether a type of the given identifier-safe spelling is met on a chain of
at most `depth` types that starts at `key`. -/
def reachesClean (registry : Registry) (target : String) : (depth : Nat) → TypeKey → Bool
  | 0, _ => false
  | depth + 1, key =>
      match registry.find? key with
      | none => false
      | some conv =>
          conv.clean == target || conv.bases.any (registry.reachesClean target depth)

/-- Whether a value of the type registered under `key` can be used as `target`. -/
def usableAs (registry : Registry) (key : TypeKey) (target : String) : Bool :=
  registry.reachesClean (cleanName (canonicalSpelling target)) registry.size key

/-- Add a method, unless one of its name is already listed. -/
def addInherited (listed : List OverloadSet) (method : OverloadSet) : List OverloadSet :=
  if listed.any (·.name == method.name) then listed else listed ++ [method]

/-- Add the methods met on chains of at most `depth` types that start at `key`,
depth first. -/
def inherit (registry : Registry) : (depth : Nat) → List OverloadSet → TypeKey →
    List OverloadSet
  | 0, listed, _ => listed
  | depth + 1, listed, key =>
      match registry.find? key with
      | none => listed
      | some conv =>
          conv.bases.foldl (registry.inherit depth) (conv.methods.foldl addInherited listed)

/-- A type's own methods, then those that it inherits under names of their own. -/
def allMethods (registry : Registry) (key : TypeKey) : List OverloadSet :=
  match registry.find? key with
  | none => []
  | some conv => conv.bases.foldl (registry.inherit registry.size) conv.methods

end Bindery.Registry
