import Bindery.CastTable.Cycle

/-!
# The cast table

For every base, the types that derive from it directly or through others.  Each type
in turn is listed under whatever a walk along its bases meets.  The table answers
whether a pointer to one type may be used as a pointer to another, and the generated
upcast function is written from it.
-/

namespace Bindery

/-- What becomes of a pointer that is asked for under another type. -/
inductive Cast where
  /-- The types agree and the pointer stays as it is. -/
  | identity
  /-- The pointer is used as a pointer to a base. -/
  | upcast
  /-- No link leads to the type that is asked for. -/
  | null
deriving DecidableEq, Inhabited

/-- The inheritance of a registry, turned from bases to derived types. -/
structure CastTable where
  /-- Every registered type, in registration order. -/
  types : List TypeKey
  /-- Number of direct base links. -/
  linkCount : Nat
  /-- Every base with its derived types, both in registration order. -/
  bases : List (TypeKey × List TypeKey)
deriving DecidableEq, Inhabited

/-- The first base that is not registered. -/
def Registry.danglingBase? (registry : Registry) : Option TypeKey :=
  (registry.converters.flatMap (·.bases)).find? fun base => !registry.contains base

namespace CastTable

/-- List a type, unless it is listed already. -/
def listOnce (types : List TypeKey) (key : TypeKey) : List TypeKey :=
  if key ∈ types then types else types ++ [key]

/-- List a type under a base, which comes last if nothing was listed under it before. -/
def note (key : TypeKey) (derived : List (TypeKey × List TypeKey)) (base : TypeKey) :
    List (TypeKey × List TypeKey) :=
  match derived with
  | [] => [(base, listOnce [] key)]
  | entry :: rest =>
      if entry.1 = base then (base, listOnce entry.2 key) :: rest
      else entry :: note key rest base

/-- List a type under every other type that a walk along the bases meets. -/
def noteWalk (registry : Registry) (derived : List (TypeKey × List TypeKey)) (key : TypeKey) :
    List (TypeKey × List TypeKey) :=
  (Graph.preorder registry.basesOf registry.keys [key]).foldl
    (fun derived node => if node = key then derived else note key derived node) derived

/-- The types listed under their bases, one type after the other. -/
def fill (registry : Registry) : List (TypeKey × List TypeKey) :=
  registry.keys.foldl (noteWalk registry) []

/-- The table of a registry whose bases are all registered and do not run in a
circle. -/
def build (registry : Registry) : Except RegistryError CastTable :=
  match registry.danglingBase? with
  | some base => .error (.typeNotFound base.text)
  | none =>
      match registry.cycleError? with
      | some error => .error error
      | none =>
          let derived := fill registry
          .ok {
            types := registry.keys
            linkCount := (registry.converters.flatMap (·.bases)).length
            bases := registry.keys.filterMap fun base => (derived.lookup base).map (base, ·) }

/-- The types that derive from a base, in registration order. -/
def derivedOf (table : CastTable) (base : TypeKey) : List TypeKey :=
  match table.bases.find? (·.1 = base) with
  | some entry => entry.2
  | none => []

/-- Whether a type takes part in the table. -/
def contains (table : CastTable) (key : TypeKey) : Bool :=
  key ∈ table.types

/-- Cast a pointer to `dynamic` towards `target`. -/
def resolve (table : CastTable) (dynamic target : TypeKey) : Cast :=
  if dynamic = target then .identity
  else if dynamic ∈ table.derivedOf target then .upcast
  else .null

end CastTable

end Bindery
