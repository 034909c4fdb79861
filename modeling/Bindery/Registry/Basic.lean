import Bindery.Converter

/-!
# The registry of bindable types

Converters are kept in registration order, which is the order of everything
generated from them.  They are found by key, through an index of the places at
which they stand.
-/

namespace Bindery

/-- Places of converters by key. -/
abbrev KeyIndex := List (TypeKey × Nat)

namespace KeyIndex

/-- The place that is noted for a key. -/
def place? (key : TypeKey) : KeyIndex → Option Nat
  | [] => none
  | (other, place) :: rest => if other = key then some place else place? key rest

@[simp]
theorem place?_nil (key : TypeKey) : place? key [] = none := rfl

@[simp]
theorem place?_cons (key other : TypeKey) (place : Nat) (rest : KeyIndex) :
    place? key ((other, place) :: rest) =
      if other = key then some place else place? key rest := rfl

/-- An index leads from a key to a place exactly if the converter of that key
stands there. -/
def Finds (index : KeyIndex) (converters : List Converter) : Prop :=
  ∀ key place, index.place? key = some place ↔ (converters[place]?).map (·.key) = some key

namespace Finds

theorem nil : Finds [] [] := by
  simp [Finds]

/-- A converter of a new key is indexed where it is put, at the end. -/
theorem append {index : KeyIndex} {converters : List Converter} {conv : Converter}
    (finds : index.Finds converters) (new : index.place? conv.key = none) :
    Finds ((conv.key, converters.length) :: index) (converters ++ [conv]) := by
  intro key place
  have known := finds key place
  rw [place?_cons]
  rcases Nat.lt_trichotomy place converters.length with before | rfl | behind
  · rw [List.getElem?_append_left before, ← known]
    by_cases same : conv.key = key
    · subst same
      simp [new, Nat.ne_of_gt before]
    · rw [if_neg same]
  · by_cases same : conv.key = key
    · simp [same]
    · have absent : index.place? key ≠ some converters.length := by
        simp [known]
      simp [same, absent]
  · have absent : index.place? key ≠ some place := by
      simp [known, List.getElem?_eq_none (Nat.le_of_lt behind)]
    have outside : (converters ++ [conv])[place]? = none :=
      List.getElem?_eq_none (by simpa using Nat.succ_le_of_lt behind)
    by_cases same : conv.key = key
    · simp [same, outside, Nat.ne_of_lt behind]
    · simp [same, outside, absent]

/-- What is declared on a type does not move it. -/
theorem modify {index : KeyIndex} {converters : List Converter} {change : Converter → Converter}
    (finds : index.Finds converters) (keeps : ∀ conv, (change conv).key = conv.key)
    (changed : Nat) : index.Finds (converters.modify changed change) := by
  intro key place
  rw [finds key place, List.getElem?_modify]
  cases converters[place]? with
  | none => simp
  | some conv => by_cases here : changed = place <;> simp [here, keeps]

end Finds

end KeyIndex

/-- The bindable types, in registration order. -/
structure Registry where
  converters : List Converter := []
  index : KeyIndex := []
  finds : index.Finds converters := by exact KeyIndex.Finds.nil

namespace Registry

/-- Number of registered types. -/
def size (registry : Registry) : Nat :=
  registry.converters.length

/-- Keys of the registered types, in registration order. -/
def keys (registry : Registry) : List TypeKey :=
  registry.converters.map (·.key)

/-- Where the converter of a key stands. -/
def place? (registry : Registry) (key : TypeKey) : Option Nat :=
  registry.index.place? key

/-- The converter registered under a key. -/
def find? (registry : Registry) (key : TypeKey) : Option Converter :=
  (registry.place? key).bind fun place => registry.converters[place]?

/-- Whether a key is registered. -/
def contains (registry : Registry) (key : TypeKey) : Bool :=
  (registry.place? key).isSome

/-- The converter registered under a key, or the error that names the key. -/
def get (registry : Registry) (key : TypeKey) : Except RegistryError Converter :=
  match registry.find? key with
  | some conv => .ok conv
  | none => .error (.typeNotFound key.text)

/-- Add a converter at the end, unless its key is taken. -/
def register (registry : Registry) (conv : Converter) : Except RegistryError Registry :=
  if taken : registry.contains conv.key then .error (.duplicateType conv.canonical)
  else .ok {
    converters := registry.converters ++ [conv]
    index := (conv.key, registry.converters.length) :: registry.index
    finds := registry.finds.append (by simpa [contains, place?] using taken) }

/-- Change what is declared on the type registered under a key. -/
def modify (registry : Registry) (key : TypeKey) (change : Converter → Converter)
    (keeps : ∀ conv, (change conv).key = conv.key := by intro conv; rfl) : Registry :=
  match registry.place? key with
  | some place => {
      registry with
      converters := registry.converters.modify place change
      finds := registry.finds.modify keeps place }
  | none => registry

/-- The key of the type that a text names, if it is registered. -/
def lookup? (registry : Registry) (text : String) : Option TypeKey :=
  let key := TypeKey.ofSpelling text
  if registry.contains key then some key else none

/-- The key of the type that a text names, which has to be registered. -/
def require (registry : Registry) (text : String) : Except RegistryError TypeKey :=
  match registry.lookup? text with
  | some key => .ok key
  | none => .error (.typeNotFound text)

/-- The registered type that converts values of a native type: the type itself,
or else the type of the same bare name.  `void` needs none. -/
def select (registry : Registry) (type : NativeType) : Except RegistryError (Option TypeKey) :=
  let bare := TypeKey.ofName type.bareName
  if type.isVoid then .ok none
  else if registry.contains type.key then .ok (some type.key)
  else if registry.contains bare then .ok (some bare)
  else .error (.typeNotFound type.canonical)

end Registry

end Bindery
