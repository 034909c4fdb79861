import Bindery.NativeType.Parser
import Bindery.Prototype

/-!
# Converters

A converter is a native type that can cross into the host: how it is stored in
generated code, what has been declared on it, and the texts that check and
convert its values.
-/

namespace Bindery

/-- A bindable type and what has been declared on it so far. -/
structure Profile where
  /-- The type as declared. -/
  type : NativeType
  /-- What the type goes by.  It follows from the type and is asked for at every
  look-up, so it is kept once computed. -/
  identity : { identity : Identity // identity = type.identity } := ⟨type.identity, rfl⟩
  /-- The type of local variables that hold its values. -/
  storage : NativeType
  /-- Its name on the host's side. -/
  boundName : String
  ctor : Option OverloadSet := none
  methods : List OverloadSet := []
  members : List Param := []
  /-- Keys of the direct bases, in declaration order. -/
  bases : List TypeKey := []
deriving DecidableEq

namespace Profile

/-- The canonical spelling of the type. -/
def canonical (profile : Profile) : String :=
  profile.identity.val.canonical

/-- The key that the type is registered under. -/
def key (profile : Profile) : TypeKey :=
  profile.identity.val.key

/-- The identifier-safe form of the canonical spelling. -/
def clean (profile : Profile) : String :=
  profile.identity.val.clean

theorem canonical_eq (profile : Profile) : profile.canonical = profile.type.canonical := by
  rw [canonical, profile.identity.property]
  rfl

theorem key_eq (profile : Profile) : profile.key = profile.type.key := by
  rw [key, profile.identity.property]
  rfl

theorem clean_eq (profile : Profile) : profile.clean = cleanName profile.type.canonical := by
  rw [clean, profile.identity.property]
  rfl

/-- The generated variable that identifies the type at run time. -/
def tag (profile : Profile) : String :=
  "__" ++ profile.clean ++ "_type_tag"

/-- The indirection that the conversion texts work on: one pointer to the type. -/
def conversionMarks (profile : Profile) : Indirection :=
  profile.type.marks ++ [.pointer]

/-- An expression written as the pointer that the conversion texts work on. -/
def prepare (profile : Profile) (expression : String) (marks : Indirection) : String :=
  adjust expression marks profile.conversionMarks

/-- A one-line account of the type, for diagnostics. -/
def debugText (profile : Profile) : String :=
  "TypeConverter \x7b id: " ++ profile.key.debugText ++
    ", canonical_name: \"" ++ profile.canonical ++
    "\", storage_ctype: \"" ++ profile.storage.canonical ++
    "\", type_tag: \"" ++ profile.tag ++
    "\", methods: " ++ toString profile.methods.length ++
    ", members: " ++ toString profile.members.length ++
    ", bases: [" ++ ", ".intercalate (profile.bases.map TypeKey.debugText) ++ "], .. \x7d"

end Profile

/-- The texts that a host runtime supplies for one type. -/
structure Hooks where
  /-- Condition that a host value is of the type. -/
  check : Profile → (input : String) → String
  /-- Statements that convert a host value into the storage behind a pointer. -/
  toNative : Profile → (input outPointer : String) → String
  /-- Statements that convert the value behind a pointer into a host variable. -/
  fromNative : Profile → NativeType → (output inPointer : String) → Ownership → String
  /-- Declarations for the header. -/
  api : Profile → (moduleName : String) → String := fun _ _ => ""
  /-- Definitions for the source. -/
  glue : Profile → (moduleName : String) → String := fun _ _ => ""

/-- A bindable type with the texts that convert its values. -/
structure Converter extends Profile where
  hooks : Hooks

namespace Converter

/-- A converter of parsed types with nothing declared on it. -/
def ofTypes (type storage : NativeType) (hooks : Hooks) : Converter where
  type := type
  storage := storage
  boundName := type.identity.clean
  hooks := hooks

/-- A converter that stores values as `storage` says, or as the type itself. -/
def make (type : String) (storage : Option String) (hooks : Hooks) :
    Except Malformed Converter := do
  let parsed ← NativeType.parse type
  match storage with
  | some expression => return ofTypes parsed (← NativeType.parse expression) hooks
  | none => return ofTypes parsed parsed hooks

/-- The converter under another name on the host's side. -/
def boundAs (conv : Converter) (name : String) : Converter :=
  { conv with boundName := name }

/-- The converter with a direct base, which is listed once. -/
def withBase (conv : Converter) (base : TypeKey) : Converter :=
  if base ∈ conv.bases then conv else { conv with bases := conv.bases ++ [base] }

@[simp]
theorem key_withBase (conv : Converter) (base : TypeKey) : (conv.withBase base).key = conv.key := by
  unfold withBase
  split <;> rfl

/-- Condition that a host value is of the type. -/
def check (conv : Converter) (input : String) : String :=
  conv.hooks.check conv.toProfile input

/-- Statements that convert a host value into the storage behind a pointer. -/
def toNative (conv : Converter) (input outPointer : String) : String :=
  conv.hooks.toNative conv.toProfile input outPointer

/-- Statements that convert the value behind a pointer into a host variable. -/
def fromNative (conv : Converter) (type : NativeType) (output inPointer : String)
    (ownership : Ownership) : String :=
  conv.hooks.fromNative conv.toProfile type output inPointer ownership

/-- Declarations for the header of a module. -/
def api (conv : Converter) (moduleName : String) : String :=
  conv.hooks.api conv.toProfile moduleName

/-- Definitions for the source of a module. -/
def glue (conv : Converter) (moduleName : String) : String :=
  conv.hooks.glue conv.toProfile moduleName

end Converter

end Bindery
