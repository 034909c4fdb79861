import Bindery.Indirection
import Bindery.ScopedName
import Bindery.TypeKey

/-!
# Native types and parameters

A native type is a scoped name with its qualifiers and marks.  It has one
canonical spelling, which is also what its key is computed from, and an
identifier-safe form of that spelling.
-/

namespace Bindery

/-- An explicit sign qualifier. -/
inductive Signedness where
  | signed
  | unsigned
deriving DecidableEq, Inhabited

/-- The word that writes a sign qualifier. -/
def Signedness.text : Signedness → String
  | .signed => "signed"
  | .unsigned => "unsigned"

/-- A native type as a declaration names it. -/
structure NativeType where
  isConst : Bool
  signedness : Option Signedness
  name : ScopedName
  marks : Indirection
deriving DecidableEq, Inhabited

namespace NativeType

/-- The unqualified value type that a text names. -/
def ofName (text : String) : NativeType :=
  ⟨false, none, ScopedName.ofText text, []⟩

/-- Qualifiers, name and marks, one blank between them. -/
def canonical (type : NativeType) : String :=
  (if type.isConst then "const " else "") ++
    (match type.signedness with
      | some sign => sign.text ++ " "
      | none => "") ++
    type.name.text ++
    (if type.marks.isEmpty then "" else " " ++ Indirection.text type.marks)

/-- The scoped name alone, without qualifiers and marks. -/
def bareName (type : NativeType) : String :=
  type.name.text

/-- Whether the type is exactly `void`. -/
def isVoid (type : NativeType) : Bool :=
  type.canonical == "void"

/-- The key of the canonical spelling. -/
def key (type : NativeType) : TypeKey :=
  TypeKey.ofName type.canonical

/-- The type with one more mark. -/
def withMark (type : NativeType) (mark : Mark) : NativeType :=
  { type with marks := type.marks ++ [mark] }

/-- Declaration of a variable of the type. -/
def declare (type : NativeType) (name : String) : String :=
  type.canonical ++ " " ++ name

end NativeType

/-- A type with an optional name, as in an argument list. -/
structure Param where
  type : NativeType
  name : Option String
deriving DecidableEq, Inhabited

/-- The type, and the name after it if there is one. -/
def Param.text (param : Param) : String :=
  match param.name with
  | some name => param.type.canonical ++ " " ++ name
  | none => param.type.canonical

/-- The identifier characters that stand for one character of a spelling. -/
def cleanChar : Char → List Char
  | ' ' => ['_']
  | '*' => ['p', 't', 'r']
  | '&' => ['_', 'r']
  | c => [c]

/-- A spelling's characters with blanks, marks and `::` replaced by identifier
characters. -/
def cleanChars : List Char → List Char
  | [] => []
  | ':' :: ':' :: rest => '_' :: '_' :: cleanChars rest
  | c :: rest => cleanChar c ++ cleanChars rest

/-- The identifier-safe form of a spelling. -/
def cleanName (spelling : String) : String :=
  String.ofList (cleanChars spelling.toList)

/-- What a type goes by: its canonical spelling, and the key and the
identifier-safe form made from it. -/
structure Identity where
  canonical : String
  key : TypeKey
  clean : String
deriving DecidableEq, Inhabited

/-- What a type goes by. -/
def NativeType.identity (type : NativeType) : Identity :=
  let canonical := type.canonical
  ⟨canonical, TypeKey.ofName canonical, cleanName canonical⟩

end Bindery
