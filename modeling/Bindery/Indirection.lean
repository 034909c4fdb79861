/-!
# Indirection

The marks after a type name say how a value is reached: each `*` is one
pointer, each `&` one reference, read from left to right.  An expression of one
indirection is adapted to another by at most one operator, decided by the first
mark at which the two differ.
-/

namespace Bindery

/-- One mark of indirection. -/
inductive Mark where
  | reference
  | pointer
deriving DecidableEq, Inhabited

namespace Mark

/-- The mark that a character writes. -/
def ofChar? : Char → Option Mark
  | '&' => some .reference
  | '*' => some .pointer
  | _ => none

/-- The character that writes a mark. -/
def toChar : Mark → Char
  | .reference => '&'
  | .pointer => '*'

@[simp]
theorem ofChar?_toChar (mark : Mark) : ofChar? mark.toChar = some mark := by
  cases mark <;> rfl

end Mark

/-- The marks of a type, innermost first; a plain value has none. -/
abbrev Indirection := List Mark

namespace Indirection

/-- The indirection that a run of characters writes, if all of them are marks. -/
def ofChars? (chars : List Char) : Option Indirection :=
  chars.mapM Mark.ofChar?

/-- The indirection that a text writes, if all its characters are marks. -/
def ofText? (text : String) : Option Indirection :=
  ofChars? text.toList

/-- The marks as text. -/
def text (marks : Indirection) : String :=
  String.ofList (marks.map Mark.toChar)

end Indirection

/-- The operator that adapts an expression to another indirection. -/
inductive Adjustment where
  | identity
  | addressOf
  | deref
deriving DecidableEq, Inhabited

namespace Adjustment

/-- How the operator is written. -/
def operator : Adjustment → String
  | .identity => ""
  | .addressOf => "&"
  | .deref => "*"

/-- The operator in front of an expression. -/
def apply (adjustment : Adjustment) (expression : String) : String :=
  adjustment.operator ++ expression

/-- The operator between two indirections that do not begin alike: a pointer is
gained by taking an address and lost by dereferencing, and a reference is a
value. -/
def ofFirst : Option Mark → Option Mark → Adjustment
  | some .reference, some .pointer => .addressOf
  | some .reference, _ => .identity
  | some .pointer, some .pointer => .identity
  | some .pointer, _ => .deref
  | none, some .pointer => .addressOf
  | none, _ => .identity

/-- The operator that adapts an expression of indirection `source` to
`destination`: marks that both begin with are dropped first. -/
def between : Indirection → Indirection → Adjustment
  | first :: source, second :: destination =>
      if first = second then between source destination
      else ofFirst (some first) (some second)
  | source, destination => ofFirst source.head? destination.head?

end Adjustment

/-- An expression of indirection `source` written where `destination` is wanted. -/
def adjust (expression : String) (source destination : Indirection) : String :=
  (Adjustment.between source destination).apply expression

/-- Who frees a value that is handed to the host. -/
inductive Ownership where
  | nonOwning
  | copy
  | owning
deriving DecidableEq, Inhabited

namespace Ownership

/-- Every policy, in the order of the generated enumeration. -/
def all : List Ownership :=
  [.nonOwning, .copy, .owning]

/-- The policy's name in generated code. -/
def text : Ownership → String
  | .nonOwning => "NonOwning"
  | .copy => "Copy"
  | .owning => "Owning"

/-- A returned value is copied; what is reached through a mark is borrowed. -/
def ofResult (marks : Indirection) : Ownership :=
  if marks.isEmpty then .copy else .nonOwning

end Ownership

end Bindery
