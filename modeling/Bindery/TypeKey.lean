import Bindery.Hash.Xxh64

/-!
# Type keys

A type is known by a key computed from its spelling, so the same declaration
has the same key in every run, whatever was declared before it.
-/

namespace Bindery

/-- The key under which a type is registered. -/
structure TypeKey where
  word : UInt64
deriving DecidableEq, Inhabited

namespace TypeKey

/-- The key of no type. -/
def empty : TypeKey := ⟨0⟩

/-- Separates type keys from other digests of the same text. -/
def domain : UInt64 := 0x2fac10b63a6cc57c

/-- The key of a spelling, taken as it stands. -/
def ofName (name : String) : TypeKey :=
  ⟨domain ^^^ Hash.Xxh64.digest 0 name.toUTF8.data.toList⟩

/-- Whether this is the key of no type. -/
def isEmpty (key : TypeKey) : Bool :=
  key.word == 0

/-- Sixteen hexadecimal digits after `0x`. -/
def text (key : TypeKey) : String :=
  let digits := Nat.toDigits 16 key.word.toNat
  "0x" ++ String.ofList (List.replicate (16 - digits.length) '0' ++ digits)

/-- The key with its kind, for diagnostics. -/
def debugText (key : TypeKey) : String :=
  "TypeHash(" ++ key.text ++ ")"

end TypeKey

end Bindery
