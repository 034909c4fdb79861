/-!
# Artifacts

A session writes two artifacts, a header and a source.
-/

namespace Bindery

/-- A choice of artifacts. -/
structure Artifacts where
  header : Bool
  source : Bool
deriving DecidableEq, Inhabited

namespace Artifacts

/-- The choice that the two lowest bits of a number make; other bits do not
count. -/
def ofBits (bits : Nat) : Artifacts :=
  ⟨bits.testBit 0, bits.testBit 1⟩

/-- The choice that a number makes, if it sets no bit beyond the two. -/
def ofBits? (bits : Nat) : Option Artifacts :=
  if bits < 4 then some (ofBits bits) else none

/-- The number that makes a choice. -/
def bits (artifacts : Artifacts) : Nat :=
  artifacts.header.toNat + 2 * artifacts.source.toNat

/-- Whether both artifacts are chosen. -/
def isAll (artifacts : Artifacts) : Bool :=
  artifacts.header && artifacts.source

/-- Whether no artifact is chosen. -/
def isEmpty (artifacts : Artifacts) : Bool :=
  !artifacts.header && !artifacts.source

end Artifacts

/-- The generated artifacts. -/
structure Output where
  header : String
  source : String
deriving DecidableEq, Inhabited

/-- The text of a choice of exactly one artifact. -/
def Output.artifact? (output : Output) : Artifacts → Option String
  | ⟨true, false⟩ => some output.header
  | ⟨false, true⟩ => some output.source
  | _ => none

end Bindery
