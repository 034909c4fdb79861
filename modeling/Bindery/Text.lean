/-!
# Texts

The classes of characters that a type expression is made of, the length of a text in bytes,
and its lines.  White space is the Unicode property `White_Space`; identifiers are ASCII.
Positions are counted in bytes of the UTF-8 form, while a text is read character by
character.
-/

namespace Bindery.Text

/-- Code-point intervals, ends included, of the property `White_Space`. -/
def blankRanges : List (Nat × Nat) :=
  [(0x09, 0x0D), (0x20, 0x20), (0x85, 0x85), (0xA0, 0xA0), (0x1680, 0x1680), (0x2000, 0x200A),
    (0x2028, 0x2029), (0x202F, 0x202F), (0x205F, 0x205F), (0x3000, 0x3000)]

/-- White space separates the parts of an expression and is otherwise ignored. -/
def isBlank (c : Char) : Bool :=
  blankRanges.any fun range => range.1 ≤ c.toNat && c.toNat ≤ range.2

/-- An identifier starts with an ASCII letter or an underscore. -/
def isIdentStart (c : Char) : Bool :=
  c.isAlpha || c == '_'

/-- An identifier goes on with ASCII letters, digits and underscores. -/
def isIdentPart (c : Char) : Bool :=
  c.isAlphanum || c == '_'

/-- Number of bytes that the characters take in UTF-8. -/
def byteLength : List Char → Nat
  | [] => 0
  | c :: chars => c.utf8Size + byteLength chars

@[simp]
theorem byteLength_nil : byteLength [] = 0 := rfl

@[simp]
theorem byteLength_cons (c : Char) (chars : List Char) :
    byteLength (c :: chars) = c.utf8Size + byteLength chars := rfl

@[simp]
theorem byteLength_append (first second : List Char) :
    byteLength (first ++ second) = byteLength first + byteLength second := by
  induction first with
  | nil => simp
  | cons c chars ih => simp [ih, Nat.add_assoc]

/-- Drop the carriage return that a line, held in reverse, ends with. -/
def dropReturn : List Char → List Char
  | '\r' :: reversed => reversed
  | reversed => reversed

/-- Lines of the remaining characters, given the current line in reverse. -/
def linesFrom (reversed : List Char) : List Char → List (List Char)
  | [] => if reversed.isEmpty then [] else [reversed.reverse]
  | c :: rest =>
      if c = '\n' then (dropReturn reversed).reverse :: linesFrom [] rest
      else linesFrom (c :: reversed) rest

/-- The lines of a text, without their endings.  A line ends at a line feed, and a carriage
return just before it belongs to the ending.  A text that ends in a line feed has no further,
empty line; a last line without a line feed keeps all its characters. -/
def lines (text : String) : List String :=
  (linesFrom [] text.toList).map String.ofList

end Bindery.Text
