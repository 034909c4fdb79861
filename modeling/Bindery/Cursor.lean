import Bindery.Text

/-!
# Cursors

A cursor is a place in a text, held twice: as what is left to read, and as the number of
bytes before it.  Every move updates both.
-/

namespace Bindery

/-- A place in a text: what is left to read, and the bytes before it. -/
structure Cursor where
  source : String
  rest : List Char
  offset : Nat
deriving DecidableEq, Inhabited

/-- A place to come back to. -/
structure Checkpoint where
  offset : Nat
  rest : List Char
deriving DecidableEq, Inhabited

namespace Cursor

/-- The start of a text. -/
def start (source : String) : Cursor :=
  ⟨source, source.toList, 0⟩

/-- Whether nothing is left. -/
def atEnd (cursor : Cursor) : Bool :=
  cursor.rest.isEmpty

/-- The next character. -/
def peek? (cursor : Cursor) : Option Char :=
  cursor.rest.head?

/-- Whether the next character is of a class. -/
def nextIs (cursor : Cursor) (test : Char → Bool) : Bool :=
  cursor.peek?.any test

/-- Whether the rest starts with a word. -/
def startsWith (cursor : Cursor) (word : String) : Bool :=
  word.toList.isPrefixOf cursor.rest

/-- The next character and the place after it; at the end the cursor stays. -/
def advance (cursor : Cursor) : Option Char × Cursor :=
  match cursor.rest with
  | [] => (none, cursor)
  | c :: rest => (some c, { cursor with rest := rest, offset := cursor.offset + c.utf8Size })

/-- The place after a word, if the rest starts with it. -/
def eat? (cursor : Cursor) (word : String) : Option Cursor :=
  if cursor.startsWith word then
    some { cursor with
      rest := cursor.rest.drop word.toList.length
      offset := cursor.offset + Text.byteLength word.toList }
  else none

theorem length_rest_advance {cursor : Cursor} {test : Char → Bool}
    (goesOn : cursor.nextIs test = true) :
    cursor.advance.2.rest.length + 1 = cursor.rest.length := by
  rcases cursor with ⟨source, _ | ⟨c, rest⟩, offset⟩
  · cases goesOn
  · rfl

/-- Advance as long as the next character is of a class. -/
def advanceWhile (cursor : Cursor) (test : Char → Bool) : Cursor :=
  if _goesOn : cursor.nextIs test = true then cursor.advance.2.advanceWhile test else cursor
termination_by cursor.rest.length
decreasing_by
  have shorter := length_rest_advance _goesOn
  omega

/-- Bytes of the text that are not left to read. -/
def bytesRead (cursor : Cursor) : Nat :=
  Text.byteLength cursor.source.toList - Text.byteLength cursor.rest

/-- The longest run of characters of a class, cut out of the text by the lengths of what is
left before and after it, and the place after it. -/
def eatWhile (cursor : Cursor) (test : Char → Bool) : String × Cursor :=
  let after := cursor.advanceWhile test
  (String.Pos.Raw.extract cursor.source ⟨cursor.bytesRead⟩ ⟨after.bytesRead⟩, after)

/-- The next place that is not white space. -/
def skipBlanks (cursor : Cursor) : Cursor :=
  (cursor.eatWhile Text.isBlank).2

/-- Remember this place. -/
def checkpoint (cursor : Cursor) : Checkpoint :=
  ⟨cursor.offset, cursor.rest⟩

/-- Go back to a place of the same text. -/
def restore (cursor : Cursor) (saved : Checkpoint) : Cursor :=
  { cursor with offset := saved.offset, rest := saved.rest }

end Cursor

end Bindery
