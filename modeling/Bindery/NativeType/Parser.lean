import Bindery.Cursor
import Bindery.Error
import Bindery.NativeType.Basic

/-!
# Reading type expressions

```text
type   := 'const'? ('signed' | 'unsigned')? name mark*
param  := type IDENT?
name   := '::'? IDENT ('::' IDENT)*
mark   := '&' | '*'
```

White space may stand around every part, but not inside a name and not between
marks.  A qualifier is a whole word; a sign qualifier counts as one only when a
name follows it, so `unsigned` alone is a name.
-/

namespace Bindery

namespace Cursor

/-- The fault of not finding what was expected at the cursor. -/
def fault (cursor : Cursor) (expected : Expectation) : Malformed :=
  ⟨cursor.source, cursor.offset, expected⟩

/-- Whether a name starts at the cursor. -/
def atName (cursor : Cursor) : Bool :=
  cursor.nextIs Text.isIdentStart || cursor.startsWith "::"

/-- The place after a whole word and the white space that follows it. -/
def eatWord? (cursor : Cursor) (word : String) : Option Cursor :=
  match cursor.eat? word with
  | some after => if after.nextIs Text.isIdentPart then none else some after.skipBlanks
  | none => none

/-- The place after a word that only counts in front of a name. -/
def eatQualifier? (cursor : Cursor) (word : String) : Option Cursor :=
  (cursor.eatWord? word).filter atName

/-- Read an optional `const`. -/
def readConst (cursor : Cursor) : Bool × Cursor :=
  match cursor.eatWord? "const" with
  | some after => (true, after)
  | none => (false, cursor)

/-- Read an optional sign qualifier. -/
def readSignedness (cursor : Cursor) : Option Signedness × Cursor :=
  match cursor.eatQualifier? "signed" with
  | some after => (some .signed, after)
  | none =>
      match cursor.eatQualifier? "unsigned" with
      | some after => (some .unsigned, after)
      | none => (none, cursor)

theorem length_rest_eat? {cursor after : Cursor} {word : String}
    (eaten : cursor.eat? word = some after) :
    after.rest.length + word.toList.length = cursor.rest.length := by
  unfold eat? at eaten
  split at eaten
  · next starts =>
      have bound := (List.isPrefixOf_iff_prefix.mp starts).length_le
      cases eaten
      simp only [List.length_drop]
      omega
  · contradiction

theorem length_rest_eatWhile_le (cursor : Cursor) (test : Char → Bool) :
    (cursor.eatWhile test).2.rest.length ≤ cursor.rest.length := by
  change (cursor.advanceWhile test).rest.length ≤ _
  fun_induction advanceWhile cursor test with
  | case1 cursor goesOn ih =>
      have shorter := length_rest_advance goesOn
      omega
  | case2 cursor _ => exact Nat.le_refl _

/-- Read the parts of a name that follow one another by `::`. -/
def readParts (cursor : Cursor) : Except Malformed (List String × Cursor) :=
  if cursor.nextIs Text.isIdentStart then
    let part := cursor.eatWhile Text.isIdentPart
    match _eaten : part.2.eat? "::" with
    | none => .ok ([part.1], part.2)
    | some inner =>
        match readParts inner with
        | .ok (parts, after) => .ok (part.1 :: parts, after)
        | .error fault => .error fault
  else .error (cursor.fault .typeName)
termination_by cursor.rest.length
decreasing_by
  have shorter := length_rest_eat? _eaten
  have bound := length_rest_eatWhile_le cursor Text.isIdentPart
  have separator : "::".toList.length = 2 := rfl
  simp only [part] at shorter
  omega

/-- Read a name; a leading `::` is dropped. -/
def readName (cursor : Cursor) : Except Malformed (ScopedName × Cursor) := do
  let (parts, after) ← ((cursor.eat? "::").getD cursor).readParts
  return (ScopedName.ofParts parts, after)

/-- Read a possibly empty run of marks. -/
def readMarks (cursor : Cursor) : Except Malformed (Indirection × Cursor) :=
  let run := cursor.eatWhile fun c => (Mark.ofChar? c).isSome
  match Indirection.ofText? run.1 with
  | some marks => .ok (marks, run.2)
  | none => .error (run.2.fault .referenceSuffix)

/-- Read a type, and no white space after it. -/
def readType (cursor : Cursor) : Except Malformed (NativeType × Cursor) := do
  let (isConst, cursor) := cursor.skipBlanks.readConst
  let (signedness, cursor) := cursor.readSignedness
  let (name, cursor) ← cursor.readName
  let (marks, cursor) ← cursor.skipBlanks.readMarks
  return (⟨isConst, signedness, name, marks⟩, cursor)

/-- Read an optional identifier. -/
def readIdent (cursor : Cursor) : Option String × Cursor :=
  if cursor.nextIs Text.isIdentStart then
    let run := cursor.eatWhile Text.isIdentPart
    (some run.1, run.2)
  else (none, cursor)

/-- Only white space may be left. -/
def expectEnd (cursor : Cursor) : Except Malformed Unit :=
  if cursor.skipBlanks.atEnd then .ok () else .error (cursor.skipBlanks.fault .endOfExpression)

end Cursor

/-- Read a whole text as a type. -/
def NativeType.parse (text : String) : Except Malformed NativeType := do
  let (type, cursor) ← (Cursor.start text).readType
  cursor.expectEnd
  return type

/-- Read a whole text as a type with an optional name. -/
def Param.parse (text : String) : Except Malformed Param := do
  let (type, cursor) ← (Cursor.start text).readType
  let (name, cursor) := cursor.skipBlanks.readIdent
  cursor.expectEnd
  return ⟨type, name⟩

/-- The canonical spelling of the type that a text names; a text that names no
type stands for itself. -/
def canonicalSpelling (text : String) : String :=
  match NativeType.parse text with
  | .ok type => type.canonical
  | .error _ => text

/-- The key of the type that a text names. -/
def TypeKey.ofSpelling (text : String) : TypeKey :=
  TypeKey.ofName (canonicalSpelling text)

end Bindery
