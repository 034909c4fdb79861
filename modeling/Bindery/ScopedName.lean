/-!
# Scoped names

A scoped name is a simple name inside a path of enclosing scopes.  In text the
parts are joined by `::`, read from the left without overlap; empty parts are
dropped, so a leading `::` changes nothing.
-/

namespace Bindery

/-- A simple name and the scopes around it, outermost first. -/
structure ScopedName where
  scopes : List String
  name : String
deriving DecidableEq, Inhabited

/-- Cut characters at every `::`, from the left; the result is never empty. -/
def splitScopes : List Char → List (List Char)
  | [] => [[]]
  | ':' :: ':' :: rest => [] :: splitScopes rest
  | c :: rest =>
      match splitScopes rest with
      | [] => [[c]]
      | part :: parts => (c :: part) :: parts

/-- Replace every `::` by `__`, from the left. -/
def mangleChars : List Char → List Char
  | [] => []
  | ':' :: ':' :: rest => '_' :: '_' :: mangleChars rest
  | c :: rest => c :: mangleChars rest

/-- A text with every `::` replaced by `__`. -/
def mangle (text : String) : String :=
  String.ofList (mangleChars text.toList)

namespace ScopedName

/-- A name outside every scope. -/
def simple (name : String) : ScopedName :=
  ⟨[], name⟩

/-- The name whose parts, outermost first, are the given ones. -/
def ofParts (parts : List String) : ScopedName :=
  match parts.getLast? with
  | some name => ⟨parts.dropLast, name⟩
  | none => simple ""

/-- The name that a text spells; empty parts do not count. -/
def ofText (text : String) : ScopedName :=
  ofParts (((splitScopes text.toList).filter fun part => !part.isEmpty).map String.ofList)

/-- Whether no scope encloses the name. -/
def isGlobal (name : ScopedName) : Bool :=
  name.scopes.isEmpty

/-- The enclosing scopes joined by `::`. -/
def scopeText (name : ScopedName) : String :=
  "::".intercalate name.scopes

/-- Scopes and name joined by `::`. -/
def text (name : ScopedName) : String :=
  "::".intercalate (name.scopes ++ [name.name])

/-- The name as part of an identifier. -/
def mangled (name : ScopedName) : String :=
  mangle name.text

end ScopedName

end Bindery
