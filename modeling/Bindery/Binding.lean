import Bindery.Code.Draft
import Bindery.ScopedName
import Bindery.TypeKey

/-!
# Bindings

What an overload set is bound as: a free function, the constructor of a type, or
a method of a type.  The binding names the generated entry point and appears in
every message about the set.
-/

namespace Bindery

/-- What an overload set is bound as. -/
inductive Binding where
  | function (name : String)
  | ctor (owner : String) (converter : TypeKey)
  | method (owner name : String) (converter : TypeKey)
deriving DecidableEq, Inhabited

namespace Binding

/-- The symbol of the generated entry point. -/
def proxy : Binding → String
  | .function name => "_" ++ mangle name ++ "__"
  | .ctor owner _ => "_" ++ mangle owner ++ "__constructor__"
  | .method owner name _ => "_" ++ mangle owner ++ "__" ++ name ++ "__"

/-- The name under which the set is recorded. -/
def boundName : Binding → String
  | .function name => name
  | .ctor owner _ => owner ++ "__constructor__"
  | .method _ name _ => name

/-- The binding in a message. -/
def text : Binding → String
  | .function name => "function " ++ name
  | .ctor owner _ => owner ++ " constructor"
  | .method owner name _ => owner ++ "." ++ name ++ " method"

/-- The type that owns the set. -/
def converter? : Binding → Option TypeKey
  | .function _ => none
  | .ctor _ converter => some converter
  | .method _ _ converter => some converter

/-- The kind of the generated entry point. -/
def entryKind : Binding → EntryKind
  | .method _ _ _ => .method
  | _ => .function

end Binding

end Bindery
