import Bindery.CastTable.Basic
import Bindery.Dispatch.Emit

/-!
# The upcast function

One generated function turns a pointer to an object of one type into a pointer
to another type.  Types are told apart by their tags: equal tags keep the
pointer, a type that derives from the one asked for has its pointer cast, and
every other pair gives `NULL`.
-/

namespace Bindery.Upcast

/-- The function's declaration, without a terminator. -/
def signature : String :=
  "void *_type_tag_upcast(void *in_p, const char *in_type_tag, const char *out_type_tag)"

/-- The rungs for the types that derive from one base. -/
def derivedRungs (registry : Registry) (base : Converter) :
    (first : Bool) → List TypeKey → Draft Unit
  | _, [] => pure ()
  | first, key :: rest => do
      let derived ← Draft.converter registry key
      .write [
        .line ((if first then "if" else "else if") ++ " (in_type_tag == " ++ derived.tag ++ ")"),
        .indent,
        .line ("out_p = (" ++ base.canonical ++ " *)((" ++ derived.canonical ++ " *)in_p);"),
        .dedent]
      derivedRungs registry base false rest

/-- The rungs for the types that are asked for. -/
def baseRungs (registry : Registry) : (first : Bool) → List (TypeKey × List TypeKey) → Draft Unit
  | _, [] => pure ()
  | first, (key, derived) :: rest => do
      let base ← Draft.converter registry key
      .write [.line (Dispatch.rungLine first ("out_type_tag == " ++ base.tag)), .indent]
      derivedRungs registry base true derived
      .write [.dedent]
      baseRungs registry false rest

/-- The definition of the function. -/
def emit (registry : Registry) (table : CastTable) : Draft Unit := do
  .write [
    .line "// type_tag based cast system",
    .line (signature ++ " \x7b"),
    .indent,
    .line "if (out_type_tag == in_type_tag)",
    .indent,
    .line "return in_p;",
    .dedent,
    .blank,
    .line "void *out_p = NULL;",
    .blank]
  baseRungs registry true table.bases
  .write (if table.bases.isEmpty then [] else [.line "\x7d", .blank])
  .write [.line "return out_p;", .dedent, .line "\x7d"]

end Bindery.Upcast
