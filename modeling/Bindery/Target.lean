import Bindery.Code.Draft
import Bindery.Converter

/-!
# Target runtimes

The shape of generated code is fixed here; a target supplies what depends on the
host runtime: how an entry point is declared, how arguments are fetched, how
results are handed back and how errors are raised.
-/

namespace Bindery

/-- Convert the result held in a variable into the host variable named after it, by the converter's
own text. -/
def wrapPlainly (conv : Converter) (type : NativeType) (name inPointer : String)
    (ownership : Ownership) : Code × String :=
  let output := name ++ "_out"
  ([.block (conv.fromNative type output inPointer ownership)], output)

/-- What a host runtime contributes to generated code. -/
structure Target where
  /-- Name of the target language. -/
  language : String
  /-- Open an entry point. -/
  openEntry : EntryPoint → Code
  /-- Close an entry point. -/
  closeEntry : EntryKind → Code
  /-- Expression for the number of arguments of a call. -/
  argCount : String := "arg_count"
  /-- Expression for one argument of a call. -/
  arg : Nat → String
  /-- Expression for the object that a method is called on. -/
  self : String
  /-- Convert a result: code, and the host variable that then holds it. -/
  wrapResult : Converter → NativeType → (name inPointer : String) → Ownership →
    Code × String := wrapPlainly
  /-- Hand results back. -/
  commit : List String → Code
  /-- Raise an error of a category. -/
  raise : (category message : String) → Code
  /-- The converter of a class that is known by name only. -/
  classConverter : String → Except Malformed Converter

namespace Target

/-- Open an entry point. -/
def enter (target : Target) (entry : EntryPoint) : Draft Unit :=
  .openEntry entry (target.openEntry entry)

/-- Convert a result and name the host variable that then holds it. -/
def wrap (target : Target) (conv : Converter) (type : NativeType) (name inPointer : String)
    (ownership : Ownership) : Draft String :=
  let wrapped := target.wrapResult conv type name inPointer ownership
  ⟨wrapped.1, [], .ok wrapped.2⟩

end Target

end Bindery
