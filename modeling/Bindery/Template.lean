import Bindery.Code.Layout
import Bindery.Signature

/-!
# Function templates

A template is declared once, with named parameters in the place of types.
Binding it puts types in their place and writes a plain function that calls the
instance.
-/

namespace Bindery

/-- A function template; its type texts may name its parameters. -/
structure Template where
  name : String
  params : List String
  result : String
  args : List String
deriving DecidableEq, Inhabited

/-- A template with types in the place of its parameters. -/
structure Instance where
  template : String
  /-- The texts put in the place of the parameters. -/
  types : List String
  result : String
  args : List String
deriving DecidableEq, Inhabited

namespace Template

/-- The text put in the place of a type; a type with a sign qualifier is no
parameter. -/
def boundText? (template : Template) (types : List String) (type : NativeType) :
    Option String :=
  match type.signedness with
  | some _ => none
  | none => (template.params.zip types).lookup type.name.text

/-- Put types in the place of parameters in one type text.  Qualifiers and marks
around a parameter stay around the text that replaces it. -/
def substitute (template : Template) (types : List String) (text : String) :
    Except BindError String := do
  let param ← (Param.parse text).mapError .malformed
  let type := param.type
  match template.boundText? types type with
  | none => return type.canonical
  | some bound =>
      return (if type.isConst then "const " else "") ++ bound ++
        (if type.marks.isEmpty then "" else " " ++ Indirection.text type.marks)

/-- Put types in the place of parameters in texts, up to the first failure. -/
def substituteEach (template : Template) (types : List String) :
    List String → Except BindError (List String)
  | [] => return []
  | text :: rest => do
      let first ← template.substitute types text
      let others ← template.substituteEach types rest
      return first :: others

/-- Put one type in the place of each parameter. -/
def instantiate (template : Template) (types : List String) : Except BindError Instance := do
  if types.length ≠ template.params.length then
    throw (.templateArity template.name template.params.length types.length)
  let result ← template.substitute types template.result
  let args ← template.substituteEach types template.args
  return ⟨template.name, types, result, args⟩

end Template

namespace Instance

/-- The signature of the wrapper. -/
def signature (inst : Instance) : Signature :=
  ⟨inst.result, inst.args⟩

/-- The instance as it is called. -/
def spelling (inst : Instance) : String :=
  inst.template ++ "<" ++ ", ".intercalate inst.types ++ ">"

/-- A function of the given name that calls the instance. -/
def wrapper (inst : Instance) (name : String) : Code :=
  let params := inst.args.zipIdx.map fun entry => entry.1 ++ " arg" ++ toString entry.2
  let passed := (List.range inst.args.length).map fun index => "arg" ++ toString index
  let call := inst.spelling ++ "(" ++ ", ".intercalate passed ++ ");"
  [.line ("// " ++ inst.spelling ++ " wrapper"),
    .line ("static " ++ inst.result ++ " " ++ name ++ "(" ++ ", ".intercalate params ++ ") \x7b"),
    .indent,
    .line (if inst.result == "void" then call else "return " ++ call),
    .dedent,
    .line "\x7d"]

end Instance

end Bindery
