import Bindery.Binding
import Bindery.Dispatch.Tree
import Bindery.Registry.Basic
import Bindery.Target

/-!
# Code of dispatch trees

An overload set becomes one entry point.  Its body is a ladder on the number of
arguments; inside each rung stand ladders of type checks, and at their ends the
statements that call one prototype.  The last rung of every ladder raises the
error that resolving the tree would report.
-/

namespace Bindery

/-- The converter registered under a key. -/
def Draft.converter (registry : Registry) (key : TypeKey) : Draft Converter :=
  .ofExcept ((registry.get key).mapError .registry)

namespace Dispatch

/-- What the code of one overload set is generated from. -/
structure Emitter where
  target : Target
  registry : Registry
  binding : Binding
  protos : List Prototype
  /-- The context of the tree, for messages. -/
  context : String

/-- The line that opens a rung of a ladder. -/
def rungLine (first : Bool) (condition : String) : String :=
  (if first then "if (" else "\x7d else if (") ++ condition ++ ") \x7b"

/-- The code around the last rung of a ladder with other rungs. -/
def otherwise (code : Code) : Code :=
  [.line "\x7d else \x7b", .indent] ++ code ++ [.dedent, .line "\x7d"]

namespace Emitter

/-- Raise a rejection. -/
def reject (emitter : Emitter) (rejection : Rejection) : Code :=
  emitter.target.raise Rejection.category rejection.message

/-- Convert the object of a method call; other calls have none. -/
def convertSelf (emitter : Emitter) : Draft Unit :=
  match emitter.binding with
  | .method _ _ key => do
      let conv ← Draft.converter emitter.registry key
      .write [.line (conv.storage.declare "_self" ++ ";"),
        .block (conv.toNative emitter.target.self "&_self")]
  | _ => pure ()

/-- Convert the arguments from a position on into local variables; the result
is how each is passed to the native call. -/
def convertArgs (emitter : Emitter) : (index : Nat) → List Argument → Draft (List String)
  | _, [] => return []
  | index, slot :: rest => do
      let conv ← Draft.converter emitter.registry slot.converter
      let name := "arg" ++ toString index
      .write [.line (conv.storage.declare name ++ ";"),
        .block (conv.toNative (emitter.target.arg index) ("&" ++ name))]
      let others ← emitter.convertArgs (index + 1) rest
      return adjust name conv.storage.marks slot.param.type.marks :: others

/-- Convert the native result `rval`; the result is the host variable. -/
def convertResult (emitter : Emitter) (conv : Converter) (type : NativeType)
    (ownership : Ownership) : Draft String :=
  emitter.target.wrap conv type "rval" (conv.prepare "rval" type.marks) ownership

/-- Call a function or method and convert its result, if it has one. -/
def callNative (emitter : Emitter) (callee : String) (result : Return) (args : String) :
    Draft (List String) :=
  match result.converter with
  | some key => do
      let conv ← Draft.converter emitter.registry key
      .write [.line (result.type.declare "rval" ++ " = " ++ callee ++ "(" ++ args ++ ");")]
      return [← emitter.convertResult conv result.type (.ofResult result.type.marks)]
  | none => do
      .write [.line (callee ++ "(" ++ args ++ ");")]
      return []

/-- Allocate an object and hand its pointer over to the host. -/
def construct (emitter : Emitter) (owner : TypeKey) (result : Return) (args : String) :
    Draft (List String) := do
  let conv ← Draft.converter emitter.registry (result.converter.getD owner)
  let pointer := result.type.withMark .pointer
  .write [.line (pointer.declare "rval" ++ " = new " ++ result.type.canonical ++ "(" ++ args ++
    ");")]
  return [← emitter.convertResult conv pointer .owning]

/-- Call what the overload set is bound as. -/
def invoke (emitter : Emitter) (result : Return) (args : String) : Draft (List String) :=
  match emitter.binding with
  | .ctor _ key => emitter.construct key result args
  | .function name => emitter.callNative name result args
  | .method _ name _ => emitter.callNative ("_self->" ++ name) result args

/-- The statements that call one prototype. -/
def callSequence (emitter : Emitter) (proto : Prototype) : Draft Unit := do
  emitter.convertSelf
  let args ← emitter.convertArgs 0 proto.args
  let results ← emitter.invoke proto.result (", ".intercalate args)
  .write (emitter.target.commit results)

/-- The statements that call the prototype at an index. -/
def callAt (emitter : Emitter) (index : Nat) : Draft Unit :=
  match emitter.protos[index]? with
  | some proto => emitter.callSequence proto
  | none => .fail (.unknownPrototype emitter.context index emitter.protos.length)

mutual

/-- The code of a node. -/
def node (emitter : Emitter) : Node → Draft Unit
  | .call index => emitter.callAt index
  | .check argIndex branches => do
      emitter.rungs argIndex true branches
      .write (otherwise (emitter.reject (.argumentType argIndex emitter.context)))

/-- The rungs of a ladder of type checks on one argument. -/
def rungs (emitter : Emitter) (argIndex : Nat) : (first : Bool) → List (TypeKey × Node) →
    Draft Unit
  | _, [] => pure ()
  | first, (key, next) :: rest => do
      let conv ← Draft.converter emitter.registry key
      .write [.line (rungLine first (conv.check (emitter.target.arg argIndex))), .indent]
      emitter.node next
      .write [.dedent]
      emitter.rungs argIndex false rest

end

/-- The rungs of the ladder on the number of arguments. -/
def arms (emitter : Emitter) : (first : Bool) → List Arm → Draft Unit
  | _, [] => pure ()
  | first, arm :: rest => do
      .write [.line (rungLine first
        (emitter.target.argCount ++ " == " ++ toString arm.argCount)), .indent]
      emitter.node arm.root
      .write [.dedent]
      emitter.arms false rest

end Emitter

/-- The entry point of an overload set. -/
def Tree.emit (target : Target) (registry : Registry) (binding : Binding)
    (protos : List Prototype) (tree : Tree) : Draft Unit := do
  let emitter : Emitter := ⟨target, registry, binding, protos, tree.context⟩
  target.enter ⟨binding.entryKind, binding.proxy, tree.maxArgCount⟩
  .write [.indent]
  emitter.arms true tree.arms
  .write [.line (if tree.arms.isEmpty then "\x7b" else "\x7d else \x7b"), .indent]
  .write (emitter.reject (.argumentCount tree.context))
  .write [.dedent, .line "\x7d", .dedent]
  .write (target.closeEntry binding.entryKind)

end Dispatch

end Bindery
