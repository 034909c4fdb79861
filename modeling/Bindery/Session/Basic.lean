import Bindery.Artifacts
import Bindery.Event
import Bindery.Target
import Bindery.Template

/-!
# Sessions

A session holds everything that has been declared for one module and the text
written for it so far.
-/

namespace Bindery

/-- Settings of a session. -/
structure Options where
  /-- Comment at the top of every artifact. -/
  disclaimer : String := "This file is automatically generated, do not modify manually!"
  /-- System includes that a session starts with. -/
  systemIncludes : List String := ["cstdint"]
  /-- Whether the source ends with a summary of the bound functions. -/
  emitSummary : Bool := false
  /-- What one level of indentation is written as. -/
  indent : String := "\t"
deriving DecidableEq, Inhabited

/-- The state of a session. -/
structure Session where
  name : String
  target : Target
  options : Options
  registry : Registry := {}
  templates : List Template := []
  /-- Bound free functions, in binding order. -/
  functions : List OverloadSet := []
  systemIncludes : List String
  userIncludes : List String := []
  header : Writer
  source : Writer
  /-- Entry points opened so far. -/
  entries : List EntryPoint := []
  /-- Events logged so far. -/
  log : List Event := []

/-- A step of a session; a step that fails leaves the state that it has reached. -/
abbrev Declare := EStateM BindError Session

namespace Session

/-- The session of a module with nothing declared. -/
def start (name : String) (target : Target) (options : Options) : Session where
  name := name
  target := target
  options := options
  systemIncludes := options.systemIncludes
  header := { unit := options.indent }
  source := { unit := options.indent }
  log := [.started name target.language]

/-- The template of a name. -/
def template? (session : Session) (name : String) : Option Template :=
  session.templates.find? (·.name == name)

/-- A comment that lists the bound free functions. -/
def summary (session : Session) : String :=
  "// Bound " ++ toString session.functions.length ++ " global functions:\n" ++
    String.join (session.functions.map fun function =>
      "//\t- " ++ function.name ++ " bound as " ++ function.proxy ++ "\n")

end Session

namespace Declare

variable {α : Type}

/-- Go on with a result, or fail as it did. -/
def ofExcept : Except BindError α → Declare α
  | .ok value => pure value
  | .error error => throw error

/-- Log an event. -/
def log (event : Event) : Declare Unit :=
  modify fun session => { session with log := session.log ++ [event] }

/-- Log events in order. -/
def logAll (events : List Event) : Declare Unit :=
  modify fun session => { session with log := session.log ++ events }

/-- Append code to the header. -/
def writeHeader (code : Code) : Declare Unit :=
  modify fun session => { session with header := session.header.write code }

/-- Append code to the source. -/
def writeSource (code : Code) : Declare Unit :=
  modify fun session => { session with source := session.source.write code }

/-- The text of a draft, written aside at the outermost level.  The entry points
that it opens are noted even when it stops at an error. -/
def compose (draft : Draft Unit) : Declare String := do
  modify fun session => { session with entries := session.entries ++ draft.entries }
  ofExcept draft.outcome
  return ((← get).source.fork.write draft.code).text

/-- Change what is declared on a registered type. -/
def modifyType (key : TypeKey) (change : Converter → Converter)
    (keeps : ∀ conv, (change conv).key = conv.key := by intro conv; rfl) : Declare Unit := do
  let _ ← ofExcept (((← get).registry.get key).mapError .registry)
  modify fun session => { session with registry := session.registry.modify key change keeps }

end Declare

end Bindery
