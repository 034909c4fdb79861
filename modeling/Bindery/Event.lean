import Bindery.TypeKey

/-!
# Log events

What a session reports about its progress, as data, with the one form in which
each event is logged.
-/

namespace Bindery

/-- How much an event matters. -/
inductive Level where
  | trace
  | debug
  | info
deriving DecidableEq, Inhabited

/-- The level in a log. -/
def Level.text : Level → String
  | .trace => "TRACE"
  | .debug => "DEBUG"
  | .info => "INFO"

/-- A step that a session reports. -/
inductive Event where
  | started (moduleName language : String)
  | registered (type : String)
  | linked (derived base : String)
  | beganClass (name : String)
  | endedType (type : String)
  | checkedBranch (context : String) (argIndex : Nat) (converter : TypeKey) (candidates : Nat)
  | boundOverloads (binding proxy : String) (prototypes arities : Nat)
  | boundMember (owner member getter setter : String)
  | builtCasts (types bases : Nat)
  | finished (moduleName : String) (types functions casts : Nat)
deriving DecidableEq, Inhabited

namespace Event

/-- How much an event matters: single types and branches least, the end of a
session most. -/
def level : Event → Level
  | .registered _ => .trace
  | .checkedBranch _ _ _ _ => .trace
  | .finished _ _ _ _ => .info
  | _ => .debug

/-- The part of the program that an event is logged for. -/
def channel : Event → String
  | .registered _ => "gluegen::registry"
  | .linked _ _ => "gluegen::registry"
  | .checkedBranch _ _ _ _ => "gluegen::dispatch"
  | .builtCasts _ _ => "gluegen::cast"
  | _ => "gluegen"

/-- What happened, without the particulars. -/
def message : Event → String
  | .started _ _ => "start session"
  | .registered _ => "register converter"
  | .linked _ _ => "add base"
  | .beganClass _ => "begin class"
  | .endedType _ => "end type"
  | .checkedBranch _ _ _ _ => "type check branch"
  | .boundOverloads _ _ _ _ => "bound overload set"
  | .boundMember _ _ _ _ => "bound member"
  | .builtCasts _ _ => "cast graph built"
  | .finished _ _ _ _ => "session finalized"

/-- Names and texts of what an event carries, in logging order. -/
def fields : Event → List (String × String)
  | .started moduleName language => [("module", moduleName), ("language", language)]
  | .registered type => [("ty", type)]
  | .linked derived base => [("derived", derived), ("base", base)]
  | .beganClass name => [("class", name)]
  | .endedType type => [("ty", type)]
  | .checkedBranch context argIndex converter candidates =>
      [("context", context), ("arg_index", toString argIndex), ("converter", converter.text),
        ("candidates", toString candidates)]
  | .boundOverloads binding proxy prototypes arities =>
      [("binding", binding), ("proxy", proxy), ("prototypes", toString prototypes),
        ("arities", toString arities)]
  | .boundMember owner member getter setter =>
      [("ty", owner), ("member", member), ("getter", getter), ("setter", setter)]
  | .builtCasts types bases => [("types", toString types), ("bases", toString bases)]
  | .finished moduleName types functions casts =>
      [("module", moduleName), ("types", toString types), ("functions", toString functions),
        ("casts", toString casts)]

end Event

end Bindery
