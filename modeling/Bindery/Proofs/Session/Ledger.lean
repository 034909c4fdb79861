import Bindery.Proofs.Registry.History
import Bindery.Proofs.Session.Atomicity

/-!
# The ledger of a session

An accepted call leaves an entry: a registered type, a base link, or something
bound as a function or on a type.  What the entry is follows from the arguments
of the call and from the session that it is made in.  The registry and the bound
functions of a session are what its entries make of them, one after the other;
every other call, and every call that fails, leaves both alone.
-/

namespace Bindery

/-- What an accepted call leaves behind. -/
inductive Entry where
  | type (conv : Converter)
  | link (derived base : TypeKey)
  | function (bound : OverloadSet)
  | ctor (owner : TypeKey) (bound : OverloadSet)
  | method (owner : TypeKey) (bound : OverloadSet)
  | member (owner : TypeKey) (param : Param)

namespace Entry

/-- A registered type after the entry.  An entry concerns one type and one thing
declared on it. -/
def amend (entry : Entry) (conv : Converter) : Converter :=
  match entry with
  | .type _ => conv
  | .link derived base => if conv.key = derived then conv.withBase base else conv
  | .function _ => conv
  | .ctor owner bound => if conv.key = owner then { conv with ctor := some bound } else conv
  | .method owner bound =>
      if conv.key = owner then { conv with methods := conv.methods ++ [bound] } else conv
  | .member owner param =>
      if conv.key = owner then { conv with members := conv.members ++ [param] } else conv

/-- The type that the entry adds to those registered. -/
def types : Entry → List Converter
  | .type conv => [conv]
  | _ => []

/-- The bound function that the entry adds. -/
def functions : Entry → List OverloadSet
  | .function bound => [bound]
  | _ => []

/-- The types registered after the entry, in registration order. -/
def apply (converters : List Converter) (entry : Entry) : List Converter :=
  converters.map entry.amend ++ entry.types

end Entry

/-- The entry of an overload set. -/
def Binding.entry (binding : Binding) (bound : OverloadSet) : Entry :=
  match binding with
  | .function _ => .function bound
  | .ctor _ key => .ctor key bound
  | .method _ _ key => .method key bound

/-- The overload set that signatures come to in a registry. -/
def Binding.bound? (binding : Binding) (registry : Registry) (signatures : List Signature) :
    Option OverloadSet :=
  (Signature.resolveAll registry binding signatures).toOption.map fun protos =>
    ⟨binding.boundName, binding.proxy, protos⟩

namespace Declaration

/-- What a call asks to be entered.  A type text stands for the type that it
selects in the session; a list of members is not one call but several. -/
def request? (session : Session) : Declaration → Option Entry
  | .bindType conv => some (.type conv)
  | .beginClass name => (session.target.classConverter name).toOption.map .type
  | .addBase derived base => do
      let derivedKey ← (session.registry.require derived).toOption
      (session.registry.require base).toOption.map (.link derivedKey)
  | .bindFunction name signatures =>
      (Binding.bound? (.function name) session.registry signatures).map .function
  | .bindConstructor type overloads => do
      let key ← (session.registry.owner type).toOption
      let signatures := overloads.map fun args => ⟨type, args⟩
      (Binding.bound? (.ctor type key) session.registry signatures).map (.ctor key)
  | .bindMethod type name signatures => do
      let key ← (session.registry.owner type).toOption
      (Binding.bound? (.method type name key) session.registry signatures).map (.method key)
  | .bindMember type member => do
      let key ← (session.registry.owner type).toOption
      (Param.parse member).toOption.map (.member key)
  | .bindTemplate template name types => do
      let found ← session.template? template
      let inst ← (found.instantiate types).toOption
      (Binding.bound? (.function name) session.registry [inst.signature]).map .function
  | .endClass _ | .bindMembers _ _ | .declareTemplate _ | .addInclude _ _ | .insertCode _ _
  | .writeSummary => none

end Declaration

namespace Declare

variable {α : Type}

/-- Whether a step succeeds in a session. -/
def accepts (step : Declare α) (session : Session) : Bool :=
  match step session with
  | .ok _ _ => true
  | .error _ _ => false

/-- The session that a step leaves behind, whether or not it succeeds. -/
def leaves (step : Declare α) (session : Session) : Session :=
  match step session with
  | .ok _ after => after
  | .error _ after => after

end Declare

/-- The entry that a call leaves: what it asks for, if it succeeds. -/
def Declaration.posted? (session : Session) (decl : Declaration) : Option Entry :=
  if decl.perform.accepts session then decl.request? session else none

namespace Session

/-- The session after a declaration, accepted or not. -/
def after (session : Session) (decl : Declaration) : Session :=
  decl.perform.leaves session

/-- The session after declarations. -/
def run (session : Session) (decls : List Declaration) : Session :=
  decls.foldl after session

/-- The entries of members that are bound one by one, up to the first failure. -/
def recordedMembers (type : String) (session : Session) : List String → List Entry
  | [] => []
  | member :: rest =>
      ((Declaration.bindMember type member).posted? session).toList ++
        if (Declare.bindMember type member).accepts session then
          recordedMembers type ((Declare.bindMember type member).leaves session) rest
        else []

/-- The entries of a declaration, in the order of the calls that it makes. -/
def recordedBy (session : Session) (decl : Declaration) : List Entry :=
  match decl with
  | .bindMembers type members => session.recordedMembers type members
  | _ => (decl.posted? session).toList

/-- The entries of declarations, in the order of the calls. -/
def recorded (session : Session) : List Declaration → List Entry
  | [] => []
  | decl :: rest => session.recordedBy decl ++ (session.after decl).recorded rest

end Session

/-- The types of a prototype are registered, and only `void` needs none. -/
structure Prototype.Settled (registry : Registry) (proto : Prototype) : Prop where
  registered : proto.Registered registry
  void : proto.result.converter = none → proto.result.type.canonical = "void"

/-- Every prototype of an overload set is settled. -/
def OverloadSet.Settled (registry : Registry) (bound : OverloadSet) : Prop :=
  ∀ proto ∈ bound.protos, proto.Settled registry

section Settling

variable {registry : Registry}

/-- Signatures that can be resolved come to settled prototypes. -/
theorem settled_of_resolveAll {binding : Binding} {signatures : List Signature}
    {protos : List Prototype}
    (resolved : Signature.resolveAll registry binding signatures = .ok protos)
    (name proxy : String) : OverloadSet.Settled registry ⟨name, proxy, protos⟩ := by
  intro proto member
  refine ⟨registered_of_resolveAll resolved proto member, ?_⟩
  intro unconverted
  obtain ⟨_, -, protoResolved⟩ :=
    Outcome.exists_of_mem_right (Signature.resolveAll_eq_ok_iff.mp resolved) member
  have selected := protoResolved.result.2
  rw [unconverted, Registry.select_eq_none_iff] at selected
  exact eq_of_beq selected

end Settling

namespace Registry

/-- A registry takes an entry: what has to hold of it before, and what it is
after. -/
inductive Takes (registry : Registry) : Entry → Registry → Prop where
  | type {conv : Converter} {next : Registry} (accepted : registry.register conv = .ok next) :
      Takes registry (.type conv) next
  | link {derived base : TypeKey} {next : Registry}
      (accepted : registry.addBase derived base = .ok next) :
      Takes registry (.link derived base) next
  | function {bound : OverloadSet} (settled : bound.Settled registry) :
      Takes registry (.function bound) registry
  | ctor {owner : TypeKey} {bound : OverloadSet} (known : registry.contains owner = true)
      (settled : bound.Settled registry) :
      Takes registry (.ctor owner bound)
        (registry.modify owner fun conv => { conv with ctor := some bound })
  | method {owner : TypeKey} {bound : OverloadSet} (known : registry.contains owner = true)
      (settled : bound.Settled registry) :
      Takes registry (.method owner bound)
        (registry.modify owner fun conv => { conv with methods := conv.methods ++ [bound] })
  | member {owner : TypeKey} {param : Param} (known : registry.contains owner = true) :
      Takes registry (.member owner param)
        (registry.modify owner fun conv => { conv with members := conv.members ++ [param] })

/-- A registry takes entries one after the other. -/
inductive TakesAll : Registry → List Entry → Registry → Prop where
  | nil (registry : Registry) : TakesAll registry [] registry
  | cons {registry middle next : Registry} {entry : Entry} {entries : List Entry}
      (first : registry.Takes entry middle) (rest : TakesAll middle entries next) :
      TakesAll registry (entry :: entries) next

namespace TakesAll

variable {registry middle next : Registry}

theorem single {entry : Entry} (taken : registry.Takes entry next) :
    registry.TakesAll [entry] next :=
  .cons taken (.nil next)

theorem eq_of_nil (taken : registry.TakesAll [] next) : next = registry := by
  cases taken
  rfl

theorem append {entries more : List Entry} (first : registry.TakesAll entries middle)
    (second : middle.TakesAll more next) : registry.TakesAll (entries ++ more) next := by
  induction first with
  | nil => exact second
  | cons taken _ ih => exact .cons taken (ih second)

end TakesAll

/-- An entry changes of the registered types what it says it does, and nothing
else. -/
theorem Takes.converters_eq {registry next : Registry} {entry : Entry}
    (taken : registry.Takes entry next) : next.converters = entry.apply registry.converters := by
  cases taken with
  | @type conv _ accepted =>
      rw [(register_eq_ok_iff.mp accepted).2.1]
      exact congrArg (· ++ [conv]) (List.map_id _).symm
  | link accepted =>
      obtain ⟨_, rfl⟩ := addBase_eq_ok_iff.mp accepted
      exact (converters_modify _).trans (List.append_nil _).symm
  | function _ => exact (List.map_id _).symm.trans (List.append_nil _).symm
  | ctor _ _ => exact (converters_modify _).trans (List.append_nil _).symm
  | method _ _ => exact (converters_modify _).trans (List.append_nil _).symm
  | member _ => exact (converters_modify _).trans (List.append_nil _).symm

end Registry

end Bindery
