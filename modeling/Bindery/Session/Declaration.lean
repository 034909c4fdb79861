import Bindery.Accessors
import Bindery.Dispatch.Build
import Bindery.Registry.Inheritance
import Bindery.Session.Basic

/-!
# Declarations

The declarations that a session accepts.  Each checks everything that can fail
before it changes anything: code is written aside and appended at the end.  A
list of members is bound one by one, and those before a failing one stay bound.
-/

namespace Bindery

namespace Declare

/-- Register a converter. -/
def register (conv : Converter) : Declare TypeKey := do
  let registry ← ofExcept (((← get).registry.register conv).mapError .registry)
  modify fun session => { session with registry := registry }
  log (.registered conv.canonical)
  return conv.key

/-- Write the declarations and the tag of a registered type. -/
def closeType (key : TypeKey) : Declare Unit := do
  let session ← get
  let conv ← ofExcept ((session.registry.get key).mapError .registry)
  writeHeader [.raw (conv.api session.name)]
  writeSource [
    .line ("// " ++ conv.canonical ++ " type glue"),
    .line ("static const char *" ++ conv.tag ++ " = \"" ++ conv.canonical ++ "\";"),
    .blank,
    .raw (conv.glue session.name)]
  log (.endedType conv.canonical)

/-- Register a type that is complete as it is. -/
def bindType (conv : Converter) : Declare TypeKey := do
  let key ← register conv
  closeType key
  return key

/-- Open a class, with the target's converter for classes. -/
def beginClass (name : String) : Declare TypeKey := do
  let session ← get
  let conv ← ofExcept ((session.target.classConverter name).mapError .malformed)
  let key ← register conv
  let api := conv.api session.name
  unless api.isEmpty do
    writeSource [.raw api, .blank]
  log (.beganClass name)
  return key

/-- Close a class. -/
def endClass (name : String) : Declare Unit := do
  let key ← ofExcept (((← get).registry.require name).mapError .registry)
  closeType key

/-- Make one registered type a direct base of another. -/
def addBase (derived base : String) : Declare Unit := do
  let session ← get
  let derivedKey ← ofExcept ((session.registry.require derived).mapError .registry)
  let baseKey ← ofExcept ((session.registry.require base).mapError .registry)
  let registry ← ofExcept ((session.registry.addBase derivedKey baseKey).mapError .registry)
  let derivedConv ← ofExcept ((session.registry.get derivedKey).mapError .registry)
  let baseConv ← ofExcept ((session.registry.get baseKey).mapError .registry)
  log (.linked derivedConv.canonical baseConv.canonical)
  modify fun session => { session with registry := registry }

/-- The registered type that a constructor or method belongs to; a failure names
the binding. -/
def ownerFor (context text : String) : Declare TypeKey := do
  ofExcept (((← get).registry.owner text).mapError (.inBinding context))

/-- The dispatch tree of an overload set. -/
def dispatchTree (protos : List Prototype) (context : String) : Declare Dispatch.Tree := do
  logAll ((Dispatch.Tree.visited protos context).map fun branch =>
    .checkedBranch context branch.argIndex branch.converter branch.candidates)
  ofExcept (Dispatch.Tree.ofPrototypes protos context)

/-- Note a bound overload set where it belongs. -/
def record (binding : Binding) (bound : OverloadSet) : Declare Unit :=
  match binding with
  | .function _ =>
      modify fun session => { session with functions := session.functions ++ [bound] }
  | .ctor _ key => modifyType key fun conv => { conv with ctor := some bound }
  | .method _ _ key =>
      modifyType key fun conv => { conv with methods := conv.methods ++ [bound] }

/-- The code of an overload set under a comment that names it. -/
def overloadCode (session : Session) (binding : Binding) (protos : List Prototype)
    (tree : Dispatch.Tree) : Draft Unit := do
  .write [.line ("// " ++ binding.boundName)]
  tree.emit session.target session.registry binding protos
  .write [.blank]

/-- Bind an overload set; `front` is written in front of its code. -/
def bindOverloads (binding : Binding) (signatures : List Signature) (front : String) :
    Declare Unit := do
  let session ← get
  let protos ← ofExcept (Signature.resolveAll session.registry binding signatures)
  let tree ← dispatchTree protos binding.text
  let text ← compose (overloadCode session binding protos tree)
  log (.boundOverloads binding.text binding.proxy protos.length tree.arms.length)
  record binding ⟨binding.boundName, binding.proxy, protos⟩
  writeSource [.raw front, .raw text]

/-- Bind a free function. -/
def bindFunction (name : String) (signatures : List Signature) : Declare Unit :=
  bindOverloads (.function name) signatures ""

/-- Bind the constructor of a type, given the argument texts of each overload. -/
def bindConstructor (type : String) (overloads : List (List String)) : Declare Unit := do
  let key ← ownerFor (type ++ " constructor") type
  bindOverloads (.ctor type key) (overloads.map fun args => ⟨type, args⟩) ""

/-- Bind a method of a type. -/
def bindMethod (type name : String) (signatures : List Signature) : Declare Unit := do
  let key ← ownerFor (type ++ "." ++ name ++ " method") type
  bindOverloads (.method type name key) signatures ""

/-- The code of a member's accessors under a comment that names it. -/
def accessorCode (session : Session) (type : String) (accessors : Accessors) : Draft Unit := do
  .write [.line ("// get/set " ++ accessors.member.type.canonical ++ " " ++ type ++ "::" ++
    accessors.name)]
  accessors.emit session.target session.registry
  .write [.blank]

/-- Bind a data member of a type. -/
def bindMember (type member : String) : Declare Unit := do
  let session ← get
  let accessors ← ofExcept (Accessors.plan session.registry type member)
  let text ← compose (accessorCode session type accessors)
  log (.boundMember type accessors.name accessors.getter accessors.setter)
  modifyType accessors.owner fun conv =>
    { conv with members := conv.members ++ [accessors.member] }
  writeSource [.raw text]

/-- Bind data members in order, up to the first failure. -/
def bindMembers (type : String) : List String → Declare Unit
  | [] => return
  | member :: rest => do
      bindMember type member
      bindMembers type rest

/-- Declare a template; one of the same name is replaced. -/
def declareTemplate (template : Template) : Declare Unit :=
  modify fun session => { session with
    templates := template :: session.templates.filter (·.name != template.name) }

/-- Bind an instance of a template as a free function. -/
def bindTemplate (template name : String) (types : List String) : Declare Unit := do
  let session ← get
  match session.template? template with
  | none => throw (.unknownTemplate template)
  | some found =>
      let inst ← ofExcept (found.instantiate types)
      let wrapper := session.source.fork.write (inst.wrapper name ++ [.blank])
      bindOverloads (.function name) [inst.signature] wrapper.text

/-- Include a file. -/
def addInclude (path : String) (system : Bool) : Declare Unit :=
  modify fun session =>
    if system then { session with systemIncludes := session.systemIncludes ++ [path] }
    else { session with userIncludes := session.userIncludes ++ [path] }

/-- Append a text as it stands to artifacts. -/
def insertCode (code : String) (artifacts : Artifacts) : Declare Unit := do
  if artifacts.header then
    writeHeader [.raw code]
  if artifacts.source then
    writeSource [.raw code]

/-- Append the summary of the bound functions to the source. -/
def writeSummary : Declare Unit := do
  let summary := (← get).summary
  writeSource [.raw summary, .blank]

end Declare

/-- What can be declared in a session. -/
inductive Declaration where
  | bindType (conv : Converter)
  | beginClass (name : String)
  | endClass (name : String)
  | addBase (derived base : String)
  | bindFunction (name : String) (signatures : List Signature)
  | bindConstructor (type : String) (overloads : List (List String))
  | bindMethod (type name : String) (signatures : List Signature)
  | bindMember (type member : String)
  | bindMembers (type : String) (members : List String)
  | declareTemplate (template : Template)
  | bindTemplate (template name : String) (types : List String)
  | addInclude (path : String) (system : Bool)
  | insertCode (code : String) (artifacts : Artifacts)
  | writeSummary

/-- Carry out a declaration; one that registers a type gives its key. -/
def Declaration.perform : Declaration → Declare (Option TypeKey)
  | .bindType conv => return some (← Declare.bindType conv)
  | .beginClass name => return some (← Declare.beginClass name)
  | .endClass name => do Declare.endClass name; return none
  | .addBase derived base => do Declare.addBase derived base; return none
  | .bindFunction name signatures => do Declare.bindFunction name signatures; return none
  | .bindConstructor type overloads => do Declare.bindConstructor type overloads; return none
  | .bindMethod type name signatures => do Declare.bindMethod type name signatures; return none
  | .bindMember type member => do Declare.bindMember type member; return none
  | .bindMembers type members => do Declare.bindMembers type members; return none
  | .declareTemplate template => do Declare.declareTemplate template; return none
  | .bindTemplate template name types => do
      Declare.bindTemplate template name types
      return none
  | .addInclude path system => do Declare.addInclude path system; return none
  | .insertCode code artifacts => do Declare.insertCode code artifacts; return none
  | .writeSummary => do Declare.writeSummary; return none

end Bindery
