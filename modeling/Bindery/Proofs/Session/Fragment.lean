import Bindery.Proofs.Session.Recording

/-!
# What a declaration writes

A declaration depends on the module's name, the target, the unit of indentation,
the registry, the templates and the bound functions, and on nothing else of a
session.  From these follow whether it is accepted, what it appends to the
artifacts, and what they are afterwards; what is written already plays no part.
-/

namespace Bindery

/-- What declarations depend on. -/
structure Setting where
  name : String
  target : Target
  unit : String
  registry : Registry
  templates : List Template
  functions : List OverloadSet

/-- What is appended to the artifacts and the includes of a session. -/
@[ext]
structure Fragment where
  header : String := ""
  source : String := ""
  systemIncludes : List String := []
  userIncludes : List String := []

/-- What an accepted call appends, and the setting that it leads to. -/
structure Effect where
  fragment : Fragment
  next : Setting

namespace Fragment

/-- One fragment behind another. -/
def append (first second : Fragment) : Fragment where
  header := first.header ++ second.header
  source := first.source ++ second.source
  systemIncludes := first.systemIncludes ++ second.systemIncludes
  userIncludes := first.userIncludes ++ second.userIncludes

/-- Fragments one behind the other. -/
def join (fragments : List Fragment) : Fragment :=
  fragments.foldr append {}

theorem empty_append (fragment : Fragment) : append {} fragment = fragment := by
  ext1 <;> simp [append]

end Fragment

/-- What the declarations of a session depend on. -/
def Session.setting (session : Session) : Setting where
  name := session.name
  target := session.target
  unit := session.source.unit
  registry := session.registry
  templates := session.templates
  functions := session.functions

namespace Converter

/-- The definition of a type's tag. -/
def tagLine (conv : Converter) : String :=
  "static const char *" ++ conv.tag ++ " = \"" ++ conv.canonical ++ "\";"

theorem key_of_ctor (bound : OverloadSet) (conv : Converter) :
    ({ conv with ctor := some bound } : Converter).key = conv.key := rfl

theorem key_of_methods (bound : OverloadSet) (conv : Converter) :
    ({ conv with methods := conv.methods ++ [bound] } : Converter).key = conv.key := rfl

theorem key_of_members (member : Param) (conv : Converter) :
    ({ conv with members := conv.members ++ [member] } : Converter).key = conv.key := rfl

end Converter

namespace Setting

variable (setting : Setting)

/-- A session in the setting with nothing written. -/
def session : Session where
  name := setting.name
  target := setting.target
  options := {}
  registry := setting.registry
  templates := setting.templates
  functions := setting.functions
  systemIncludes := []
  header := { unit := setting.unit }
  source := { unit := setting.unit }

/-- What closing a type appends. -/
def closing (conv : Converter) : Fragment where
  header := conv.api setting.name
  source := "// " ++ conv.canonical ++ " type glue" ++ "\n" ++
    (conv.tagLine ++ "\n" ++ ("\n" ++ conv.glue setting.name))

/-- The setting after an overload set is bound. -/
def record (binding : Binding) (bound : OverloadSet) : Setting :=
  match binding with
  | .function _ => { setting with functions := setting.functions ++ [bound] }
  | .ctor _ key => { setting with
      registry := setting.registry.modify key (fun conv => { conv with ctor := some bound })
        (Converter.key_of_ctor bound) }
  | .method _ _ key => { setting with
      registry := setting.registry.modify key
        (fun conv => { conv with methods := conv.methods ++ [bound] })
        (Converter.key_of_methods bound) }

/-- The setting after a data member is bound. -/
def addMember (owner : TypeKey) (member : Param) : Setting :=
  { setting with
    registry := setting.registry.modify owner
      (fun conv => { conv with members := conv.members ++ [member] })
      (Converter.key_of_members member) }

/-- The effect of binding an overload set. -/
def bindOverloads? (binding : Binding) (signatures : List Signature) (front : String) :
    Option Effect := do
  let protos ← (Signature.resolveAll setting.registry binding signatures).toOption
  let tree ← (Dispatch.Tree.ofPrototypes protos binding.text).toOption
  let code := (Declare.overloadCode setting.session binding protos tree).code
  return {
    fragment := { source := front ++ code.textAt setting.unit 0 }
    next := setting.record binding ⟨binding.boundName, binding.proxy, protos⟩ }

/-- The effect of binding a data member. -/
def bindMember? (type member : String) : Option Effect := do
  let accessors ← (Accessors.plan setting.registry type member).toOption
  let code := (Declare.accessorCode setting.session type accessors).code
  return {
    fragment := { source := code.textAt setting.unit 0 }
    next := setting.addMember accessors.owner accessors.member }

/-- The effect of data members that are bound one by one, up to the first that is
refused. -/
def bindMembers (setting : Setting) (type : String) : List String → Effect
  | [] => ⟨{}, setting⟩
  | member :: rest =>
      (setting.bindMember? type member).elim ⟨{}, setting⟩ fun effect =>
        let later := effect.next.bindMembers type rest
        ⟨effect.fragment.append later.fragment, later.next⟩

/-- Whether no data member is refused. -/
def bindsAll (setting : Setting) (type : String) : List String → Bool
  | [] => true
  | member :: rest =>
      (setting.bindMember? type member).elim false fun effect => effect.next.bindsAll type rest

end Setting

namespace Declaration

/-- The effect of a single call if it is accepted; a list of members is not one call
but several. -/
def effect? (setting : Setting) : Declaration → Option Effect
  | .bindType conv => do
      let registry ← (setting.registry.register conv).toOption
      return ⟨setting.closing conv, { setting with registry }⟩
  | .beginClass name => do
      let conv ← (setting.target.classConverter name).toOption
      let registry ← (setting.registry.register conv).toOption
      let api := conv.api setting.name
      return ⟨{ source := if api.isEmpty then "" else api ++ "\n" }, { setting with registry }⟩
  | .endClass name => do
      let key ← (setting.registry.require name).toOption
      let conv ← setting.registry.find? key
      return ⟨setting.closing conv, setting⟩
  | .addBase derived base => do
      let derivedKey ← (setting.registry.require derived).toOption
      let baseKey ← (setting.registry.require base).toOption
      let registry ← (setting.registry.addBase derivedKey baseKey).toOption
      return ⟨{}, { setting with registry }⟩
  | .bindFunction name signatures => setting.bindOverloads? (.function name) signatures ""
  | .bindConstructor type overloads => do
      let key ← (setting.registry.owner type).toOption
      setting.bindOverloads? (.ctor type key) (overloads.map fun args => ⟨type, args⟩) ""
  | .bindMethod type name signatures => do
      let key ← (setting.registry.owner type).toOption
      setting.bindOverloads? (.method type name key) signatures ""
  | .bindMember type member => setting.bindMember? type member
  | .bindMembers _ _ => none
  | .declareTemplate template =>
      some ⟨{}, { setting with
        templates := template :: setting.templates.filter (·.name != template.name) }⟩
  | .bindTemplate template name types => do
      let found ← setting.session.template? template
      let inst ← (found.instantiate types).toOption
      let wrapper := inst.wrapper name ++ [.blank]
      setting.bindOverloads? (.function name) [inst.signature] (wrapper.textAt setting.unit 0)
  | .addInclude path system =>
      some ⟨if system then { systemIncludes := [path] } else { userIncludes := [path] }, setting⟩
  | .insertCode code artifacts =>
      some ⟨{
        header := if artifacts.header then code else ""
        source := if artifacts.source then code else "" }, setting⟩
  | .writeSummary => some ⟨{ source := setting.session.summary ++ "\n" }, setting⟩

/-- Whether a declaration is accepted. -/
def accepted (setting : Setting) : Declaration → Bool
  | .bindMembers type members => setting.bindsAll type members
  | decl => (decl.effect? setting).isSome

/-- The effect of a declaration; one that is refused has none. -/
def effect (setting : Setting) : Declaration → Effect
  | .bindMembers type members => setting.bindMembers type members
  | decl => (decl.effect? setting).getD ⟨{}, setting⟩

section Single

variable {decl : Declaration} (single : ∀ type members, decl ≠ .bindMembers type members)
include single

theorem accepted_of_single (setting : Setting) :
    decl.accepted setting = (decl.effect? setting).isSome := by
  rw [accepted]
  exact single

theorem effect_of_single (setting : Setting) :
    decl.effect setting = (decl.effect? setting).getD ⟨{}, setting⟩ := by
  rw [effect]
  exact single

end Single

end Declaration

/-! ## Sessions that gain a fragment -/

namespace Writer

theorem append_empty (writer : Writer) : writer.append "" = writer := by
  simp [append]

theorem append_append (writer : Writer) (first second : String) :
    (writer.append first).append second = writer.append (first ++ second) := by
  simp [append, String.append_assoc]

/-- At the outermost level nothing stands in front of a line. -/
theorem line_of_level {writer : Writer} (outermost : writer.level = 0) (text : String) :
    writer.line text = writer.append (text ++ "\n") := by
  simp [line, indentation, outermost, String.join]

end Writer

namespace Session

/-- Both artifacts are written at the outermost level. -/
structure Outermost (session : Session) : Prop where
  header : session.header.level = 0
  source : session.source.level = 0

/-- The second session is the first with a fragment behind what it holds. -/
structure Gains (before : Session) (fragment : Fragment) (after : Session) : Prop where
  header : after.header = before.header.append fragment.header
  source : after.source = before.source.append fragment.source
  systemIncludes : after.systemIncludes = before.systemIncludes ++ fragment.systemIncludes
  userIncludes : after.userIncludes = before.userIncludes ++ fragment.userIncludes
  options : after.options = before.options

namespace Gains

variable {before middle after : Session} {fragment more : Fragment}

theorem refl (session : Session) : session.Gains {} session :=
  ⟨(Writer.append_empty _).symm, (Writer.append_empty _).symm, (List.append_nil _).symm,
    (List.append_nil _).symm, rfl⟩

theorem trans (first : before.Gains fragment middle) (second : middle.Gains more after) :
    before.Gains (fragment.append more) after := by
  constructor
  · rw [second.header, first.header, Writer.append_append]
    rfl
  · rw [second.source, first.source, Writer.append_append]
    rfl
  · rw [second.systemIncludes, first.systemIncludes, List.append_assoc]
    rfl
  · rw [second.userIncludes, first.userIncludes, List.append_assoc]
    rfl
  · rw [second.options, first.options]

theorem outermost (gains : before.Gains fragment after) (outermost : before.Outermost) :
    after.Outermost := by
  constructor
  · rw [gains.header]
    exact outermost.header
  · rw [gains.source]
    exact outermost.source

/-- A session that changes in nothing that is written. -/
theorem of_same (header : after.header = before.header) (source : after.source = before.source)
    (systemIncludes : after.systemIncludes = before.systemIncludes)
    (userIncludes : after.userIncludes = before.userIncludes)
    (options : after.options = before.options) : before.Gains {} after := by
  have none := refl before
  exact ⟨header.trans none.header, source.trans none.source,
    systemIncludes.trans none.systemIncludes, userIncludes.trans none.userIncludes, options⟩

/-- A session that changes in the text of its source only. -/
theorem of_source {text : String} (source : after.source = before.source.append text)
    (header : after.header = before.header)
    (systemIncludes : after.systemIncludes = before.systemIncludes)
    (userIncludes : after.userIncludes = before.userIncludes)
    (options : after.options = before.options) : before.Gains { source := text } after := by
  have none := refl before
  exact ⟨header.trans none.header, source, systemIncludes.trans none.systemIncludes,
    userIncludes.trans none.userIncludes, options⟩

end Gains

/-- What changes in nothing that is written may come first. -/
theorem Gains.of_silent {before middle after : Session} {fragment : Fragment}
    (silent : before.Gains {} middle) (gains : middle.Gains fragment after) :
    before.Gains fragment after := by
  have both := silent.trans gains
  rwa [Fragment.empty_append] at both

/-- The second session is the first after the effect. -/
def Undergoes (before : Session) (effect : Effect) (after : Session) : Prop :=
  before.Gains effect.fragment after ∧ after.setting = effect.next

end Session

namespace Declare

variable {α β : Type} {session : Session} {expected : Option Effect}

/-- The step does what is expected of it: it has the effect, or it is refused and only
logs. -/
def Follows (step : Declare α) (session : Session) : Option Effect → Prop
  | some effect => ∃ value after, step session = .ok value after ∧ session.Undergoes effect after
  | none => ∃ error events, step session = .error error (session.logged events)

theorem follows_get_bind {next : Session → Declare β}
    (later : (next session).Follows session expected) :
    (get >>= next).Follows session expected := by
  cases expected <;> exact later

theorem follows_ofExcept_bind {outcome : Except BindError α} {next : α → Declare β}
    {expected : α → Option Effect}
    (later : ∀ value, outcome = .ok value → (next value).Follows session (expected value)) :
    (ofExcept outcome >>= next).Follows session (outcome.toOption >>= expected) := by
  cases outcome with
  | error error => exact ⟨error, [], congrArg _ session.logged_nil.symm⟩
  | ok value =>
      have done := later value rfl
      change Follows _ _ (expected value)
      generalize expected value = result at done ⊢
      cases result <;> exact done

theorem follows_mapError_bind {ε : Type} {wrap : ε → BindError} {outcome : Except ε α}
    {next : α → Declare β} {expected : α → Option Effect}
    (later : ∀ value, outcome = .ok value → (next value).Follows session (expected value)) :
    (ofExcept (outcome.mapError wrap) >>= next).Follows session
      (outcome.toOption >>= expected) := by
  rw [← Outcome.toOption_mapError wrap outcome]
  apply follows_ofExcept_bind
  exact fun value done => later value (Outcome.mapError_eq_ok_iff.mp done)

theorem follows_logAll_bind {events : List Event} {next : Unit → Declare β}
    (later : (next ()).Follows (session.logged events) expected) :
    (logAll events >>= next).Follows session expected := by
  cases expected with
  | some effect =>
      obtain ⟨value, after, done, gains, reaches⟩ := later
      exact ⟨value, after, done, ⟨gains.header, gains.source, gains.systemIncludes,
        gains.userIncludes, gains.options⟩, reaches⟩
  | none =>
      obtain ⟨error, more, failed⟩ := later
      refine ⟨error, events ++ more, ?_⟩
      rw [← session.logged_logged]
      exact failed

/-! ## Declarations -/

theorem register_of_ok {conv : Converter} {registry : Registry}
    (accepted : session.registry.register conv = .ok registry) :
    register conv session =
      .ok conv.key (Session.logged { session with registry } [.registered conv.canonical]) := by
  change (ofExcept ((session.registry.register conv).mapError .registry) >>= _) session = _
  rw [accepted]
  rfl

theorem register_of_error {conv : Converter} {error : RegistryError}
    (refused : session.registry.register conv = .error error) :
    register conv session = .error (.registry error) session := by
  change (ofExcept ((session.registry.register conv).mapError .registry) >>= _) session = _
  rw [refused]
  rfl

/-- Closing a registered type writes its declarations and the definition of its tag. -/
theorem closeType_of_find? {key : TypeKey} {conv : Converter} (outermost : session.Outermost)
    (found : session.registry.find? key = some conv) :
    ∃ after, closeType key session = .ok () after ∧
      session.Undergoes ⟨session.setting.closing conv, session.setting⟩ after := by
  change ∃ after, (ofExcept ((session.registry.get key).mapError .registry) >>= _) session =
    .ok () after ∧ _
  rw [Registry.get_eq_ok_iff.mpr found]
  refine ⟨_, rfl, ⟨rfl, ?_, (List.append_nil _).symm, (List.append_nil _).symm, rfl⟩, rfl⟩
  have next : (session.source.append ("// " ++ conv.canonical ++ " type glue" ++ "\n")).level = 0 :=
    outermost.source
  change (((session.source.line _).line conv.tagLine).append "\n").append
    (conv.glue session.name) = _
  rw [Writer.line_of_level outermost.source, Writer.line_of_level next, Writer.append_append,
    Writer.append_append, Writer.append_append]
  rfl

/-- Behind an accepted registration everything goes through. -/
theorem follows_register_bind {conv : Converter} {next : TypeKey → Declare β}
    {effect : Registry → Effect}
    (later : ∀ registry, session.registry.register conv = .ok registry →
      (next conv.key).Follows (Session.logged { session with registry }
        [.registered conv.canonical]) (some (effect registry))) :
    (register conv >>= next).Follows session
      ((session.registry.register conv).toOption >>= fun registry => some (effect registry)) := by
  cases outcome : session.registry.register conv with
  | error error =>
      refine ⟨.registry error, [], ?_⟩
      rw [bind_of_error (register_of_error outcome), session.logged_nil]
  | ok registry =>
      obtain ⟨value, after, done, gains, reaches⟩ := later registry outcome
      have silent : session.Gains {} (Session.logged { session with registry }
          [.registered conv.canonical]) := .of_same rfl rfl rfl rfl rfl
      refine ⟨value, after, ?_, silent.of_silent gains, reaches⟩
      rw [bind_of_ok (register_of_ok outcome), done]

theorem follows_bindType (outermost : session.Outermost) (conv : Converter) :
    (bindType conv).Follows session ((Declaration.bindType conv).effect? session.setting) := by
  apply follows_register_bind
  intro registry accepted
  have found := Registry.find?_of_register accepted
  have registered : (Session.logged { session with registry }
      [.registered conv.canonical]).Outermost := ⟨outermost.header, outermost.source⟩
  obtain ⟨after, closed, undergoes⟩ := closeType_of_find? registered found
  exact ⟨conv.key, after, bind_of_ok closed, undergoes⟩

theorem follows_beginClass (name : String) :
    (beginClass name).Follows session ((Declaration.beginClass name).effect? session.setting) := by
  apply follows_get_bind
  apply follows_mapError_bind
  intro conv _
  apply follows_register_bind
  intro registry _
  change Follows _ _ (some ⟨{ source :=
    if (conv.api session.name).isEmpty then "" else conv.api session.name ++ "\n" }, _⟩)
  by_cases silent : (conv.api session.name).isEmpty = true
  · simp only [silent, if_true]
    exact ⟨conv.key, _, rfl, .of_same rfl rfl rfl rfl rfl, rfl⟩
  · simp only [silent]
    exact ⟨conv.key, _, rfl, .of_source (Writer.append_append _ _ _) rfl rfl rfl rfl, rfl⟩

theorem follows_endClass (outermost : session.Outermost) (name : String) :
    (endClass name).Follows session ((Declaration.endClass name).effect? session.setting) := by
  rw [Declaration.effect?]
  apply follows_get_bind
  apply follows_mapError_bind
  intro key required
  have known := Registry.contains_of_require required
  obtain ⟨conv, found⟩ := Registry.contains_iff_exists_find?.mp known
  obtain ⟨after, closed, undergoes⟩ := closeType_of_find? outermost found
  rw [show session.setting.registry.find? key = some conv from found]
  exact ⟨(), after, closed, undergoes⟩

theorem follows_addBase (derived base : String) :
    (addBase derived base).Follows session
      ((Declaration.addBase derived base).effect? session.setting) := by
  rw [Declaration.effect?]
  apply follows_get_bind
  apply follows_mapError_bind
  intro derivedKey _
  apply follows_mapError_bind
  intro baseKey _
  apply follows_mapError_bind
  intro registry accepted
  obtain ⟨⟨derivedKnown, baseKnown, -⟩, -⟩ := Registry.addBase_eq_ok_iff.mp accepted
  obtain ⟨derivedConv, derivedFound⟩ := Registry.contains_iff_exists_find?.mp derivedKnown
  obtain ⟨baseConv, baseFound⟩ := Registry.contains_iff_exists_find?.mp baseKnown
  rw [Registry.get_eq_ok_iff.mpr derivedFound, Registry.get_eq_ok_iff.mpr baseFound]
  exact ⟨(), _, rfl, .of_same rfl rfl rfl rfl rfl, rfl⟩

theorem compose_of_completes {draft : Draft Unit} (completes : draft.Completes) :
    ∃ entries, compose draft session =
      .ok (draft.code.textAt session.source.unit 0) { session with entries } := by
  rcases draft with ⟨code, entries, outcome⟩
  obtain ⟨⟨⟩, done⟩ := completes
  cases done
  exact ⟨_, rfl⟩

/-- Code that is composed is appended once the session has noted what it belongs to. -/
theorem follows_compose_bind {draft : Draft Unit} {event : Event} {note : Declare Unit}
    {code : String → Code} {appended : String → String} {next : Setting}
    (completes : draft.Completes)
    (notes : ∀ entries, note.Follows (Session.logged { session with entries } [event])
      (some ⟨{}, next⟩))
    (writes : ∀ (writer : Writer) (text : String),
      writer.write (code text) = writer.append (appended text)) :
    (do
      let text ← compose draft
      log event
      note
      writeSource (code text)).Follows session
        (some ⟨{ source := appended (draft.code.textAt session.source.unit 0) }, next⟩) := by
  obtain ⟨entries, composed⟩ := compose_of_completes completes
  obtain ⟨⟨⟩, after, noted, gains, reaches⟩ := notes entries
  have silent : session.Gains {} (Session.logged { session with entries } [event]) :=
    .of_same rfl rfl rfl rfl rfl
  generalize draft.code.textAt session.source.unit 0 = text at composed ⊢
  refine ⟨(), { after with source := after.source.write (code text) }, ?_, ?_, ?_⟩
  · rw [bind_of_ok composed]
    change (note >>= fun _ => writeSource (code text)) (Session.logged { session with entries }
      [event]) = _
    rw [bind_of_ok noted]
    rfl
  · exact (silent.of_silent gains).of_silent (.of_source (writes _ _) rfl rfl rfl rfl)
  · rw [writes]
    exact reaches

theorem follows_modifyType {key : TypeKey} {change : Converter → Converter}
    (keeps : ∀ conv, (change conv).key = conv.key)
    (known : session.registry.contains key = true) :
    (modifyType key change keeps).Follows session (some ⟨{}, { session.setting with
      registry := session.registry.modify key change keeps }⟩) := by
  obtain ⟨conv, found⟩ := Registry.contains_iff_exists_find?.mp known
  have done : modifyType key change keeps session =
      .ok () { session with registry := session.registry.modify key change keeps } := by
    change (ofExcept ((session.registry.get key).mapError .registry) >>= _) session = _
    rw [Registry.get_eq_ok_iff.mpr found]
    rfl
  exact ⟨(), _, done, .of_same rfl rfl rfl rfl rfl, rfl⟩

theorem follows_record {binding : Binding} (bound : OverloadSet)
    (owned : binding.Registered session.registry) :
    (record binding bound).Follows session
      (some ⟨{}, session.setting.record binding bound⟩) := by
  cases binding with
  | function name => exact ⟨(), _, rfl, .of_same rfl rfl rfl rfl rfl, rfl⟩
  | ctor owner key =>
      apply follows_modifyType
      exact owned key rfl
  | method owner name key =>
      apply follows_modifyType
      exact owned key rfl

theorem follows_bindOverloads {binding : Binding} (signatures : List Signature) (front : String)
    (owned : binding.Registered session.registry) :
    (bindOverloads binding signatures front).Follows session
      (session.setting.bindOverloads? binding signatures front) := by
  apply follows_get_bind
  apply follows_ofExcept_bind
  intro protos resolved
  unfold dispatchTree
  rw [bind_assoc]
  apply follows_logAll_bind
  apply follows_ofExcept_bind
  intro tree built
  apply follows_compose_bind
  · exact completes_overloadCode owned (registered_of_resolveAll resolved) built
  · exact fun _ => follows_record _ owned
  · exact fun writer text => Writer.append_append writer front text

theorem follows_bindFunction (name : String) (signatures : List Signature) :
    (bindFunction name signatures).Follows session
      ((Declaration.bindFunction name signatures).effect? session.setting) := by
  exact follows_bindOverloads _ _ (Binding.registered_function name)

theorem follows_ownerFor_bind {context text : String} {next : TypeKey → Declare β}
    {expected : TypeKey → Option Effect}
    (later : ∀ key, session.registry.contains key = true →
      (next key).Follows session (expected key)) :
    (ownerFor context text >>= next).Follows session
      ((session.registry.owner text).toOption >>= expected) := by
  unfold ownerFor
  rw [bind_assoc]
  apply follows_get_bind
  apply follows_mapError_bind
  exact fun key owned => later key (contains_of_owner owned)

theorem follows_bindConstructor (type : String) (overloads : List (List String)) :
    (bindConstructor type overloads).Follows session
      ((Declaration.bindConstructor type overloads).effect? session.setting) := by
  apply follows_ownerFor_bind
  intro key known
  exact follows_bindOverloads _ _ (Binding.registered_ctor known type)

theorem follows_bindMethod (type name : String) (signatures : List Signature) :
    (bindMethod type name signatures).Follows session
      ((Declaration.bindMethod type name signatures).effect? session.setting) := by
  apply follows_ownerFor_bind
  intro key known
  exact follows_bindOverloads _ _ (Binding.registered_method known type name)

theorem follows_bindTemplate (template name : String) (types : List String) :
    (bindTemplate template name types).Follows session
      ((Declaration.bindTemplate template name types).effect? session.setting) := by
  rw [Declaration.effect?, show session.setting.session.template? template =
    session.template? template from rfl]
  apply follows_get_bind
  cases session.template? template with
  | none => exact ⟨.unknownTemplate template, [], congrArg _ session.logged_nil.symm⟩
  | some found =>
      apply follows_ofExcept_bind
      intro inst _
      exact follows_bindOverloads _ _ (Binding.registered_function name)

theorem follows_bindMember (type member : String) :
    (bindMember type member).Follows session
      ((Declaration.bindMember type member).effect? session.setting) := by
  apply follows_get_bind
  apply follows_ofExcept_bind
  intro accessors planned
  have writes (writer : Writer) (text : String) :
      writer.write [.raw text] = writer.append (id text) := rfl
  refine follows_compose_bind (completes_accessorCode planned) (fun entries => ?_) writes
  apply follows_modifyType
  exact (Accessors.contains_of_plan planned).1

theorem follows_addInclude (path : String) (system : Bool) :
    (addInclude path system).Follows session
      ((Declaration.addInclude path system).effect? session.setting) := by
  have same := Session.Gains.refl session
  cases system with
  | true => exact ⟨(), _, rfl, ⟨same.header, same.source, rfl, same.userIncludes, rfl⟩, rfl⟩
  | false => exact ⟨(), _, rfl, ⟨same.header, same.source, same.systemIncludes, rfl, rfl⟩, rfl⟩

theorem follows_insertCode (code : String) (artifacts : Artifacts) :
    (insertCode code artifacts).Follows session
      ((Declaration.insertCode code artifacts).effect? session.setting) := by
  have same := Session.Gains.refl session
  rcases artifacts with ⟨header, source⟩
  cases header <;> cases source
  · exact ⟨(), _, rfl, same, rfl⟩
  · exact ⟨(), _, rfl, ⟨same.header, rfl, same.systemIncludes, same.userIncludes, rfl⟩, rfl⟩
  · exact ⟨(), _, rfl, ⟨rfl, same.source, same.systemIncludes, same.userIncludes, rfl⟩, rfl⟩
  · exact ⟨(), _, rfl, ⟨rfl, rfl, same.systemIncludes, same.userIncludes, rfl⟩, rfl⟩

theorem follows_writeSummary :
    writeSummary.Follows session (Declaration.writeSummary.effect? session.setting) :=
  ⟨(), _, rfl, .of_source (Writer.append_append _ _ _) rfl rfl rfl rfl, rfl⟩

end Declare

end Bindery
