import Bindery.Proofs.Dispatch.Printing
import Bindery.Proofs.Generation
import Bindery.Session.Declaration

/-!
# Failed declarations change nothing

A declaration makes all its checks before its first change: after them every
look-up finds its type again and all code can be generated.  So a declaration
that fails has done nothing but log.
-/

namespace Bindery

/-- The session with further events logged. -/
def Session.logged (session : Session) (events : List Event) : Session :=
  { session with log := session.log ++ events }

theorem Session.logged_nil (session : Session) : session.logged [] = session := by
  simp [logged]

theorem Session.logged_logged (session : Session) (events more : List Event) :
    (session.logged events).logged more = session.logged (events ++ more) := by
  simp [logged]

namespace Declare

variable {α β : Type} {session : Session}

section Bind

variable {first : Declare α} {next : α → Declare β}

theorem bind_of_ok {value : α} {middle : Session} (done : first session = .ok value middle) :
    (first >>= next) session = next value middle := by
  change EStateM.bind first next session = _
  rw [EStateM.bind, done]

theorem bind_of_error {error : BindError} {middle : Session}
    (failed : first session = .error error middle) :
    (first >>= next) session = .error error middle := by
  change EStateM.bind first next session = _
  rw [EStateM.bind, failed]

theorem bind_eq_ok_iff {result : β} {after : Session} :
    (first >>= next) session = .ok result after ↔
      ∃ value middle, first session = .ok value middle ∧ next value middle = .ok result after := by
  cases outcome : first session with
  | ok value middle => simp [bind_of_ok outcome]
  | error error middle => simp [bind_of_error outcome]

theorem bind_eq_error_iff {error : BindError} {after : Session} :
    (first >>= next) session = .error error after ↔
      first session = .error error after ∨
        ∃ value middle, first session = .ok value middle ∧
          next value middle = .error error after := by
  cases outcome : first session with
  | ok value middle => simp [bind_of_ok outcome]
  | error found middle => simp [bind_of_error outcome]

/-- A result that is only passed on adds no failure. -/
theorem bind_pure_eq_error_iff {f : α → β} {error : BindError} {after : Session} :
    (first >>= fun value => pure (f value)) session = .error error after ↔
      first session = .error error after := by
  rw [bind_eq_error_iff]
  simp [pure, EStateM.pure]

end Bind

/-! ## Steps that go through -/

/-- The step does not fail. -/
def Succeeds (step : Declare α) (session : Session) : Prop :=
  ∃ value after, step session = .ok value after

theorem Succeeds.ne_error {step : Declare α} {error : BindError} {after : Session}
    (done : step.Succeeds session) : step session ≠ .error error after := by
  rcases done with ⟨value, final, done⟩
  simp [done]

theorem Succeeds.bind {first : Declare α} {next : α → Declare β} (done : first.Succeeds session)
    (later : ∀ value after, (next value).Succeeds after) : (first >>= next).Succeeds session := by
  rcases done with ⟨value, middle, done⟩
  rcases later value middle with ⟨result, after, finished⟩
  exact ⟨result, after, bind_eq_ok_iff.mpr ⟨value, middle, done, finished⟩⟩

theorem succeeds_ofExcept_bind {outcome : Except BindError α} {value : α} {next : α → Declare β}
    (done : outcome = .ok value) (later : (next value).Succeeds session) :
    (ofExcept outcome >>= next).Succeeds session := by
  rw [done]
  exact later

theorem exists_of_ofExcept_bind {outcome : Except BindError α} {next : α → Declare β} {result : β}
    {after : Session} (done : (ofExcept outcome >>= next) session = .ok result after) :
    ∃ value, outcome = .ok value ∧ next value session = .ok result after := by
  cases outcome with
  | error error => cases done
  | ok value => exact ⟨value, rfl, done⟩

theorem succeeds_get_bind {next : Session → Declare β}
    (later : (next session).Succeeds session) : (get >>= next).Succeeds session :=
  later

theorem succeeds_modify (change : Session → Session) :
    (modify change : Declare Unit).Succeeds session :=
  ⟨(), change session, rfl⟩

theorem succeeds_log_bind {event : Event} {next : Unit → Declare β}
    (later : (next ()).Succeeds (session.logged [event])) :
    (log event >>= next).Succeeds session :=
  later

/-- Code that is generated without error is composed, and nothing but the entry
points that it opens is noted. -/
theorem succeeds_compose_bind {draft : Draft Unit} {next : String → Declare β}
    (completes : draft.Completes)
    (later : ∀ text entries, (next text).Succeeds { session with entries := entries }) :
    (compose draft >>= next).Succeeds session := by
  rcases draft with ⟨code, entries, outcome⟩
  obtain ⟨⟨⟩, done⟩ := completes
  cases done
  exact later _ _

theorem succeeds_modifyType {key : TypeKey} {change : Converter → Converter}
    (keeps : ∀ conv, (change conv).key = conv.key)
    (known : session.registry.contains key = true) :
    (modifyType key change keeps).Succeeds session := by
  obtain ⟨conv, found⟩ := Registry.contains_iff_exists_find?.mp known
  apply succeeds_get_bind
  apply succeeds_ofExcept_bind
  · exact Outcome.mapError_eq_ok_iff.mpr (Registry.get_eq_ok_iff.mpr found)
  · exact succeeds_modify _

theorem succeeds_record {binding : Binding} {bound : OverloadSet}
    (owned : binding.Registered session.registry) : (record binding bound).Succeeds session := by
  cases binding with
  | function name => exact succeeds_modify _
  | ctor owner key => exact succeeds_modifyType _ (owned key rfl)
  | method owner name key => exact succeeds_modifyType _ (owned key rfl)

theorem succeeds_closeType {key : TypeKey} (known : session.registry.contains key = true) :
    (closeType key).Succeeds session := by
  obtain ⟨conv, found⟩ := Registry.contains_iff_exists_find?.mp known
  apply succeeds_get_bind
  apply succeeds_ofExcept_bind
  · exact Outcome.mapError_eq_ok_iff.mpr (Registry.get_eq_ok_iff.mpr found)
  · exact ⟨_, _, rfl⟩

/-- If the step fails, the session is as it was but for what has been logged. -/
def Atomic (step : Declare α) (session : Session) : Prop :=
  ∀ error after, step session = .error error after → ∃ events, after = session.logged events

theorem Succeeds.atomic {step : Declare α} (done : step.Succeeds session) :
    step.Atomic session :=
  fun _ _ failed => absurd failed done.ne_error

/-- Behind the last step that can fail, anything may be changed. -/
theorem Atomic.bind {first : Declare α} {next : α → Declare β} (atomic : first.Atomic session)
    (later : ∀ value after, first session = .ok value after → (next value).Succeeds after) :
    (first >>= next).Atomic session := by
  intro error after failed
  rcases bind_eq_error_iff.mp failed with firstFailed | ⟨value, middle, done, nextFailed⟩
  · exact atomic _ _ firstFailed
  · exact absurd nextFailed (later value middle done).ne_error

theorem atomic_get_bind {next : Session → Declare β} (later : (next session).Atomic session) :
    (get >>= next).Atomic session :=
  later

theorem ofExcept_bind_eq_error {outcome : Except BindError α} {next : α → Declare β}
    {error : BindError} {after : Session}
    (failed : (ofExcept outcome >>= next) session = .error error after) :
    (outcome = .error error ∧ after = session) ∨
      ∃ value, outcome = .ok value ∧ next value session = .error error after := by
  cases outcome with
  | error cause =>
      cases failed
      exact .inl ⟨rfl, rfl⟩
  | ok value => exact .inr ⟨value, rfl, failed⟩

theorem atomic_ofExcept_bind {outcome : Except BindError α} {next : α → Declare β}
    (later : ∀ value, outcome = .ok value → (next value).Atomic session) :
    (ofExcept outcome >>= next).Atomic session := by
  intro error after failed
  rcases ofExcept_bind_eq_error failed with ⟨-, rfl⟩ | ⟨value, done, failed⟩
  · exact ⟨[], after.logged_nil.symm⟩
  · exact later value done error after failed

/-! ## Declarations -/

theorem atomic_register (conv : Converter) : (register conv).Atomic session := by
  apply atomic_get_bind
  apply atomic_ofExcept_bind
  intro registry _
  exact Succeeds.atomic ⟨_, _, rfl⟩

/-- What has been registered is found in the session. -/
theorem contains_of_register {conv : Converter} {key : TypeKey} {after : Session}
    (done : register conv session = .ok key after) : after.registry.contains key = true := by
  change (ofExcept ((session.registry.register conv).mapError .registry) >>= _) session = _ at done
  cases outcome : session.registry.register conv with
  | error error =>
      rw [outcome] at done
      cases done
  | ok registry =>
      rw [outcome] at done
      cases done
      rw [Registry.contains_iff_mem_keys, Registry.keys_of_register outcome]
      simp

theorem atomic_bindType (conv : Converter) : (bindType conv).Atomic session := by
  apply (atomic_register conv).bind
  intro key after done
  apply (succeeds_closeType (contains_of_register done)).bind
  exact fun _ _ => ⟨_, _, rfl⟩

theorem atomic_beginClass (name : String) : (beginClass name).Atomic session := by
  apply atomic_get_bind
  apply atomic_ofExcept_bind
  intro conv _
  apply (atomic_register conv).bind
  intro key after _
  by_cases silent : (conv.api session.name).isEmpty = true
  · simp only [silent]
    exact ⟨_, _, rfl⟩
  · simp only [silent]
    exact ⟨_, _, rfl⟩

theorem atomic_endClass (name : String) : (endClass name).Atomic session := by
  apply atomic_get_bind
  apply atomic_ofExcept_bind
  intro key required
  have known := Registry.contains_of_require (Outcome.mapError_eq_ok_iff.mp required)
  exact (succeeds_closeType known).atomic

theorem atomic_addBase (derived base : String) : (addBase derived base).Atomic session := by
  apply atomic_get_bind
  apply atomic_ofExcept_bind
  intro derivedKey _
  apply atomic_ofExcept_bind
  intro baseKey _
  apply atomic_ofExcept_bind
  intro registry _
  apply atomic_ofExcept_bind
  intro derivedConv _
  apply atomic_ofExcept_bind
  intro baseConv _
  exact Succeeds.atomic ⟨_, _, rfl⟩

theorem ownerFor_bind_eq_error {context text : String} {next : TypeKey → Declare β}
    {error : BindError} {after : Session}
    (failed : (ownerFor context text >>= next) session = .error error after) :
    ((session.registry.owner text).mapError (.inBinding context) = .error error ∧
        after = session) ∨
      ∃ key, session.registry.owner text = .ok key ∧ next key session = .error error after := by
  rw [ownerFor, bind_assoc] at failed
  rcases ofExcept_bind_eq_error failed with refused | ⟨key, owned, failed⟩
  · exact .inl refused
  · exact .inr ⟨key, Outcome.mapError_eq_ok_iff.mp owned, failed⟩

theorem atomic_ownerFor_bind {context text : String} {next : TypeKey → Declare β}
    (later : ∀ key, session.registry.contains key = true → (next key).Atomic session) :
    (ownerFor context text >>= next).Atomic session := by
  intro error after failed
  rcases ownerFor_bind_eq_error failed with ⟨-, rfl⟩ | ⟨key, owned, failed⟩
  · exact ⟨[], after.logged_nil.symm⟩
  · exact later key (contains_of_owner owned) error after failed

/-- Building the tree only logs, and the next step starts from there. -/
theorem dispatchTree_bind_eq_error {protos : List Prototype} {context : String}
    {next : Dispatch.Tree → Declare β} {error : BindError} {after : Session}
    (failed : (dispatchTree protos context >>= next) session = .error error after) :
    ∃ events,
      (Dispatch.Tree.ofPrototypes protos context = .error error ∧ after = session.logged events) ∨
        ∃ tree, Dispatch.Tree.ofPrototypes protos context = .ok tree ∧
          next tree (session.logged events) = .error error after := by
  rw [dispatchTree, bind_assoc] at failed
  rcases bind_eq_error_iff.mp failed with logFailed | ⟨_, middle, logged, failed⟩
  · cases logFailed
  · cases logged
    exact ⟨_, ofExcept_bind_eq_error failed⟩

theorem completes_overloadCode {binding : Binding} {protos : List Prototype}
    {context : String} {tree : Dispatch.Tree} (owned : binding.Registered session.registry)
    (registered : ∀ proto ∈ protos, proto.Registered session.registry)
    (built : Dispatch.Tree.ofPrototypes protos context = .ok tree) :
    (overloadCode session binding protos tree).Completes := by
  apply (Draft.completes_write _).andThen
  intro _
  apply (Dispatch.completes_emit owned registered built).andThen
  exact fun _ => Draft.completes_write _

/-- An overload set is refused for its signatures or for its tree.  Behind these
nothing fails. -/
theorem bindOverloads_eq_error {binding : Binding} {signatures : List Signature} {front : String}
    {error : BindError} {after : Session} (owned : binding.Registered session.registry)
    (failed : bindOverloads binding signatures front session = .error error after) :
    ∃ events, after = session.logged events ∧
      (Signature.resolveAll session.registry binding signatures = .error error ∨
        ∃ protos, Signature.resolveAll session.registry binding signatures = .ok protos ∧
          Dispatch.Tree.ofPrototypes protos binding.text = .error error) := by
  change (ofExcept (Signature.resolveAll session.registry binding signatures) >>= _) session = _
    at failed
  rcases ofExcept_bind_eq_error failed with ⟨refused, rfl⟩ | ⟨protos, resolved, failed⟩
  · exact ⟨[], after.logged_nil.symm, .inl refused⟩
  rcases dispatchTree_bind_eq_error failed with
    ⟨events, ⟨refused, rfl⟩ | ⟨tree, built, failed⟩⟩
  · exact ⟨events, rfl, .inr ⟨protos, resolved, refused⟩⟩
  have registered := registered_of_resolveAll resolved
  refine absurd failed (Succeeds.ne_error ?_)
  apply succeeds_compose_bind (completes_overloadCode owned registered built)
  intro text entries
  apply succeeds_log_bind
  apply Succeeds.bind
  · exact succeeds_record owned
  · exact fun _ _ => succeeds_modify _

theorem atomic_bindOverloads {binding : Binding} (signatures : List Signature) (front : String)
    (owned : binding.Registered session.registry) :
    (bindOverloads binding signatures front).Atomic session := by
  intro error after failed
  rcases bindOverloads_eq_error owned failed with ⟨events, only, -⟩
  exact ⟨events, only⟩

theorem atomic_bindFunction (name : String) (signatures : List Signature) :
    (bindFunction name signatures).Atomic session := by
  exact atomic_bindOverloads _ _ (Binding.registered_function name)

theorem atomic_bindConstructor (type : String) (overloads : List (List String)) :
    (bindConstructor type overloads).Atomic session := by
  apply atomic_ownerFor_bind
  intro key known
  exact atomic_bindOverloads _ _ (Binding.registered_ctor known type)

theorem atomic_bindMethod (type name : String) (signatures : List Signature) :
    (bindMethod type name signatures).Atomic session := by
  apply atomic_ownerFor_bind
  intro key known
  exact atomic_bindOverloads _ _ (Binding.registered_method known type name)

theorem atomic_bindTemplate (template name : String) (types : List String) :
    (bindTemplate template name types).Atomic session := by
  apply atomic_get_bind
  cases session.template? template with
  | none =>
      intro error after failed
      cases failed
      exact ⟨[], session.logged_nil.symm⟩
  | some found =>
      apply atomic_ofExcept_bind
      intro inst _
      exact atomic_bindOverloads _ _ (Binding.registered_function name)

theorem completes_accessorCode {type member : String} {accessors : Accessors}
    (planned : Accessors.plan session.registry type member = .ok accessors) :
    (accessorCode session type accessors).Completes := by
  apply (Draft.completes_write _).andThen
  intro _
  apply (Accessors.completes_emit planned).andThen
  exact fun _ => Draft.completes_write _

/-- A member is refused for what its accessors are planned from. -/
theorem bindMember_eq_error {type member : String} {error : BindError} {after : Session}
    (failed : bindMember type member session = .error error after) :
    after = session ∧ Accessors.plan session.registry type member = .error error := by
  change (ofExcept (Accessors.plan session.registry type member) >>= _) session = _ at failed
  rcases ofExcept_bind_eq_error failed with ⟨refused, unchanged⟩ | ⟨accessors, planned, failed⟩
  · exact ⟨unchanged, refused⟩
  refine absurd failed (Succeeds.ne_error ?_)
  apply succeeds_compose_bind (completes_accessorCode planned)
  intro text entries
  apply succeeds_log_bind
  apply Succeeds.bind
  · exact succeeds_modifyType _ (Accessors.contains_of_plan planned).1
  · exact fun _ _ => succeeds_modify _

theorem atomic_bindMember (type member : String) : (bindMember type member).Atomic session := by
  intro error after failed
  rw [(bindMember_eq_error failed).1]
  exact ⟨[], session.logged_nil.symm⟩

theorem succeeds_insertCode (code : String) (artifacts : Artifacts) :
    (insertCode code artifacts).Succeeds session := by
  unfold insertCode
  cases artifacts.header <;> cases artifacts.source <;> exact ⟨_, _, rfl⟩

end Declare

theorem failed_declaration_only_logs (decl : Declaration)
    (single : ∀ type members, decl ≠ .bindMembers type members) {session after : Session}
    {error : BindError} (failed : decl.perform session = .error error after) :
    ∃ events, after = { session with log := session.log ++ events } := by
  suffices atomic : decl.perform.Atomic session from atomic error after failed
  cases decl with
  | bindType conv => exact (Declare.atomic_bindType conv).bind fun _ _ _ => ⟨_, _, rfl⟩
  | beginClass name => exact (Declare.atomic_beginClass name).bind fun _ _ _ => ⟨_, _, rfl⟩
  | endClass name => exact (Declare.atomic_endClass name).bind fun _ _ _ => ⟨_, _, rfl⟩
  | addBase derived base =>
      exact (Declare.atomic_addBase derived base).bind fun _ _ _ => ⟨_, _, rfl⟩
  | bindFunction name signatures =>
      exact (Declare.atomic_bindFunction name signatures).bind fun _ _ _ => ⟨_, _, rfl⟩
  | bindConstructor type overloads =>
      exact (Declare.atomic_bindConstructor type overloads).bind fun _ _ _ => ⟨_, _, rfl⟩
  | bindMethod type name signatures =>
      exact (Declare.atomic_bindMethod type name signatures).bind fun _ _ _ => ⟨_, _, rfl⟩
  | bindMember type member =>
      exact (Declare.atomic_bindMember type member).bind fun _ _ _ => ⟨_, _, rfl⟩
  | bindMembers type members => exact absurd rfl (single type members)
  | declareTemplate template => exact Declare.Succeeds.atomic ⟨_, _, rfl⟩
  | bindTemplate template name types =>
      exact (Declare.atomic_bindTemplate template name types).bind fun _ _ _ => ⟨_, _, rfl⟩
  | addInclude path system => exact Declare.Succeeds.atomic ⟨_, _, rfl⟩
  | insertCode code artifacts =>
      exact (Declare.succeeds_insertCode code artifacts).atomic.bind fun _ _ _ => ⟨_, _, rfl⟩
  | writeSummary => exact Declare.Succeeds.atomic ⟨_, _, rfl⟩

/-- A session of the plain target in which `int` is bound. -/
def intSession : Session :=
  match Declare.bindType Dispatch.intConverter (.start "demo" Dispatch.plainTarget {}) with
  | .ok _ session => session
  | .error _ session => session

theorem failed_declaration_only_logs_ambiguous :
    let decl : Declaration := .bindFunction "f" [⟨"void", ["int"]⟩, ⟨"int", ["int"]⟩]
    ∃ error after, decl.perform intSession = .error error after ∧
      after.log.length = intSession.log.length + 1 ∧
      ∃ events, after = { intSession with log := intSession.log ++ events } := by
  intro decl
  have fails : (match decl.perform intSession with
      | .ok _ _ => false
      | .error _ after => after.log.length == intSession.log.length + 1) = true := by
    decide +kernel
  cases performed : decl.perform intSession with
  | ok value after =>
      rw [performed] at fails
      cases fails
  | error error after =>
      rw [performed] at fails
      have grown : after.log.length = intSession.log.length + 1 := by simpa using fails
      exact ⟨error, after, rfl, grown,
        failed_declaration_only_logs decl (by simp [decl]) performed⟩

end Bindery
