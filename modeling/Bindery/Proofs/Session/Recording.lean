import Bindery.Proofs.Session.Ledger

/-!
# Declarations keep the ledger

Each step of a declaration either leaves no entry or leaves the one that the
call asks for, and a declaration that fails leaves none.  So after every run of
declarations the registry has taken exactly the entries of the run, in order,
and the bound functions are those among them.
-/

namespace Bindery

/-- The second session holds what the first does, and the entries. -/
structure Session.Books (before after : Session) (entries : List Entry) : Prop where
  registry : before.registry.TakesAll entries after.registry
  functions : after.functions = before.functions ++ entries.flatMap Entry.functions
  target : after.target = before.target

namespace Session.Books

variable {before middle after : Session}

theorem of_same (registry : after.registry = before.registry)
    (functions : after.functions = before.functions) (target : after.target = before.target) :
    before.Books after [] := by
  refine ⟨?_, ?_, target⟩
  · rw [registry]
    exact .nil _
  · simpa using functions

theorem trans {entries more : List Entry} (first : before.Books middle entries)
    (second : middle.Books after more) : before.Books after (entries ++ more) := by
  refine ⟨first.registry.append second.registry, ?_, second.target.trans first.target⟩
  rw [second.functions, first.functions, List.flatMap_append, List.append_assoc]

theorem of_logged (session : Session) (events : List Event) :
    session.Books (session.logged events) [] :=
  .of_same rfl rfl rfl

end Session.Books

namespace Declare

variable {α β : Type} {session : Session} {entries : List Entry}

/-- If the step succeeds, the session has come to hold the entries. -/
def Records (step : Declare α) (session : Session) (entries : List Entry) : Prop :=
  ∀ value after, step session = .ok value after → session.Books after entries

namespace Records

theorem bind {first : Declare α} {next : α → Declare β} {more : List Entry}
    (records : first.Records session entries)
    (later : ∀ value middle, first session = .ok value middle → (next value).Records middle more) :
    (first >>= next).Records session (entries ++ more) := by
  intro result after done
  rcases bind_eq_ok_iff.mp done with ⟨value, middle, firstDone, nextDone⟩
  exact (records value middle firstDone).trans (later value middle firstDone result after nextDone)

/-- A step that leaves no entry may come first. -/
theorem silent_bind {first : Declare α} {next : α → Declare β} (silent : first.Records session [])
    (later : ∀ value middle, middle.registry = session.registry →
      (next value).Records middle entries) :
    (first >>= next).Records session entries := by
  apply silent.bind
  intro value middle done
  exact later value middle (silent value middle done).registry.eq_of_nil

/-- A step that leaves no entry may come last. -/
theorem bind_silent {first : Declare α} {next : α → Declare β}
    (records : first.Records session entries)
    (silent : ∀ value middle, (next value).Records middle []) :
    (first >>= next).Records session entries := by
  have both := records.bind fun value middle _ => silent value middle
  rwa [List.append_nil] at both

end Records

theorem records_get_bind {next : Session → Declare β}
    (later : (next session).Records session entries) : (get >>= next).Records session entries :=
  later

theorem records_ofExcept_bind {outcome : Except BindError α} {next : α → Declare β}
    (later : ∀ value, outcome = .ok value → (next value).Records session entries) :
    (ofExcept outcome >>= next).Records session entries := by
  cases outcome with
  | error cause =>
      intro value after done
      cases done
  | ok value => exact later value rfl

theorem records_pure (value : α) : (pure value : Declare α).Records session [] := by
  intro result after done
  cases done
  exact .of_same rfl rfl rfl

theorem records_modify {change : Session → Session}
    (books : session.Books (change session) entries) :
    (modify change : Declare Unit).Records session entries := by
  intro value after done
  cases done
  exact books

theorem records_log (event : Event) : (log event).Records session [] :=
  records_modify (.of_same rfl rfl rfl)

theorem records_logAll (events : List Event) : (logAll events).Records session [] :=
  records_modify (.of_same rfl rfl rfl)

theorem records_writeHeader (code : Code) : (writeHeader code).Records session [] :=
  records_modify (.of_same rfl rfl rfl)

theorem records_writeSource (code : Code) : (writeSource code).Records session [] :=
  records_modify (.of_same rfl rfl rfl)

theorem records_compose (draft : Draft Unit) : (compose draft).Records session [] := by
  apply Records.silent_bind
  · exact records_modify (.of_same rfl rfl rfl)
  intro _ middle _
  apply records_ofExcept_bind
  intro _ _
  apply records_get_bind
  exact records_pure _

theorem records_register (conv : Converter) :
    (register conv).Records session [.type conv] := by
  apply records_get_bind
  apply records_ofExcept_bind
  intro registry accepted
  have taken : session.registry.Takes (.type conv) registry :=
    .type (Outcome.mapError_eq_ok_iff.mp accepted)
  apply Records.bind_silent
  · exact records_modify ⟨.single taken, by simp [Entry.functions], rfl⟩
  intro _ _
  apply Records.silent_bind (records_log _)
  exact fun _ _ _ => records_pure _

theorem records_closeType (key : TypeKey) : (closeType key).Records session [] := by
  apply records_get_bind
  apply records_ofExcept_bind
  intro conv _
  apply Records.silent_bind (records_writeHeader _)
  intro _ _ _
  apply Records.silent_bind (records_writeSource _)
  exact fun _ _ _ => records_log _

theorem records_bindType (conv : Converter) : (bindType conv).Records session [.type conv] := by
  apply (records_register conv).bind_silent
  intro key _
  apply Records.silent_bind (records_closeType key)
  exact fun _ _ _ => records_pure _

theorem records_beginClass (name : String) :
    (beginClass name).Records session
      ((Declaration.beginClass name).request? session).toList := by
  apply records_get_bind
  apply records_ofExcept_bind
  intro conv made
  have request : (Declaration.beginClass name).request? session = some (.type conv) := by
    simp [Declaration.request?, Outcome.mapError_eq_ok_iff.mp made, Except.toOption]
  rw [request]
  apply (records_register conv).bind_silent
  intro key _
  by_cases isSilent : (conv.api session.name).isEmpty = true
  · simp only [isSilent]
    apply Records.silent_bind (records_log _)
    exact fun _ _ _ => records_pure _
  · simp only [isSilent]
    apply Records.silent_bind (records_writeSource _)
    intro _ _ _
    apply Records.silent_bind (records_log _)
    exact fun _ _ _ => records_pure _

theorem records_endClass (name : String) : (endClass name).Records session [] := by
  apply records_get_bind
  apply records_ofExcept_bind
  exact fun key _ => records_closeType key

theorem records_addBase (derived base : String) :
    (addBase derived base).Records session
      ((Declaration.addBase derived base).request? session).toList := by
  apply records_get_bind
  apply records_ofExcept_bind
  intro derivedKey derivedFound
  apply records_ofExcept_bind
  intro baseKey baseFound
  apply records_ofExcept_bind
  intro registry accepted
  apply records_ofExcept_bind
  intro derivedConv _
  apply records_ofExcept_bind
  intro baseConv _
  have request : (Declaration.addBase derived base).request? session =
      some (.link derivedKey baseKey) := by
    simp [Declaration.request?, Outcome.mapError_eq_ok_iff.mp derivedFound,
      Outcome.mapError_eq_ok_iff.mp baseFound, Except.toOption]
  rw [request]
  apply Records.silent_bind (records_log _)
  intro _ middle same
  have taken : middle.registry.Takes (.link derivedKey baseKey) registry := by
    rw [same]
    exact .link (Outcome.mapError_eq_ok_iff.mp accepted)
  exact records_modify ⟨.single taken, by simp [Entry.functions], rfl⟩

theorem records_modifyType {key : TypeKey} {change : Converter → Converter}
    (keeps : ∀ conv, (change conv).key = conv.key) {entry : Entry}
    (taken : session.registry.Takes entry (session.registry.modify key change keeps))
    (bindsNone : entry.functions = []) : (modifyType key change keeps).Records session [entry] := by
  apply records_get_bind
  apply records_ofExcept_bind
  intro conv _
  exact records_modify ⟨.single taken, by simp [bindsNone], rfl⟩

theorem records_record {binding : Binding} {bound : OverloadSet}
    (owned : binding.Registered session.registry) (settled : bound.Settled session.registry) :
    (record binding bound).Records session [binding.entry bound] := by
  cases binding with
  | function name => exact records_modify ⟨.single (.function settled), rfl, rfl⟩
  | ctor owner key => exact records_modifyType _ (.ctor (owned key rfl) settled) rfl
  | method owner name key => exact records_modifyType _ (.method (owned key rfl) settled) rfl

theorem records_dispatchTree (protos : List Prototype) (context : String) :
    (dispatchTree protos context).Records session [] := by
  apply Records.silent_bind (records_logAll _)
  intro _ middle _ tree after done
  cases outcome : Dispatch.Tree.ofPrototypes protos context with
  | error error =>
      rw [outcome] at done
      cases done
  | ok built =>
      rw [outcome] at done
      cases done
      exact .of_same rfl rfl rfl

theorem records_bindOverloads {binding : Binding} (signatures : List Signature) (front : String)
    (owned : binding.Registered session.registry) :
    (bindOverloads binding signatures front).Records session
      ((binding.bound? session.registry signatures).map binding.entry).toList := by
  apply records_get_bind
  apply records_ofExcept_bind
  intro protos resolved
  have bound : binding.bound? session.registry signatures =
      some ⟨binding.boundName, binding.proxy, protos⟩ := by
    simp [Binding.bound?, resolved, Except.toOption]
  rw [bound]
  apply Records.silent_bind (records_dispatchTree _ _)
  intro tree _ same
  apply Records.silent_bind (records_compose _)
  intro text _ sameAgain
  apply Records.silent_bind (records_log _)
  intro _ middle sameStill
  have unchanged : middle.registry = session.registry :=
    sameStill.trans (sameAgain.trans same)
  apply Records.bind_silent
  · apply records_record
    · rwa [unchanged]
    · rw [unchanged]
      exact settled_of_resolveAll resolved _ _
  · exact fun _ _ => records_writeSource _

theorem records_bindFunction (name : String) (signatures : List Signature) :
    (bindFunction name signatures).Records session
      ((Declaration.bindFunction name signatures).request? session).toList := by
  exact records_bindOverloads _ _ (Binding.registered_function name)

theorem records_ownerFor_bind {context text : String} {next : TypeKey → Declare β}
    (later : ∀ key, session.registry.owner text = .ok key → (next key).Records session entries) :
    (ownerFor context text >>= next).Records session entries := by
  rw [ownerFor, bind_assoc]
  apply records_get_bind
  apply records_ofExcept_bind
  exact fun key owned => later key (Outcome.mapError_eq_ok_iff.mp owned)

theorem records_bindConstructor (type : String) (overloads : List (List String)) :
    (bindConstructor type overloads).Records session
      ((Declaration.bindConstructor type overloads).request? session).toList := by
  apply records_ownerFor_bind
  intro key owned
  rw [Declaration.request?, owned]
  exact records_bindOverloads _ _ (Binding.registered_ctor (contains_of_owner owned) type)

theorem records_bindMethod (type name : String) (signatures : List Signature) :
    (bindMethod type name signatures).Records session
      ((Declaration.bindMethod type name signatures).request? session).toList := by
  apply records_ownerFor_bind
  intro key owned
  rw [Declaration.request?, owned]
  exact records_bindOverloads _ _ (Binding.registered_method (contains_of_owner owned) type name)

theorem records_bindTemplate (template name : String) (types : List String) :
    (bindTemplate template name types).Records session
      ((Declaration.bindTemplate template name types).request? session).toList := by
  apply records_get_bind
  cases declared : session.template? template with
  | none =>
      intro value after done
      cases done
  | some found =>
      apply records_ofExcept_bind
      intro inst instantiated
      have request : (Declaration.bindTemplate template name types).request? session =
          (Binding.bound? (.function name) session.registry [inst.signature]).map .function := by
        simp [Declaration.request?, declared, instantiated, Except.toOption]
      rw [request]
      exact records_bindOverloads _ _ (Binding.registered_function name)

end Declare

namespace Accessors

variable {registry : Registry}

/-- Planned accessors belong to the type that the owner's text selects, and to
the member that the member's text spells. -/
theorem owner_member_of_plan {owner member : String} {accessors : Accessors}
    (planned : plan registry owner member = .ok accessors) :
    registry.owner owner = .ok accessors.owner ∧ Param.parse member = .ok accessors.member := by
  rcases exists_of_plan planned with
    ⟨ownerType, ownerConv, _, _, _, ownerParsed, ownerChosen, -, memberParsed, -, -, -, rfl⟩
  exact ⟨owner_eq_ok_iff.mpr ⟨ownerType, ownerParsed, ownerChosen⟩, memberParsed⟩

end Accessors

namespace Declare

variable {α β : Type} {session : Session}

theorem records_bindMember (type member : String) :
    (bindMember type member).Records session
      ((Declaration.bindMember type member).request? session).toList := by
  apply records_get_bind
  apply records_ofExcept_bind
  intro accessors planned
  obtain ⟨owned, parsed⟩ := Accessors.owner_member_of_plan planned
  rw [Declaration.request?, owned, parsed]
  apply Records.silent_bind (records_compose _)
  intro text _ same
  apply Records.silent_bind (records_log _)
  intro _ middle sameStill
  apply Records.bind_silent
  · apply records_modifyType
    · apply Registry.Takes.member
      rw [sameStill, same]
      exact (Accessors.contains_of_plan planned).1
    · rfl
  · exact fun _ _ => records_writeSource _

theorem records_insertCode (code : String) (artifacts : Artifacts) :
    (insertCode code artifacts).Records session [] := by
  rcases artifacts with ⟨header, source⟩
  intro value after done
  cases header <;> cases source <;> cases done <;> exact .of_same rfl rfl rfl

theorem records_addInclude (path : String) (system : Bool) :
    (addInclude path system).Records session [] := by
  intro value after done
  cases system <;> cases done <;> exact .of_same rfl rfl rfl

theorem records_writeSummary : writeSummary.Records session [] :=
  records_get_bind (records_writeSource _)

/-! ## Declarations -/

theorem accepts_of_ok {step : Declare α} {value : α} {middle : Session}
    (done : step session = .ok value middle) : step.accepts session = true := by
  rw [accepts, done]

theorem accepts_of_error {step : Declare α} {error : BindError} {middle : Session}
    (failed : step session = .error error middle) : step.accepts session = false := by
  rw [accepts, failed]

theorem leaves_of_ok {step : Declare α} {value : α} {middle : Session}
    (done : step session = .ok value middle) : step.leaves session = middle := by
  rw [leaves, done]

theorem leaves_of_error {step : Declare α} {error : BindError} {middle : Session}
    (failed : step session = .error error middle) : step.leaves session = middle := by
  rw [leaves, failed]

end Declare

namespace Session

variable {α : Type} {session : Session} {decl : Declaration} {step : Declare α}
  {result : α → Option TypeKey}

theorem after_of_step (performs : decl.perform = step >>= fun value => pure (result value)) :
    session.after decl = step.leaves session := by
  rw [after, performs]
  cases outcome : step session with
  | ok value middle =>
      rw [Declare.leaves_of_ok outcome]
      exact Declare.leaves_of_ok (Declare.bind_of_ok outcome)
  | error error middle =>
      rw [Declare.leaves_of_error outcome]
      exact Declare.leaves_of_error (Declare.bind_of_error outcome)

theorem accepts_of_step (performs : decl.perform = step >>= fun value => pure (result value)) :
    decl.perform.accepts session = step.accepts session := by
  rw [performs]
  cases outcome : step session with
  | ok value middle =>
      rw [Declare.accepts_of_ok outcome]
      exact Declare.accepts_of_ok (Declare.bind_of_ok outcome)
  | error error middle =>
      rw [Declare.accepts_of_error outcome]
      exact Declare.accepts_of_error (Declare.bind_of_error outcome)

/-- A call leaves the entry that it asks for if it succeeds, and none if it
fails. -/
theorem books_of_step (performs : decl.perform = step >>= fun value => pure (result value))
    (atomic : step.Atomic session) (records : step.Records session (decl.request? session).toList) :
    session.Books (session.after decl) (decl.posted? session).toList := by
  rw [after_of_step performs, Declaration.posted?, accepts_of_step performs]
  cases outcome : step session with
  | ok value middle =>
      rw [Declare.leaves_of_ok outcome, Declare.accepts_of_ok outcome, if_pos rfl]
      exact records value middle outcome
  | error error middle =>
      rw [Declare.leaves_of_error outcome, Declare.accepts_of_error outcome,
        if_neg Bool.false_ne_true]
      obtain ⟨events, rfl⟩ := atomic error middle outcome
      exact .of_logged session events

theorem books_bindMember (session : Session) (type member : String) :
    session.Books (session.after (.bindMember type member))
      ((Declaration.bindMember type member).posted? session).toList :=
  books_of_step rfl (Declare.atomic_bindMember type member)
    (Declare.records_bindMember type member)

/-- Members leave their entries one by one, up to the first failure. -/
theorem books_bindMembers (session : Session) (type : String) (members : List String) :
    session.Books ((Declare.bindMembers type members).leaves session)
      (session.recordedMembers type members) := by
  induction members generalizing session with
  | nil => exact .of_same rfl rfl rfl
  | cons member rest ih =>
      have performs : (Declaration.bindMember type member).perform =
          Declare.bindMember type member >>= fun _ => pure none := rfl
      have first := books_bindMember session type member
      rw [after_of_step performs] at first
      rw [recordedMembers, Declare.bindMembers]
      cases outcome : Declare.bindMember type member session with
      | ok value middle =>
          rw [Declare.leaves_of_ok outcome] at first ⊢
          rw [Declare.accepts_of_ok outcome, if_pos rfl, Declare.leaves,
            Declare.bind_of_ok outcome]
          exact first.trans (ih middle)
      | error error middle =>
          rw [Declare.leaves_of_error outcome] at first
          rw [Declare.accepts_of_error outcome, if_neg Bool.false_ne_true, List.append_nil,
            Declare.leaves_of_error (Declare.bind_of_error outcome)]
          exact first

/-- After a declaration the session holds its entries besides what it held. -/
theorem books_after (session : Session) (decl : Declaration) :
    session.Books (session.after decl) (session.recordedBy decl) := by
  cases decl with
  | bindType conv =>
      exact books_of_step rfl (Declare.atomic_bindType conv) (Declare.records_bindType conv)
  | beginClass name =>
      exact books_of_step rfl (Declare.atomic_beginClass name)
        (Declare.records_beginClass name)
  | endClass name =>
      exact books_of_step rfl (Declare.atomic_endClass name) (Declare.records_endClass name)
  | addBase derived base =>
      exact books_of_step rfl (Declare.atomic_addBase derived base)
        (Declare.records_addBase derived base)
  | bindFunction name signatures =>
      exact books_of_step rfl (Declare.atomic_bindFunction name signatures)
        (Declare.records_bindFunction name signatures)
  | bindConstructor type overloads =>
      exact books_of_step rfl (Declare.atomic_bindConstructor type overloads)
        (Declare.records_bindConstructor type overloads)
  | bindMethod type name signatures =>
      exact books_of_step rfl (Declare.atomic_bindMethod type name signatures)
        (Declare.records_bindMethod type name signatures)
  | bindMember type member => exact books_bindMember session type member
  | bindMembers type members =>
      have performs : (Declaration.bindMembers type members).perform =
          Declare.bindMembers type members >>= fun _ => pure none := rfl
      rw [after_of_step performs]
      exact books_bindMembers session type members
  | declareTemplate template =>
      exact books_of_step rfl (Declare.succeeds_modify _).atomic
        (Declare.records_modify (.of_same rfl rfl rfl))
  | bindTemplate template name types =>
      exact books_of_step rfl (Declare.atomic_bindTemplate template name types)
        (Declare.records_bindTemplate template name types)
  | addInclude path system =>
      exact books_of_step rfl (Declare.succeeds_modify _).atomic
        (Declare.records_addInclude path system)
  | insertCode code artifacts =>
      exact books_of_step rfl (Declare.succeeds_insertCode code artifacts).atomic
        (Declare.records_insertCode code artifacts)
  | writeSummary =>
      exact books_of_step rfl (Declare.Succeeds.atomic ⟨_, _, rfl⟩)
        Declare.records_writeSummary

/-- After declarations the session holds their entries besides what it held. -/
theorem books_run (session : Session) (decls : List Declaration) :
    session.Books (session.run decls) (session.recorded decls) := by
  induction decls generalizing session with
  | nil => exact .of_same rfl rfl rfl
  | cons decl rest ih => exact (session.books_after decl).trans (ih (session.after decl))

end Session

end Bindery
