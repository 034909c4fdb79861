import Bindery.Proofs.Registry.Growth
import Bindery.Proofs.Session.Output

/-!
# Lists of members

A list of members is bound member by member, and the first one that is refused ends
the call.  What was bound in front of it stays: the members are on their type, and
their accessors in the source.  So a refused list leaves the session as it was
exactly if its first member is the one that is refused.
-/

namespace Bindery

namespace Converter

/-- A type with more members. -/
def withMembers (conv : Converter) (params : List Param) : Converter :=
  { conv with members := conv.members ++ params }

theorem withMembers_append (conv : Converter) (params more : List Param) :
    conv.withMembers (params ++ more) = (conv.withMembers params).withMembers more := by
  rw [withMembers, withMembers, withMembers, List.append_assoc]

theorem withMembers_eq_self_iff {conv : Converter} {params : List Param} :
    conv.withMembers params = conv ↔ params = [] := by
  constructor
  · intro same
    exact List.append_right_eq_self.mp (congrArg (·.members) same)
  · rintro rfl
    rw [withMembers, List.append_nil]

end Converter

/-- What a text names as an owner follows from what is registered, whatever is declared
on it. -/
theorem Registry.owner_eq_of_index {registry next : Registry}
    (index : next.index = registry.index) (text : String) :
    next.owner text = registry.owner text := by
  have contains (key : TypeKey) : next.contains key = registry.contains key := by
    rw [Registry.contains, place?, index]
    rfl
  simp only [owner, select, contains]

theorem Fragment.append_source (first second : String) :
    append { source := first } { source := second } = { source := first ++ second } := by
  ext1 <;> simp [append]

namespace Session

/-- The second session is the first with members on the type that a text names, and with
more text behind the source. -/
structure GainsMembers (before : Session) (type : String) (params : List Param)
    (text : String) (after : Session) : Prop where
  written : before.Gains { source := text } after
  setting : after.setting = { before.setting with registry := after.registry }
  index : after.registry.index = before.registry.index
  converters : after.registry.converters = before.registry.converters.map fun conv =>
    if (before.registry.owner type).toOption = some conv.key then conv.withMembers params else conv

namespace GainsMembers

variable {before middle after : Session} {type : String} {params more : List Param}
  {text moreText : String}

theorem refl (session : Session) (type : String) : session.GainsMembers type [] "" session := by
  constructor
  · exact .refl session
  · rfl
  · rfl
  · simp [Converter.withMembers_eq_self_iff.mpr rfl]

theorem trans (first : before.GainsMembers type params text middle)
    (second : middle.GainsMembers type more moreText after) :
    before.GainsMembers type (params ++ more) (text ++ moreText) after := by
  constructor
  · have both := first.written.trans second.written
    rwa [Fragment.append_source] at both
  · rw [second.setting, first.setting]
  · exact second.index.trans first.index
  · rw [second.converters, first.converters, List.map_map,
      Registry.owner_eq_of_index first.index]
    apply List.map_congr_left
    intro conv _
    have still : (conv.withMembers params).key = conv.key := rfl
    by_cases here : (before.registry.owner type).toOption = some conv.key
    · simp [here, still, Converter.withMembers_append]
    · simp [here]

theorem logged (gains : before.GainsMembers type params text after) (events : List Event) :
    before.GainsMembers type params text (after.logged events) := by
  rcases gains.written with ⟨header, source, systemIncludes, userIncludes, options⟩
  exact ⟨⟨header, source, systemIncludes, userIncludes, options⟩, gains.setting, gains.index,
    gains.converters⟩

theorem header_eq (gains : before.GainsMembers type params text after) :
    after.header = before.header :=
  gains.written.header.trans (Writer.append_empty _)

theorem source_eq_iff (gains : before.GainsMembers type params text after) :
    after.source = before.source ↔ text = "" := by
  rw [gains.written.source]
  constructor
  · intro same
    have texts : before.source.text ++ text = before.source.text := congrArg Writer.text same
    simpa using texts
  · rintro rfl
    exact Writer.append_empty _

/-- A registered type is as it was only if it gains no member. -/
theorem registry_eq_iff (gains : before.GainsMembers type params text after) {owner : TypeKey}
    (owned : before.registry.owner type = .ok owner) :
    after.registry = before.registry ↔ params = [] := by
  constructor
  · intro same
    have known := Registry.contains_iff_mem_keys.mp (contains_of_owner owned)
    rcases List.mem_map.mp known with ⟨conv, registered, rfl⟩
    have unchanged := gains.converters.symm.trans (congrArg Registry.converters same)
    have here := List.map_inj_left.mp (unchanged.trans (List.map_id _).symm) conv registered
    have named : (before.registry.owner type).toOption = some conv.key :=
      congrArg Except.toOption owned
    rw [if_pos named] at here
    exact Converter.withMembers_eq_self_iff.mp here
  · rintro rfl
    apply Registry.eq_of_converters_eq gains.index
    rw [gains.converters]
    simp [Converter.withMembers_eq_self_iff.mpr rfl]

end GainsMembers

end Session

namespace Declare

variable {session after : Session} {type : String}

/-- The comment above accessors is not empty, so neither is their code. -/
theorem textAt_accessorCode_ne (session : Session) (type unit : String) (accessors : Accessors) :
    (accessorCode session type accessors).code.textAt unit 0 ≠ "" := by
  intro empty
  change Code.textAt unit 0 (.line _ :: _) = "" at empty
  rw [Code.textAt_line_cons, String.append_eq_empty_iff, String.append_eq_empty_iff] at empty
  exact absurd empty.1.2 (by decide)

/-- A bound member is on the type that the text names, and its accessors are written. -/
theorem gainsMembers_of_bindMember {member : String}
    (done : bindMember type member session = .ok () after) :
    ∃ owner param text, session.registry.owner type = .ok owner ∧
      Param.parse member = .ok param ∧ text ≠ "" ∧
      session.GainsMembers type [param] text after := by
  have follows : (bindMember type member).Follows session
      (session.setting.bindMember? type member) := follows_bindMember type member
  rw [Setting.bindMember?] at follows
  change Follows _ _ ((Accessors.plan session.registry type member).toOption >>= _) at follows
  cases planned : Accessors.plan session.registry type member with
  | error error =>
      rw [planned] at follows
      rcases follows with ⟨error, events, failed⟩
      rw [done] at failed
      cases failed
  | ok accessors =>
      rw [planned] at follows
      rcases follows with ⟨_, _, again, gains, reaches⟩
      rw [done] at again
      cases again
      rcases Accessors.owner_member_of_plan planned with ⟨owned, parsed⟩
      have registry : after.registry =
          (session.setting.addMember accessors.owner accessors.member).registry :=
        congrArg Setting.registry reaches
      refine ⟨_, _, _, owned, parsed, textAt_accessorCode_ne _ _ _ _, gains, ?_, ?_, ?_⟩
      · rw [reaches, registry]
        rfl
      · rw [registry]
        exact Registry.index_modify (Converter.key_of_members _)
      · rw [registry, owned]
        refine (Registry.converters_modify (Converter.key_of_members _)).trans ?_
        simp only [Except.toOption, Option.some.injEq, eq_comm]
        rfl

/-- Bound members are on the type that the text names, in order, and the accessors of
each are written. -/
theorem gainsMembers_of_bindMembers {members : List String}
    (done : bindMembers type members session = .ok () after) :
    ∃ params text, List.Forall₂ (fun member param => Param.parse member = .ok param)
        members params ∧
      session.GainsMembers type params text after ∧
      (text = "" ↔ members = []) ∧
      (members = [] ∨ ∃ owner, session.registry.owner type = .ok owner) := by
  induction members generalizing session with
  | nil =>
      cases done
      exact ⟨[], "", .nil, .refl after type, iff_of_true rfl rfl, .inl rfl⟩
  | cons member rest ih =>
      rcases bind_eq_ok_iff.mp done with ⟨_, middle, first, done⟩
      rcases gainsMembers_of_bindMember first with
        ⟨owner, param, text, owned, parsed, written, gains⟩
      rcases ih done with ⟨params, more, parsedRest, later, -⟩
      have writes : text ++ more ≠ "" := fun empty =>
        written (String.append_eq_empty_iff.mp empty).1
      exact ⟨param :: params, text ++ more, .cons parsed parsedRest, gains.trans later,
        iff_of_false writes (List.cons_ne_nil _ _), .inr ⟨owner, owned⟩⟩

/-- A list of members is refused where its first refused member is, after those in front
of it are bound. -/
theorem exists_refused_of_bindMembers {members : List String} {error : BindError}
    (failed : bindMembers type members session = .error error after) :
    ∃ bound refused rest middle, members = bound ++ refused :: rest ∧
      bindMembers type bound session = .ok () middle ∧
      bindMember type refused middle = .error error after := by
  induction members generalizing session with
  | nil => cases failed
  | cons member rest ih =>
      rcases bind_eq_error_iff.mp failed with refuses | ⟨_, middle, first, failed⟩
      · exact ⟨[], member, rest, session, rfl, rfl, refuses⟩
      · rcases ih failed with ⟨bound, refused, others, last, rfl, done, refuses⟩
        exact ⟨member :: bound, refused, others, last, rfl,
          bind_eq_ok_iff.mpr ⟨(), middle, first, done⟩, refuses⟩

/-- A refused list of members leaves what it has bound.  It ends at its first refused
member.  Those in front of it are on the type that the text names, and on no other, and
their accessors are behind the source, while the header stays.  So the registry and the
source are as they were exactly if the first member is the one that is refused. -/
theorem refused_bindMembers_keeps_bound {members : List String} {error : BindError}
    (failed : bindMembers type members session = .error error after) :
    ∃ bound refused rest middle events,
      members = bound ++ refused :: rest ∧
      bindMembers type bound session = .ok () middle ∧
      bindMember type refused middle = .error error after ∧
      after = middle.logged events ∧
      (∃ params text, List.Forall₂ (fun member param => Param.parse member = .ok param)
          bound params ∧
        session.GainsMembers type params text after) ∧
      (after.registry = session.registry ↔ bound = []) ∧
      (after.source = session.source ↔ bound = []) ∧
      after.header = session.header := by
  rcases exists_refused_of_bindMembers failed with
    ⟨bound, refused, rest, middle, split, done, refuses⟩
  rcases atomic_bindMember type refused error after refuses with ⟨events, rfl⟩
  rcases gainsMembers_of_bindMembers done with
    ⟨params, text, parsed, gains, written, named⟩
  refine ⟨bound, refused, rest, middle, events, split, done, refuses, rfl,
    ⟨params, text, parsed, gains.logged events⟩, ?_, gains.source_eq_iff.trans written,
    gains.header_eq⟩
  rcases named with rfl | ⟨owner, owned⟩
  · cases done
    exact iff_of_true rfl rfl
  · refine (gains.registry_eq_iff owned).trans ?_
    rw [← List.length_eq_zero_iff, ← List.length_eq_zero_iff, parsed.length_eq]

/-- The second of three members is of no registered type: the first one stays bound. -/
theorem refused_bindMembers_keeps_bound_first :
    let decls : List Declaration := [.bindType Dispatch.intConverter, .beginClass "A"]
    let reached := (Session.start "demo" Dispatch.plainTarget {}).run decls
    let members := ["int x", "B y", "int z"]
    ∃ error after, bindMembers "A" members reached = .error error after ∧
      ∃ bound refused rest, members = bound ++ refused :: rest ∧ bound ≠ [] ∧
        ∃ params text, List.Forall₂ (fun member param => Param.parse member = .ok param)
            bound params ∧
          reached.GainsMembers "A" params text after := by
  intro decls reached members
  have refuses : (bindMembers "A" members).accepts reached = false := by decide +kernel
  have written : ((bindMembers "A" members).leaves reached).source ≠ reached.source := by
    decide +kernel
  cases outcome : bindMembers "A" members reached with
  | ok value after =>
      rw [accepts_of_ok outcome] at refuses
      cases refuses
  | error error after =>
      rw [leaves_of_error outcome] at written
      rcases refused_bindMembers_keeps_bound outcome with
        ⟨bound, refused, rest, -, -, split, -, -, -, gains, -, source, -⟩
      exact ⟨error, after, rfl, bound, refused, rest, split,
        fun none => written (source.mpr none), gains⟩

/-- A list of members that is refused, and yet the type has one of them and the source
has its accessors. -/
theorem refused_bindMembers_changes_session :
    let decls : List Declaration := [.bindType Dispatch.intConverter, .beginClass "A"]
    let reached := (Session.start "demo" Dispatch.plainTarget {}).run decls
    let after := (bindMembers "A" ["int x", "B y"]).leaves reached
    let members (session : Session) :=
      session.registry.converters.map fun conv => (conv.canonical, conv.members.map Param.text)
    (bindMembers "A" ["int x", "B y"]).accepts reached = false ∧
      members reached = [("int", []), ("A", [])] ∧
      members after = [("int", []), ("A", ["int x"])] ∧
      after.source ≠ reached.source := by
  decide +kernel

end Declare

end Bindery
