import Bindery.Proofs.Making
import Bindery.Proofs.Session.Recording
import Bindery.Proofs.Upcast.Emission
import Bindery.Session.Finish

/-!
# Every session can be finished

No entry of a session spoils the inheritance of its types: a new type brings no
bases, a link is refused where it would close a circle, and what is bound on a
type leaves its bases alone.  So whatever was declared, and whichever calls
failed, there is a cast table at the end, the upcast function can be generated
from it, and the artifacts are assembled.
-/

namespace Bindery

namespace Registry

variable {registry next : Registry}

/-- The registered types with their direct bases, in registration order. -/
def links (registry : Registry) : List (TypeKey × List TypeKey) :=
  registry.converters.map fun conv => (conv.key, conv.bases)

theorem directBase_iff_links {derived base : TypeKey} :
    registry.DirectBase derived base ↔
      ∃ link ∈ registry.links, link.1 = derived ∧ base ∈ link.2 := by
  rw [directBase_iff]
  constructor
  · rintro ⟨conv, member, rfl, listed⟩
    exact ⟨(conv.key, conv.bases), List.mem_map_of_mem member, rfl, listed⟩
  · rintro ⟨link, member, rfl, listed⟩
    obtain ⟨conv, convMember, rfl⟩ := List.mem_map.mp member
    exact ⟨conv, convMember, rfl, listed⟩

theorem keys_eq_map_links (registry : Registry) : registry.keys = registry.links.map (·.1) := by
  rw [links, List.map_map]
  rfl

/-- Soundness speaks of the links only. -/
theorem Sound.of_links_eq (sound : registry.Sound) (same : next.links = registry.links) :
    next.Sound := by
  have before {conv : Converter} (member : conv ∈ next.converters) :
      ∃ old ∈ registry.converters, old.bases = conv.bases := by
    have link : (conv.key, conv.bases) ∈ next.links := List.mem_map_of_mem member
    rw [same] at link
    obtain ⟨old, oldMember, equal⟩ := List.mem_map.mp link
    exact ⟨old, oldMember, congrArg Prod.snd equal⟩
  constructor
  · intro conv member base listed
    obtain ⟨old, oldMember, sameBases⟩ := before member
    rw [keys_eq_map_links, same, ← keys_eq_map_links]
    exact sound.registered old oldMember base (sameBases ▸ listed)
  · intro conv member
    obtain ⟨old, oldMember, sameBases⟩ := before member
    exact sameBases ▸ sound.nodup old oldMember
  · intro key cycle
    have older : next.DirectBase ≤ registry.DirectBase := by
      intro derived base link
      rw [directBase_iff_links, same] at link
      exact directBase_iff_links.mpr link
    exact sound.acyclic key (Relation.TransGen.mono older key key cycle)

theorem links_modify {key : TypeKey} {change : Converter → Converter}
    (keeps : ∀ conv, (change conv).key = conv.key)
    (keepsBases : ∀ conv, (change conv).bases = conv.bases) :
    (registry.modify key change keeps).links = registry.links := by
  rw [links, links, converters_modify, List.map_map]
  apply List.map_congr_left
  intro conv _
  by_cases here : conv.key = key <;> simp [here, keeps, keepsBases]

theorem Takes.sound {entry : Entry} (taken : registry.Takes entry next)
    (fresh : ∀ conv ∈ entry.types, conv.bases = []) (sound : registry.Sound) : next.Sound := by
  cases taken with
  | type accepted => exact sound.register (fresh _ List.mem_cons_self) accepted
  | link accepted => exact sound.addBase accepted
  | function _ => exact sound
  | ctor _ _ => exact sound.of_links_eq (links_modify _ fun _ => rfl)
  | method _ _ => exact sound.of_links_eq (links_modify _ fun _ => rfl)
  | member _ => exact sound.of_links_eq (links_modify _ fun _ => rfl)

theorem TakesAll.sound {entries : List Entry} (taken : registry.TakesAll entries next)
    (fresh : ∀ conv ∈ entries.flatMap Entry.types, conv.bases = []) (sound : registry.Sound) :
    next.Sound := by
  induction taken with
  | nil => exact sound
  | cons first _ ih =>
      rw [List.flatMap_cons] at fresh
      apply ih
      · intro conv member
        exact fresh conv (List.mem_append_right _ member)
      · apply first.sound _ sound
        intro conv member
        exact fresh conv (List.mem_append_left _ member)

end Registry

namespace Declaration

variable {session : Session} {decl : Declaration} {conv : Converter}

theorem source_of_request? (requested : decl.request? session = some (.type conv)) :
    decl = .bindType conv ∨
      ∃ name, decl = .beginClass name ∧ session.target.classConverter name = .ok conv := by
  cases decl with
  | bindType given =>
      cases requested
      exact .inl rfl
  | beginClass name =>
      rw [request?, Option.map_eq_some_iff] at requested
      obtain ⟨given, converted, same⟩ := requested
      cases same
      exact .inr ⟨name, rfl, Outcome.toOption_eq_some_iff.mp converted⟩
  | _ => simp [request?, Option.bind_eq_some_iff] at requested

theorem source_of_posted? (member : conv ∈ (decl.posted? session).toList.flatMap Entry.types) :
    decl.perform.accepts session = true ∧ (decl = .bindType conv ∨
      ∃ name, decl = .beginClass name ∧ session.target.classConverter name = .ok conv) := by
  obtain ⟨entry, posted, isType⟩ := List.mem_flatMap.mp member
  rw [Option.mem_toList] at posted
  cases entry with
  | type given =>
      rw [Entry.types, List.mem_singleton] at isType
      subst isType
      rw [posted?] at posted
      split at posted
      · next accepted => exact ⟨accepted, source_of_request? posted⟩
      · cases posted
  | _ => cases isType

theorem types_posted?_bindMember (session : Session) (type member : String) :
    ((bindMember type member).posted? session).toList.flatMap Entry.types = [] := by
  rw [posted?]
  split
  · simp only [request?]
    cases (session.registry.owner type).toOption with
    | none => rfl
    | some key => cases (Param.parse member).toOption <;> rfl
  · rfl

end Declaration

namespace Session

theorem types_recordedMembers (session : Session) (type : String) (members : List String) :
    (session.recordedMembers type members).flatMap Entry.types = [] := by
  induction members generalizing session with
  | nil => rfl
  | cons member rest ih =>
      rw [recordedMembers, List.flatMap_append, Declaration.types_posted?_bindMember,
        List.nil_append]
      split
      · exact ih _
      · rfl

/-- A type is registered by an accepted call that binds it, or that opens it as a
class. -/
theorem source_of_recordedBy {session : Session} {decl : Declaration} {conv : Converter}
    (member : conv ∈ (session.recordedBy decl).flatMap Entry.types) :
    decl.perform.accepts session = true ∧ (decl = .bindType conv ∨
      ∃ name, decl = .beginClass name ∧ session.target.classConverter name = .ok conv) := by
  unfold recordedBy at member
  split at member
  · rw [types_recordedMembers] at member
    cases member
  · exact Declaration.source_of_posted? member

/-- A type that is registered was bound, or made by the target for a class. -/
theorem source_of_recorded {session : Session} {decls : List Declaration} {conv : Converter}
    (member : conv ∈ (session.recorded decls).flatMap Entry.types) :
    Declaration.bindType conv ∈ decls ∨ ∃ name, session.target.classConverter name = .ok conv := by
  induction decls generalizing session with
  | nil => cases member
  | cons decl rest ih =>
      rw [recorded, List.flatMap_append, List.mem_append] at member
      rcases member with here | later
      · obtain ⟨-, rfl | ⟨name, -, made⟩⟩ := source_of_recordedBy here
        · exact .inl List.mem_cons_self
        · exact .inr ⟨name, made⟩
      · have sameTarget := (session.books_after decl).target
        rw [← sameTarget]
        exact (ih later).imp_left (List.mem_cons_of_mem decl)

/-- What holds of the types that are bound, and of those that the target makes for classes, holds
of all that are registered. -/
theorem forall_recorded {session : Session} {decls : List Declaration} {holds : Converter → Prop}
    (classes : ∀ name conv, session.target.classConverter name = .ok conv → holds conv)
    (types : ∀ conv, Declaration.bindType conv ∈ decls → holds conv) :
    ∀ conv ∈ (session.recorded decls).flatMap Entry.types, holds conv := by
  intro conv member
  rcases source_of_recorded member with bound | ⟨name, made⟩
  · exact types conv bound
  · exact classes name conv made

/-- Declarations bring converters as they are made, and so does the target for
its classes. -/
structure Brings (target : Target) (decls : List Declaration) : Prop where
  classes : ∀ name conv, target.classConverter name = .ok conv → conv.Made
  types : ∀ conv, Declaration.bindType conv ∈ decls → conv.Made

theorem Brings.made {session : Session} {decls : List Declaration}
    (brings : Brings session.target decls) :
    ∀ conv ∈ (session.recorded decls).flatMap Entry.types, conv.Made :=
  forall_recorded brings.classes brings.types

/-- The types of the converters that declarations bring, and of those that the target makes
for its classes, have been parsed. -/
structure Parses (target : Target) (decls : List Declaration) : Prop where
  classes : ∀ name conv, target.classConverter name = .ok conv → conv.Parsed
  types : ∀ conv, Declaration.bindType conv ∈ decls → conv.Parsed

theorem Parses.parsed {session : Session} {decls : List Declaration}
    (parses : Parses session.target decls) :
    ∀ conv ∈ (session.recorded decls).flatMap Entry.types, conv.Parsed :=
  forall_recorded parses.classes parses.types

theorem sound_run {session : Session} {decls : List Declaration}
    (brings : Brings session.target decls) (sound : session.registry.Sound) :
    (session.run decls).registry.Sound := by
  apply (session.books_run decls).registry.sound _ sound
  intro conv member
  exact (brings.made conv member).blank.bases

end Session

/-! ## The artifacts -/

namespace Declare

variable {session : Session}

theorem castTable_of_build {table : CastTable}
    (built : CastTable.build session.registry = .ok table) :
    castTable session =
      .ok table (session.logged [.builtCasts table.types.length table.bases.length]) := by
  have checked : (CastTable.build session.registry).mapError BindError.registry = .ok table :=
    Outcome.mapError_eq_ok_iff.mpr built
  change (ofExcept ((CastTable.build session.registry).mapError BindError.registry) >>= _) session
    = _
  rw [checked]
  rfl

theorem succeeds_writeSummary_bind {β : Type} {next : Unit → Declare β}
    (later : (next ()).Succeeds { session with
      source := session.source.write [.raw session.summary, .blank] }) :
    (writeSummary >>= next).Succeeds session :=
  later

/-- A session that has a cast table can be finished. -/
theorem succeeds_finish {table : CastTable}
    (built : CastTable.build session.registry = .ok table) : finish.Succeeds session := by
  have emitted := congrArg Draft.outcome (Upcast.emit_eq_of_build built)
  rw [finish, Succeeds, bind_of_ok (castTable_of_build built)]
  apply succeeds_get_bind
  -- The summary adds to the source only, so the registry is the same in both cases.
  split
  · apply succeeds_writeSummary_bind
    apply succeeds_get_bind
    apply succeeds_ofExcept_bind emitted
    exact ⟨_, _, rfl⟩
  · apply succeeds_get_bind
    apply succeeds_ofExcept_bind emitted
    exact ⟨_, _, rfl⟩

end Declare

/-- The plain target makes the converters of its classes like any other. -/
theorem Session.brings_plainTarget {decls : List Declaration}
    (none : ∀ conv, Declaration.bindType conv ∉ decls) :
    Session.Brings Dispatch.plainTarget decls := by
  constructor
  · intro name conv made
    change Converter.make name Option.none Dispatch.plainHooks = .ok conv at made
    exact .make made
  · intro conv member
    exact absurd member (none conv)

/-- After any declarations there is a cast table, the upcast function is generated
from it, and the session can be finished. -/
theorem run_finishes (name : String) (target : Target) (options : Options)
    (decls : List Declaration) (brings : Session.Brings target decls) :
    let reached := (Session.start name target options).run decls
    ∃ table, CastTable.build reached.registry = .ok table ∧
      (Upcast.emit reached.registry table).outcome = .ok () ∧
        ∃ output after, Declare.finish reached = .ok output after := by
  intro reached
  have sound : reached.registry.Sound :=
    Session.sound_run brings Registry.Sound.empty
  have built := sound.build_eq_ok
  have emitted := congrArg Draft.outcome (Upcast.emit_eq_of_build built)
  exact ⟨_, built, emitted, Declare.succeeds_finish built⟩

/-- A link that would close a circle, a function of an unknown type and a class
that is already there are refused, and the session is finished all the same. -/
theorem run_finishes_after_refusals :
    let decls : List Declaration := [.beginClass "Shape", .beginClass "Circle",
      .addBase "Circle" "Shape", .addBase "Shape" "Circle",
      .bindFunction "area" [⟨"void", ["Square"]⟩], .beginClass "Shape"]
    let reached := (Session.start "demo" Dispatch.plainTarget {}).run decls
    Session.Brings Dispatch.plainTarget decls ∧
      reached.registry.links.map (fun link => link.2.length) = [0, 1] ∧
      ∃ output after, Declare.finish reached = .ok output after := by
  intro decls reached
  have brings : Session.Brings Dispatch.plainTarget decls :=
    Session.brings_plainTarget (by simp [decls])
  obtain ⟨_, _, _, finished⟩ := run_finishes "demo" Dispatch.plainTarget {} decls brings
  exact ⟨brings, by decide +kernel, finished⟩

end Bindery
