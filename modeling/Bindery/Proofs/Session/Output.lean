import Bindery.Proofs.Session.Finishing
import Bindery.Proofs.Session.Fragment

/-!
# The artifacts of a session

Every declaration appends a fragment to the artifacts, which follows from the
declaration and the setting that it is made in.  So the artifacts of a run are the
fragments of its declarations, one behind the other.  A declaration that is refused
appends nothing, but for a list of members, which appends what belongs to the
members in front of the one that is refused.  Finishing puts the fragments between
what every module needs.
-/

namespace Bindery

namespace Session

variable {α : Type} {session : Session} {decl : Declaration} {step : Declare α}
  {result : α → Option TypeKey}

theorem undergoes_of_logged (events : List Event) :
    session.Undergoes ⟨{}, session.setting⟩ (session.logged events) :=
  ⟨.of_same rfl rfl rfl rfl rfl, rfl⟩

/-- A single call has the effect that is expected of it, or none. -/
theorem undergoes_of_step (performs : decl.perform = step >>= fun value => pure (result value))
    (follows : step.Follows session (decl.effect? session.setting)) :
    decl.perform.accepts session = (decl.effect? session.setting).isSome ∧
      session.Undergoes ((decl.effect? session.setting).getD ⟨{}, session.setting⟩)
        (session.after decl) := by
  rw [accepts_of_step performs, after_of_step performs]
  cases expected : decl.effect? session.setting with
  | some effect =>
      rw [expected] at follows
      obtain ⟨value, after, done, undergoes⟩ := follows
      rw [Declare.accepts_of_ok done, Declare.leaves_of_ok done]
      exact ⟨rfl, undergoes⟩
  | none =>
      rw [expected] at follows
      obtain ⟨error, events, failed⟩ := follows
      rw [Declare.accepts_of_error failed, Declare.leaves_of_error failed]
      exact ⟨rfl, undergoes_of_logged events⟩

theorem undergoes_bindMembers (session : Session) (type : String) (members : List String) :
    (Declare.bindMembers type members).accepts session =
        session.setting.bindsAll type members ∧
      session.Undergoes (session.setting.bindMembers type members)
        ((Declare.bindMembers type members).leaves session) := by
  induction members generalizing session with
  | nil =>
      rw [Declare.bindMembers, Setting.bindsAll, Setting.bindMembers]
      exact ⟨rfl, .refl session, rfl⟩
  | cons member rest ih =>
      have first : (Declare.bindMember type member).Follows session
          (session.setting.bindMember? type member) := Declare.follows_bindMember type member
      rw [Declare.bindMembers, Setting.bindsAll, Setting.bindMembers]
      cases expected : session.setting.bindMember? type member with
      | none =>
          rw [expected] at first
          obtain ⟨error, events, failed⟩ := first
          rw [Declare.accepts_of_error (Declare.bind_of_error failed),
            Declare.leaves_of_error (Declare.bind_of_error failed)]
          exact ⟨rfl, undergoes_of_logged events⟩
      | some effect =>
          rw [expected] at first
          obtain ⟨value, middle, done, gains, reaches⟩ := first
          obtain ⟨accepts, later, reachesLater⟩ := ih middle
          rw [Declare.accepts, Declare.leaves, Declare.bind_of_ok done]
          rw [reaches] at accepts later reachesLater
          exact ⟨accepts, gains.trans later, reachesLater⟩

/-- A declaration is accepted, and has the effect, that follow from the setting it is
made in. -/
theorem undergoes_after (outermost : session.Outermost) (decl : Declaration) :
    decl.perform.accepts session = decl.accepted session.setting ∧
      session.Undergoes (decl.effect session.setting) (session.after decl) := by
  cases decl with
  | bindType conv => exact undergoes_of_step rfl (Declare.follows_bindType outermost conv)
  | beginClass name => exact undergoes_of_step rfl (Declare.follows_beginClass name)
  | endClass name => exact undergoes_of_step rfl (Declare.follows_endClass outermost name)
  | addBase derived base => exact undergoes_of_step rfl (Declare.follows_addBase derived base)
  | bindFunction name signatures =>
      exact undergoes_of_step rfl (Declare.follows_bindFunction name signatures)
  | bindConstructor type overloads =>
      exact undergoes_of_step rfl (Declare.follows_bindConstructor type overloads)
  | bindMethod type name signatures =>
      exact undergoes_of_step rfl (Declare.follows_bindMethod type name signatures)
  | bindMember type member =>
      exact undergoes_of_step rfl (Declare.follows_bindMember type member)
  | bindMembers type members =>
      have performs : (Declaration.bindMembers type members).perform =
          Declare.bindMembers type members >>= fun _ => pure none := rfl
      rw [accepts_of_step performs, after_of_step performs]
      exact undergoes_bindMembers session type members
  | declareTemplate template =>
      have follows : (Declare.declareTemplate template).Follows session
          ((Declaration.declareTemplate template).effect? session.setting) :=
        ⟨(), _, rfl, .of_same rfl rfl rfl rfl rfl, rfl⟩
      exact undergoes_of_step rfl follows
  | bindTemplate template name types =>
      exact undergoes_of_step rfl (Declare.follows_bindTemplate template name types)
  | addInclude path system =>
      exact undergoes_of_step rfl (Declare.follows_addInclude path system)
  | insertCode code artifacts =>
      exact undergoes_of_step rfl (Declare.follows_insertCode code artifacts)
  | writeSummary => exact undergoes_of_step rfl Declare.follows_writeSummary

/-- A single call that is accepted has an effect of its own. -/
theorem exists_effect? (outermost : session.Outermost)
    (single : ∀ type members, decl ≠ .bindMembers type members)
    (accepted : decl.perform.accepts session = true) :
    ∃ effect, decl.effect? session.setting = some effect ∧
      session.Undergoes effect (session.after decl) := by
  obtain ⟨accepts, undergoes⟩ := undergoes_after outermost decl
  rw [accepted, Declaration.accepted_of_single single] at accepts
  obtain ⟨effect, expected⟩ := Option.isSome_iff_exists.mp accepts.symm
  rw [Declaration.effect_of_single single, expected] at undergoes
  exact ⟨effect, expected, undergoes⟩

theorem Outermost.after (outermost : session.Outermost) (decl : Declaration) :
    (session.after decl).Outermost :=
  (undergoes_after outermost decl).2.1.outermost outermost

end Session

/-- Members up to the first that is refused. -/
theorem Setting.exists_refused {setting : Setting} {type : String} {members : List String}
    (refuses : setting.bindsAll type members = false) :
    ∃ accepted refused rest, members = accepted ++ refused :: rest ∧
      setting.bindsAll type accepted = true ∧
      (setting.bindMembers type accepted).next.bindMember? type refused = none ∧
      (setting.bindMembers type members).fragment =
        (setting.bindMembers type accepted).fragment := by
  induction members generalizing setting with
  | nil => cases refuses
  | cons member rest ih =>
      rw [bindsAll] at refuses
      cases expected : setting.bindMember? type member with
      | none =>
          refine ⟨[], member, rest, rfl, rfl, expected, ?_⟩
          simp only [bindMembers, expected, Option.elim_none]
      | some effect =>
          rw [expected] at refuses
          obtain ⟨accepted, refused, others, rfl, all, none, same⟩ := ih refuses
          refine ⟨member :: accepted, refused, others, rfl, ?_, ?_, ?_⟩
          · rw [bindsAll, expected]
            exact all
          · rw [bindMembers, expected]
            exact none
          · rw [bindMembers, bindMembers, expected]
            exact congrArg effect.fragment.append same

/-- A single call that is refused appends nothing. -/
theorem Declaration.fragment_of_refused {decl : Declaration} {setting : Setting}
    (single : ∀ type members, decl ≠ .bindMembers type members)
    (refused : decl.accepted setting = false) : (decl.effect setting).fragment = {} := by
  rw [accepted_of_single single, Option.isSome_eq_false_iff, Option.isNone_iff_eq_none] at refused
  rw [effect_of_single single, refused]
  rfl

/-- A refused declaration is a single call that has no effect, or a list of members of
which one is refused and those in front of it are bound. -/
theorem Session.refused_cases {session : Session} (outermost : session.Outermost)
    {decl : Declaration} (refused : decl.perform.accepts session = false) :
    (decl.effect session.setting).fragment = {} ∨
      ∃ type accepted member rest, decl = .bindMembers type (accepted ++ member :: rest) ∧
        (Declaration.bindMembers type accepted).perform.accepts session = true ∧
        (Declaration.bindMember type member).perform.accepts
          (session.after (.bindMembers type accepted)) = false ∧
        (decl.effect session.setting).fragment =
          ((Declaration.bindMembers type accepted).effect session.setting).fragment := by
  have isRefused : decl.accepted session.setting = false :=
    (session.undergoes_after outermost decl).1.symm.trans refused
  by_cases single : ∀ type members, decl ≠ .bindMembers type members
  · exact .inl (Declaration.fragment_of_refused single isRefused)
  · push Not at single
    obtain ⟨type, members, rfl⟩ := single
    obtain ⟨accepted, member, rest, rfl, all, none, same⟩ := Setting.exists_refused isRefused
    obtain ⟨accepts, -, reaches⟩ := session.undergoes_after outermost (.bindMembers type accepted)
    have next := outermost.after (.bindMembers type accepted)
    have later := undergoes_after next (.bindMember type member)
    refine .inr ⟨type, accepted, member, rest, rfl, accepts.trans all, later.1.trans ?_, same⟩
    rw [reaches]
    exact congrArg Option.isSome none

/-- Of fragments one behind the other, each part is put together on its own. -/
theorem Fragment.join_eq (fragments : List Fragment) :
    join fragments = {
      header := String.join (fragments.map (·.header))
      source := String.join (fragments.map (·.source))
      systemIncludes := fragments.flatMap (·.systemIncludes)
      userIncludes := fragments.flatMap (·.userIncludes) } := by
  induction fragments with
  | nil => rfl
  | cons fragment rest ih =>
      simp only [List.map_cons, String.join_cons, List.flatMap_cons]
      exact congrArg fragment.append ih

namespace Session

/-- What declarations append, one after the other, each in the setting that it is made
in. -/
def fragments (session : Session) : List Declaration → List Fragment
  | [] => []
  | decl :: rest =>
      (decl.effect session.setting).fragment :: (session.after decl).fragments rest

variable {session other : Session}

theorem gains_run (outermost : session.Outermost) (decls : List Declaration) :
    session.Gains (Fragment.join (session.fragments decls)) (session.run decls) := by
  induction decls generalizing session with
  | nil => exact .refl session
  | cons decl rest ih =>
      exact (undergoes_after outermost decl).2.1.trans (ih (outermost.after decl))

/-- Sessions in one setting append the same, whatever they hold. -/
theorem fragments_eq_of_setting_eq (outermost : session.Outermost)
    (otherOutermost : other.Outermost) (same : other.setting = session.setting)
    (decls : List Declaration) : other.fragments decls = session.fragments decls := by
  induction decls generalizing session other with
  | nil => rfl
  | cons decl rest ih =>
      have reaches := (undergoes_after outermost decl).2.2
      have otherReaches := (undergoes_after otherOutermost decl).2.2
      rw [same] at otherReaches
      rw [fragments, fragments, same, ih (outermost.after decl) (otherOutermost.after decl)
        (otherReaches.trans reaches.symm)]

end Session

/-! ## Finishing -/

/-- What every artifact starts with. -/
def Options.banner (options : Options) : String :=
  "// " ++ options.disclaimer ++ "\n" ++ "\n"

/-- What every source starts with. -/
def Options.front (options : Options) (systemIncludes userIncludes : List String) : String :=
  options.banner ++
    String.join (systemIncludes.map fun path => "#include <" ++ path ++ ">" ++ "\n") ++
    String.join (userIncludes.map fun path => "#include \"" ++ path ++ "\"" ++ "\n") ++
    "\n" ++ "enum OwnershipPolicy \x7b NonOwning, Copy, Owning \x7d;" ++ "\n" ++
    "\n" ++ Upcast.signature ++ ";" ++ "\n" ++ "\n"

namespace Session

variable {session : Session} {table : CastTable}

theorem textAt_lines (unit : String) (line : String → String) (paths : List String) (rest : Code) :
    Code.textAt unit 0 (paths.map (fun path => .line (line path)) ++ rest) =
      String.join (paths.map fun path => line path ++ "\n") ++ Code.textAt unit 0 rest := by
  induction paths with
  | nil => simp
  | cons path paths ih =>
      rw [List.map_cons, List.map_cons, List.cons_append, Code.textAt_line_cons, ih,
        String.join_cons]
      simp only [String.append_assoc]

theorem textAt_preamble (session : Session) (unit : String) (rest : Code) :
    Code.textAt unit 0 (session.preamble ++ rest) =
      session.options.front session.systemIncludes session.userIncludes ++
        Code.textAt unit 0 rest := by
  have policies : "enum OwnershipPolicy \x7b " ++
      ", ".intercalate (Ownership.all.map Ownership.text) ++ " \x7d;" =
        "enum OwnershipPolicy \x7b NonOwning, Copy, Owning \x7d;" := by decide +kernel
  rw [preamble, policies]
  simp only [List.append_assoc, List.cons_append, List.nil_append, Code.textAt_line_cons,
    Code.textAt_blank_cons, textAt_lines unit (fun path => "#include <" ++ path ++ ">"),
    textAt_lines unit (fun path => "#include \"" ++ path ++ "\"")]
  simp only [Options.front, Options.banner, String.append_assoc]

theorem headerText_eq (session : Session) :
    session.headerText = session.options.banner ++ session.header.text := by
  change Code.textAt session.header.unit 0 _ = _
  simp only [Code.textAt_line_cons, Code.textAt_blank_cons, Code.textAt_raw_cons, Code.textAt_nil,
    Options.banner, String.append_assoc, String.append_empty]

/-- The artifacts that a session is finished with, given its cast table. -/
def assembled (session : Session) (table : CastTable) : Output where
  header := session.options.banner ++ session.header.text
  source := session.options.front session.systemIncludes session.userIncludes ++
    (session.source.text ++ (if session.options.emitSummary then session.summary ++ "\n" else "") ++
      (Upcast.emit session.registry table).code.textAt session.source.unit 0)

/-- Behind the declared source the session writes what is left, and puts the rest around
it. -/
theorem finish_of_build (built : CastTable.build session.registry = .ok table) :
    ∃ after, Declare.finish session = .ok (session.assembled table) after := by
  have emitted : (Upcast.emit session.registry table).outcome = .ok () :=
    congrArg Draft.outcome (Upcast.emit_eq_of_build built)
  have source (unit text : String) (code : Code) :
      Code.textAt unit 0 (session.preamble ++ .raw text :: code) =
        session.options.front session.systemIncludes session.userIncludes ++
          (text ++ Code.textAt unit 0 code) := by
    rw [textAt_preamble, Code.textAt_raw_cons]
  rw [Declare.finish, Declare.bind_of_ok (Declare.castTable_of_build built), assembled,
    ← headerText_eq, ← source]
  by_cases summarized : session.options.emitSummary = true
  · change ∃ after, (if session.options.emitSummary = true then _ else _ : Declare Output) _ = _
    rw [if_pos summarized, if_pos summarized, ← String.append_assoc]
    change ∃ after, (Declare.ofExcept (Upcast.emit session.registry table).outcome >>= _) _ = _
    rw [emitted]
    exact ⟨_, rfl⟩
  · change ∃ after, (if session.options.emitSummary = true then _ else _ : Declare Output) _ = _
    rw [if_neg summarized, if_neg summarized, String.append_empty]
    change ∃ after, (Declare.ofExcept (Upcast.emit session.registry table).outcome >>= _) _ = _
    rw [emitted]
    exact ⟨_, rfl⟩

/-- A session that is finished has a cast table. -/
theorem build_of_finish {output : Output} {after : Session}
    (finished : Declare.finish session = .ok output after) :
    ∃ table, CastTable.build session.registry = .ok table ∧ output = session.assembled table := by
  obtain ⟨_, _, tabled, -⟩ := Declare.bind_eq_ok_iff.mp finished
  change (Declare.ofExcept ((CastTable.build session.registry).mapError .registry) >>= _) session =
    _ at tabled
  obtain ⟨table, built, -⟩ := Declare.exists_of_ofExcept_bind tabled
  have built := Outcome.mapError_eq_ok_iff.mp built
  obtain ⟨_, again⟩ := finish_of_build built
  cases finished.symm.trans again
  exact ⟨table, built, rfl⟩

end Session

/-- The artifacts of a run are the fragments of its declarations, in order.  A refused
declaration appends nothing, but for the members in front of a refused one; sessions in
one setting append the same; and the fragments stand as they are in what a session that has
a cast table is finished with. -/
theorem run_appends_fragments (name : String) (target : Target) (options : Options)
    (decls : List Declaration) :
    let session := Session.start name target options
    let reached := session.run decls
    let fragments := session.fragments decls
    (reached.header = ⟨options.indent, 0, String.join (fragments.map (·.header))⟩ ∧
      reached.source = ⟨options.indent, 0, String.join (fragments.map (·.source))⟩) ∧
    (∀ decl : Declaration,
      let fragment := (decl.effect reached.setting).fragment
      reached.Gains fragment (reached.after decl) ∧
      (decl.perform.accepts reached = false →
        fragment = {} ∨
          ∃ type accepted member rest, decl = .bindMembers type (accepted ++ member :: rest) ∧
            (Declaration.bindMembers type accepted).perform.accepts reached = true ∧
            (Declaration.bindMember type member).perform.accepts
              (reached.after (.bindMembers type accepted)) = false ∧
            fragment =
              ((Declaration.bindMembers type accepted).effect reached.setting).fragment)) ∧
    (∀ other : Session, other.Outermost → other.setting = reached.setting →
      ∀ later, ∃ fragment,
        reached.Gains fragment (reached.run later) ∧ other.Gains fragment (other.run later)) ∧
    (Session.Brings target decls → ∃ table, CastTable.build reached.registry = .ok table) ∧
    (∀ table, CastTable.build reached.registry = .ok table → ∃ after,
      Declare.finish reached = .ok {
        header := options.banner ++ String.join (fragments.map (·.header))
        source :=
          options.front (options.systemIncludes ++ fragments.flatMap (·.systemIncludes))
            (fragments.flatMap (·.userIncludes)) ++
          (String.join (fragments.map (·.source)) ++
            (if options.emitSummary then reached.summary ++ "\n" else "") ++
            (Upcast.emit reached.registry table).code.textAt options.indent 0) } after) := by
  intro session reached fragments
  have started : session.Outermost := ⟨rfl, rfl⟩
  have gains : session.Gains _ reached := Session.gains_run started decls
  have outermost := gains.outermost started
  rw [Fragment.join_eq] at gains
  have header : reached.header = ⟨options.indent, 0, String.join (fragments.map (·.header))⟩ := by
    rw [gains.header]
    exact congrArg (Writer.mk options.indent 0) String.empty_append
  have source : reached.source = ⟨options.indent, 0, String.join (fragments.map (·.source))⟩ := by
    rw [gains.source]
    exact congrArg (Writer.mk options.indent 0) String.empty_append
  refine ⟨⟨header, source⟩, fun decl => ⟨(Session.undergoes_after outermost decl).2.1,
    Session.refused_cases outermost⟩, ?_, ?_, ?_⟩
  · intro other otherOutermost same later
    have otherGains := Session.gains_run otherOutermost later
    rw [Session.fragments_eq_of_setting_eq outermost otherOutermost same] at otherGains
    exact ⟨_, Session.gains_run outermost later, otherGains⟩
  · intro brings
    have sound : reached.registry.Sound := Session.sound_run brings Registry.Sound.empty
    exact ⟨_, sound.build_eq_ok⟩
  · intro table built
    obtain ⟨after, finished⟩ := Session.finish_of_build built
    refine ⟨after, ?_⟩
    rw [finished, Session.assembled, header, source, gains.systemIncludes, gains.userIncludes,
      gains.options]
    rfl

theorem run_appends_fragments_reopened_class :
    let decls : List Declaration := [.addInclude "vector" true,
      .insertCode "// by hand\n" ⟨true, true⟩, .beginClass "A", .endClass "A", .beginClass "A"]
    let reached := (Session.start "demo" Dispatch.plainTarget {}).run decls
    Session.Brings Dispatch.plainTarget decls ∧
      reached.source.text =
        "// by hand\n// A type glue\nstatic const char *__A_type_tag = \"A\";\n\n" ∧
      ∃ output after, Declare.finish reached = .ok output after ∧
        output.header = "// This file is automatically generated, do not modify manually!\n\n" ++
          "// by hand\n" := by
  intro decls reached
  have brings : Session.Brings Dispatch.plainTarget decls :=
    Session.brings_plainTarget (by simp [decls])
  obtain ⟨⟨-, source⟩, -, -, hasTable, finished⟩ :=
    run_appends_fragments "demo" Dispatch.plainTarget {} decls
  obtain ⟨table, built⟩ := hasTable brings
  obtain ⟨after, finished⟩ := finished table built
  refine ⟨brings, ?_, _, after, finished, ?_⟩
  · rw [show reached.source = _ from source]
    decide +kernel
  · change Options.banner {} ++ String.join
      (((Session.start "demo" Dispatch.plainTarget {}).fragments decls).map (·.header)) = _
    decide +kernel

/-- Of two members the second is of no registered type.  The call is refused, and yet the
accessors of the first are written. -/
theorem refused_members_append :
    let decls : List Declaration := [.bindType Dispatch.intConverter, .beginClass "A"]
    let reached := (Session.start "demo" Dispatch.plainTarget {}).run decls
    let decl : Declaration := .bindMembers "A" ["int x", "B y"]
    decl.perform.accepts reached = false ∧
      (reached.after decl).source = (reached.after (.bindMember "A" "int x")).source ∧
      (reached.after decl).source ≠ reached.source := by
  decide +kernel

end Bindery
