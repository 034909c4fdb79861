import Bindery.Proofs.Session.Output
import Bindery.Proofs.Upcast.Evaluation
import Bindery.Proofs.Upcast.Mentions

/-!
# Tags are defined before they are used

Binding a type defines its tag at once; opening a class does not, and closing it
does.  Nothing that is declared later takes the definition back or gives the type
another tag.  So if every class that is opened is closed as well, in whichever
order things are declared, the tags that the upcast function mentions are all
defined in front of it.
-/

namespace Bindery

namespace Text

theorem linesFrom_line {line : List Char} (single : '\n' ∉ line) (reversed rest : List Char) :
    linesFrom reversed (line ++ '\n' :: rest) =
      (dropReturn (line.reverse ++ reversed)).reverse :: linesFrom [] rest := by
  induction line generalizing reversed with
  | nil => simp [linesFrom]
  | cons c line ih =>
      have other : c ≠ '\n' := fun same => single (same ▸ List.mem_cons_self)
      have later := ih (fun member => single (List.mem_cons_of_mem c member)) (c :: reversed)
      simpa [linesFrom, other] using later

/-- Behind a line feed the lines are those of what is left. -/
theorem mem_linesFrom_of_newline {line : List Char} {rest : List Char}
    (member : line ∈ linesFrom [] rest) (reversed front : List Char) :
    line ∈ linesFrom reversed (front ++ '\n' :: rest) := by
  induction front generalizing reversed with
  | nil => simp [linesFrom, member]
  | cons c front ih =>
      by_cases newline : c = '\n'
      · simpa [linesFrom, newline] using .inr (ih [])
      · simpa [linesFrom, newline] using ih (c :: reversed)

/-- A text between two line feeds is a line. -/
theorem mem_lines {line : String} (single : '\n' ∉ line.toList)
    (ends : line.toList.getLast? ≠ some '\r') (front back : String) :
    line ∈ lines (front ++ "\n" ++ (line ++ "\n" ++ back)) := by
  have kept : dropReturn line.toList.reverse = line.toList.reverse := by
    rw [List.getLast?_eq_head?_reverse] at ends
    unfold dropReturn
    split
    · next reversed same => simp [same] at ends
    · rfl
  have here : line.toList ∈ linesFrom [] (line.toList ++ '\n' :: back.toList) := by
    rw [linesFrom_line single, List.append_nil, kept, List.reverse_reverse]
    exact List.mem_cons_self
  refine List.mem_map.mpr ⟨line.toList, ?_, String.ofList_toList⟩
  simpa using mem_linesFrom_of_newline here [] front.toList

end Text

/-- The definition of a tag follows from the type. -/
theorem Converter.tagLine_eq_of_type_eq {conv other : Converter} (same : conv.type = other.type) :
    conv.tagLine = other.tagLine := by
  have tag : conv.tag = other.tag := by
    unfold Profile.tag
    rw [Profile.clean_eq, Profile.clean_eq, same]
  have canonical : conv.canonical = other.canonical := by
    rw [Profile.canonical_eq, Profile.canonical_eq, same]
  unfold tagLine
  rw [tag, canonical]

namespace Session

/-- The tag of the type registered under the key is defined in the source, on a line of
its own. -/
def Defines (session : Session) (key : TypeKey) : Prop :=
  ∃ conv front back, session.registry.find? key = some conv ∧
    session.source.text = front ++ "\n" ++ (conv.tagLine ++ "\n" ++ back)

variable {session reached : Session} {key : TypeKey}

/-- Closing a type defines its tag. -/
theorem defines_of_closing {conv : Converter} {next : Setting}
    (undergoes : session.Undergoes ⟨session.setting.closing conv, next⟩ reached)
    (found : next.registry.find? key = some conv) : reached.Defines key := by
  obtain ⟨gains, reaches⟩ := undergoes
  have registry : reached.registry = next.registry := congrArg Setting.registry reaches
  refine ⟨conv, session.source.text ++ ("// " ++ conv.canonical ++ " type glue"),
    "\n" ++ conv.glue session.name, registry ▸ found, ?_⟩
  rw [gains.source]
  simp only [Writer.append, Setting.closing, String.append_assoc]
  rfl

/-- A tag stays defined. -/
theorem Defines.after (defines : session.Defines key) (outermost : session.Outermost)
    (decl : Declaration) : (session.after decl).Defines key := by
  obtain ⟨conv, front, back, found, text⟩ := defines
  obtain ⟨later, foundLater, sameType⟩ := (session.books_after decl).registry.exists_find? found
  have gains := (undergoes_after outermost decl).2.1
  refine ⟨later, front, back ++ (decl.effect session.setting).fragment.source, foundLater, ?_⟩
  rw [gains.source, Converter.tagLine_eq_of_type_eq sameType]
  simp only [Writer.append, text, String.append_assoc]

end Session

/-- The class that a declaration opens, if it is accepted. -/
def Declaration.opens? (session : Session) (decl : Declaration) : Option TypeKey :=
  match decl, decl.perform session with
  | .beginClass _, .ok key _ => key
  | _, _ => none

/-- The type that a declaration closes, if it is accepted. -/
def Declaration.closes? (session : Session) (decl : Declaration) : Option TypeKey :=
  match decl, decl.perform session with
  | .endClass name, .ok _ _ => some (TypeKey.ofSpelling name)
  | _, _ => none

/-- A class is opened under its key. -/
theorem Declare.beginClass_eq_ok {session after : Session} {name : String} {key : TypeKey}
    {conv : Converter} (made : session.target.classConverter name = .ok conv)
    (done : beginClass name session = .ok key after) : key = conv.key := by
  change (ofExcept ((session.target.classConverter name).mapError .malformed) >>= _) session = _
    at done
  obtain ⟨given, converted, done⟩ := exists_of_ofExcept_bind done
  cases (Outcome.mapError_eq_ok_iff.mp converted).symm.trans made
  cases registered : session.registry.register conv with
  | error error =>
      rw [bind_of_error (register_of_error registered)] at done
      cases done
  | ok registry =>
      rw [bind_of_ok (register_of_ok registered)] at done
      by_cases silent : (conv.api session.name).isEmpty = true
      · simp only [silent] at done
        cases done
        rfl
      · simp only [silent] at done
        cases done
        rfl

namespace Session

variable {session : Session} {decl : Declaration} {key : TypeKey}

/-- Closing a type leaves its tag defined. -/
theorem defines_of_closes? (outermost : session.Outermost)
    (closes : decl.closes? session = some key) : (session.after decl).Defines key := by
  unfold Declaration.closes? at closes
  split at closes
  · next name value after done =>
      cases closes
      obtain ⟨effect, expected, undergoes⟩ :=
        exists_effect? outermost (by simp) (Declare.accepts_of_ok done)
      obtain ⟨key, required, expected⟩ := Option.bind_eq_some_iff.mp expected
      obtain ⟨conv, found, same⟩ := Option.bind_eq_some_iff.mp expected
      cases same
      cases Registry.eq_of_require (Outcome.toOption_eq_some_iff.mp required)
      exact defines_of_closing undergoes found
  · cases closes

/-- A type that a declaration registers is a class that it opens, or its tag is
defined. -/
theorem registered_after (outermost : session.Outermost)
    (registered : key ∈ (session.after decl).registry.keys) :
    key ∈ session.registry.keys ∨ decl.opens? session = some key ∨
      (session.after decl).Defines key := by
  rw [(session.books_after decl).registry.keys_eq, List.mem_append] at registered
  refine registered.imp_right fun brought => ?_
  obtain ⟨conv, member, rfl⟩ := List.mem_map.mp brought
  obtain ⟨accepted, rfl | ⟨name, rfl, made⟩⟩ := source_of_recordedBy member
  · obtain ⟨effect, expected, undergoes⟩ := exists_effect? outermost (by simp) accepted
    obtain ⟨registry, taken, same⟩ := Option.bind_eq_some_iff.mp expected
    cases same
    right
    apply defines_of_closing undergoes
    exact Registry.find?_of_register (Outcome.toOption_eq_some_iff.mp taken)
  · left
    have performs : (Declaration.beginClass name).perform =
        Declare.beginClass name >>= fun key => pure (some key) := rfl
    obtain ⟨key, after, done⟩ := Declare.exists_ok_of_accepts performs accepted
    cases Declare.beginClass_eq_ok made done
    have performed : (Declaration.beginClass name).perform session = .ok (some conv.key) after :=
      Declare.bind_of_ok done
    simp only [Declaration.opens?, performed]

end Session

/-! ## Runs -/

namespace Session

/-- What is found at declarations, each in the session that it is made in. -/
def collect (find? : Session → Declaration → Option TypeKey) (session : Session) :
    List Declaration → List TypeKey
  | [] => []
  | decl :: rest => (find? session decl).toList ++ (session.after decl).collect find? rest

/-- The classes that accepted declarations open. -/
def opened (session : Session) (decls : List Declaration) : List TypeKey :=
  session.collect Declaration.opens? decls

/-- The types that accepted declarations close. -/
def closed (session : Session) (decls : List Declaration) : List TypeKey :=
  session.collect Declaration.closes? decls

variable {session : Session} {decls : List Declaration} {key : TypeKey}

theorem Defines.run (defines : session.Defines key) (outermost : session.Outermost)
    (decls : List Declaration) : (session.run decls).Defines key := by
  induction decls generalizing session with
  | nil => exact defines
  | cons decl rest ih => exact ih (defines.after outermost decl) (outermost.after decl)

/-- The tag of a type that is closed is defined from there on. -/
theorem defines_of_mem_closed (outermost : session.Outermost)
    (member : key ∈ session.closed decls) : (session.run decls).Defines key := by
  induction decls generalizing session with
  | nil => cases member
  | cons decl rest ih =>
      have later := outermost.after decl
      rcases List.mem_append.mp member with here | there
      · exact (defines_of_closes? outermost (Option.mem_toList.mp here)).run later rest
      · exact ih later there

/-- Types come to be registered as classes that are opened, or with their tags
defined. -/
theorem registered_run (outermost : session.Outermost)
    (registered : key ∈ (session.run decls).registry.keys) :
    key ∈ session.registry.keys ∨ key ∈ session.opened decls ∨
      (session.run decls).Defines key := by
  induction decls generalizing session with
  | nil => exact .inl registered
  | cons decl rest ih =>
      have later := outermost.after decl
      -- What the rest of the run did not bring was there before it: either from the start, or
      -- the first declaration brought it.
      rcases ih later registered with before | isOpened | defines
      · rcases registered_after outermost before with known | opens | defines
        · exact .inl known
        · exact .inr (.inl (List.mem_append_left _ (Option.mem_toList.mpr opens)))
        · exact .inr (.inr (defines.run later rest))
      · exact .inr (.inl (List.mem_append_right _ isOpened))
      · exact .inr (.inr defines)

/-- If every class that is opened is closed, the tags of all types are defined. -/
theorem defines_run (outermost : session.Outermost) (empty : session.registry.keys = [])
    (closes : ∀ key ∈ session.opened decls, key ∈ session.closed decls)
    (registered : key ∈ (session.run decls).registry.keys) : (session.run decls).Defines key := by
  rcases registered_run outermost registered with known | isOpened | defines
  · rw [empty] at known
    cases known
  · exact defines_of_mem_closed outermost (closes key isOpened)
  · exact defines

end Session

namespace Converter

variable {conv : Converter}

theorem toList_tagLine (conv : Converter) :
    conv.tagLine.toList = "static const char *".toList ++ (conv.tag.toList ++
      (" = \"".toList ++ (conv.canonical.toList ++ "\";".toList))) := by
  unfold tagLine
  simp only [String.toList_append, List.append_assoc]

/-- The definition of a tag is on one line. -/
theorem newline_not_mem_tagLine (readable : conv.label.Readable) :
    '\n' ∉ conv.tagLine.toList := by
  have tag : '\n' ∉ conv.tag.toList := by
    intro member
    cases readable.idents _ member
  have canonical : '\n' ∉ conv.canonical.toList := by
    intro member
    rcases readable.spelling.isPlain_or_eq member with plain | colon <;> contradiction
  have front : '\n' ∉ "static const char *".toList := by decide
  have middle : '\n' ∉ " = \"".toList := by decide
  have back : '\n' ∉ "\";".toList := by decide
  rw [toList_tagLine]
  simp only [List.mem_append, front, tag, middle, canonical, back, or_self, not_false_eq_true]

theorem getLast?_tagLine (conv : Converter) : conv.tagLine.toList.getLast? = some ';' := by
  have last : "\";".toList.getLast? = some ';' := rfl
  rw [toList_tagLine]
  simp only [List.getLast?_append, last, Option.some_or]

end Converter

theorem Session.readable_run {session : Session} {decls : List Declaration}
    (parses : Session.Parses session.target decls) (empty : session.registry = {}) :
    ∀ conv ∈ (session.run decls).registry.converters, conv.label.Readable := by
  have taken := (session.books_run decls).registry
  rw [empty] at taken
  exact taken.readable parses.parsed

/-- In a session that closes every class it opens, each tag that the upcast function
mentions is that of a registered type, and its definition is a line in front of the
function.  It is enough that the types have been parsed and that the session could be
finished, as it can be if the converters are as they are made. -/
theorem run_defines_mentioned_tags (name : String) (target : Target) (options : Options)
    (decls : List Declaration) (parses : Session.Parses target decls)
    (closes : ∀ key ∈ (Session.start name target options).opened decls,
      key ∈ (Session.start name target options).closed decls) :
    let reached := (Session.start name target options).run decls
    (Session.Brings target decls → ∃ output after, Declare.finish reached = .ok output after) ∧
      ∀ output after, Declare.finish reached = .ok output after →
        ∃ table front, CastTable.build reached.registry = .ok table ∧
          output.source =
            front ++ (Upcast.emit reached.registry table).code.textAt options.indent 0 ∧
          ∀ tag ∈ Upcast.mentions (Upcast.emit reached.registry table).code,
            ∃ conv ∈ reached.registry.converters, conv.tag = tag ∧
              "static const char *" ++ tag ++ " = \"" ++ conv.canonical ++ "\";" ∈
                Text.lines front := by
  intro reached
  have started : (Session.start name target options).Outermost := ⟨rfl, rfl⟩
  have gains := Session.gains_run started decls
  have readable : ∀ conv ∈ reached.registry.converters, conv.label.Readable :=
    Session.readable_run parses rfl
  have unit : reached.source.unit = options.indent := by
    rw [gains.source]
    rfl
  constructor
  · intro brings
    have sound : reached.registry.Sound := Session.sound_run brings Registry.Sound.empty
    exact Declare.succeeds_finish sound.build_eq_ok
  · intro output after finished
    obtain ⟨table, built, rfl⟩ := Session.build_of_finish finished
    refine ⟨table, reached.options.front reached.systemIncludes reached.userIncludes ++
      (reached.source.text ++ if reached.options.emitSummary then reached.summary ++ "\n" else ""),
      built, ?_, ?_⟩
    · rw [Session.assembled, unit]
      simp only [String.append_assoc]
    · intro tag mentioned
      obtain ⟨conv, member, rfl⟩ :=
        Upcast.exists_converter_of_mem_mentions readable built mentioned
      obtain ⟨found, front, back, isFound, text⟩ :=
        Session.defines_run started rfl closes (List.mem_map_of_mem member)
      cases isFound.symm.trans (Registry.find?_eq_some_iff.mpr ⟨member, rfl⟩)
      refine ⟨conv, member, rfl, ?_⟩
      -- What stands around the declared source only adds to the texts on both sides of the line.
      change conv.tagLine ∈ _
      have line := Text.mem_lines (Converter.newline_not_mem_tagLine (readable conv member))
        (by simp [Converter.getLast?_tagLine])
        (reached.options.front reached.systemIncludes reached.userIncludes ++ front)
        (back ++ if reached.options.emitSummary then reached.summary ++ "\n" else "")
      rw [show reached.source.text = _ from text]
      simpa only [String.append_assoc] using line

/-- A link is made before either class is closed, calls in between are refused, and a type is
bound with a base that was set on it before. -/
theorem run_defines_mentioned_tags_early_link :
    let ring : Converter := { Converter.ofTypes ⟨false, none, ⟨["geo"], "Ring"⟩, []⟩
      ⟨false, none, ⟨["geo"], "Ring"⟩, []⟩ Dispatch.plainHooks with
        bases := [TypeKey.ofSpelling "geo::Disc"] }
    let session := Session.start "demo" Dispatch.plainTarget {}
    let decls : List Declaration := [.beginClass "Shape", .beginClass "geo::Disc",
      .addBase "geo::Disc" "Shape", .endClass "Round", .endClass "geo::Disc", .beginClass "Shape",
      .bindType ring, .endClass "Shape"]
    let reached := session.run decls
    session.opened decls = [TypeKey.ofSpelling "Shape", TypeKey.ofSpelling "geo::Disc"] ∧
      ∃ table output after front, CastTable.build reached.registry = .ok table ∧
        Declare.finish reached = .ok output after ∧
        output.source = front ++ (Upcast.emit reached.registry table).code.textAt "\t" 0 ∧
        Upcast.mentions (Upcast.emit reached.registry table).code =
          ["__Shape_type_tag", "__geo__Disc_type_tag", "__geo__Ring_type_tag",
            "__geo__Disc_type_tag", "__geo__Ring_type_tag"] ∧
        "static const char *__geo__Ring_type_tag = \"geo::Ring\";" ∈ Text.lines front := by
  intro ring session decls reached
  have parses : Session.Parses Dispatch.plainTarget decls := by
    constructor
    · intro name conv made
      change Converter.make name Option.none Dispatch.plainHooks = .ok conv at made
      exact (Converter.Made.make made).parsed
    · intro conv member
      have isRing : conv = ring := by simpa [decls] using member
      subst isRing
      exact ⟨"geo::Ring", by decide +kernel⟩
  have closes : ∀ key ∈ session.opened decls, key ∈ session.closed decls := by decide +kernel
  have mentioned : (CastTable.build reached.registry).toOption.map (fun table =>
      ((Upcast.ladder reached.registry table).flatMap Upcast.Rung.labels).map (·.tag)) =
        some ["__Shape_type_tag", "__geo__Disc_type_tag", "__geo__Ring_type_tag",
          "__geo__Disc_type_tag", "__geo__Ring_type_tag"] := by decide +kernel
  have named : ∀ conv ∈ reached.registry.converters, conv.tag = "__geo__Ring_type_tag" →
      conv.canonical = "geo::Ring" := by decide +kernel
  have opened : session.opened decls =
      [TypeKey.ofSpelling "Shape", TypeKey.ofSpelling "geo::Disc"] := by decide +kernel
  have readable := Session.readable_run (show Session.Parses session.target decls from parses) rfl
  have defined := (run_defines_mentioned_tags "demo" Dispatch.plainTarget {} decls parses closes).2
  -- What is left holds of any session, and is not to be computed.
  have isReached : session.run decls = reached := rfl
  clear_value reached
  rw [isReached] at readable
  rw [show (Session.start "demo" Dispatch.plainTarget {}).run decls = reached from isReached]
    at defined
  obtain ⟨table, isTable, tags⟩ := Option.map_eq_some_iff.mp mentioned
  have built := Outcome.toOption_eq_some_iff.mp isTable
  have mentions := (Upcast.mentions_emit readable built).trans tags
  obtain ⟨output, after, finished⟩ := Declare.succeeds_finish built
  obtain ⟨again, front, builtAgain, source, defined⟩ := defined output after finished
  obtain rfl : table = again := Except.ok.inj (built.symm.trans builtAgain)
  obtain ⟨conv, member, tag, line⟩ := defined "__geo__Ring_type_tag" (by rw [mentions]; simp)
  rw [named conv member tag] at line
  exact ⟨opened, table, output, after, front, built, finished, source, mentions, line⟩

end Bindery
