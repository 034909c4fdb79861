import Bindery.Proofs.Session.Bookkeeping
import Bindery.Proofs.Upcast.Text

/-!
# What the upcast function returns

A call of the upcast function compares the tag that is asked for with the tag of
the object, then with the tags of the bases, and the tag of the object with those
of the types that derive from the base found.  As long as no two registered types
share a tag, what it returns is what the cast table says of the two types.
-/

namespace Bindery

open Native

/-- What a cast makes of a pointer. -/
def Cast.value (dynamic target : Upcast.Label) (pointer : Value) : Cast → Value
  | .identity => pointer
  | .upcast =>
      .cast (pointerTokens target.canonical) (.cast (pointerTokens dynamic.canonical) pointer)
  | .null => .null

namespace Upcast

/-- The parameters of the upcast function with the values that it is called on. -/
def arguments (pointer : Value) (dynamic target : String) : Scope :=
  [("in_p", pointer), ("in_type_tag", .label dynamic), ("out_type_tag", .label target)]

/-- The variables of the upcast function. -/
def frame (out pointer : Value) (dynamic target : String) : Scope :=
  ("out_p", out) :: arguments pointer dynamic target

/-- What the types that derive from a base leave in `out_p`. -/
def rungValue (out pointer : Value) (dynamic : String) (rung : Rung) : Value :=
  (rung.2.find? (·.tag = dynamic)).elim out fun derived => Cast.upcast.value derived rung.1 pointer

/-- What the bases leave in `out_p`. -/
def ladderValue (out pointer : Value) (dynamic target : String) (ladder : List Rung) : Value :=
  (ladder.find? (·.1.tag = target)).elim out (rungValue out pointer dynamic)

/-- The tag can be read, and it stands for itself. -/
structure Label.Known (globals : String → Option Value) (label : Label) : Prop where
  readable : label.Readable
  stands : globals label.tag = some (.label label.tag)

section Calls

variable {globals : String → Option Value} {out pointer : Value} {dynamic target : String}

/-- No variable hides a tag. -/
theorem Label.Known.value {label : Label} (known : label.Known globals) :
    (Expr.name label.tag).value globals (frame out pointer dynamic target) =
      some (.label label.tag) := by
  have plain : ∀ name ∈ ["out_p", "in_p", "in_type_tag", "out_type_tag"],
      name.toList.head? ≠ some '_' := by decide
  have hidden : (frame out pointer dynamic target).lookup label.tag = none := by
    rw [List.lookup_eq_none_iff]
    intro entry member
    have name : entry.1 ∈ ["out_p", "in_p", "in_type_tag", "out_type_tag"] :=
      List.mem_map_of_mem member
    exact bne_iff_ne.mpr (known.readable.tag_ne (plain entry.1 name))
  rw [Expr.value, hidden, known.stands]
  rfl

/-- The inner ladder takes the first type with the tag of the object. -/
theorem run_derivedStatement (base derived : Label) (rest : List Label)
    (known : ∀ label ∈ derived :: rest, label.Known globals) :
    (derivedStatement base derived rest).run globals (frame out pointer dynamic target) =
      some (.onward (frame (rungValue out pointer dynamic (base, derived :: rest)) pointer dynamic
        target)) := by
  have asked : (Expr.name "in_type_tag").value globals (frame out pointer dynamic target) =
      some (.label dynamic) := rfl
  have assigned (derived : Label) :
      (Statement.assign "out_p" (castTo base derived)).run globals
          (frame out pointer dynamic target) =
        some (.onward (frame (Cast.upcast.value derived base pointer) pointer dynamic target)) :=
    rfl
  induction rest generalizing derived with
  | nil =>
      rw [derivedStatement, Statement.run_branch asked (known derived List.mem_cons_self).value,
        assigned]
      by_cases same : derived.tag = dynamic
      · simp [rungValue, same]
      · simp [rungValue, same, Ne.symm same]
  | cons next rest ih =>
      have later := ih next fun label member => known label (List.mem_cons_of_mem derived member)
      rw [derivedStatement, Statement.run_choice asked (known derived List.mem_cons_self).value,
        assigned, later]
      by_cases same : derived.tag = dynamic
      · simp [rungValue, same]
      · simp [rungValue, same, Ne.symm same]

theorem run_rungBody (base : Label) (derived : List Label)
    (known : ∀ label ∈ derived, label.Known globals) :
    (Statement.block (rungBody base derived)).run globals (frame out pointer dynamic target) =
      some (.onward (frame (rungValue out pointer dynamic (base, derived)) pointer dynamic
        target)) := by
  refine Statement.run_block ?_ rfl
  cases derived with
  | nil => rfl
  | cons derived rest =>
      rw [rungBody, Body.run, run_derivedStatement base derived rest known]
      rfl

/-- The labels of a rung are known. -/
def Rung.Known (globals : String → Option Value) (rung : Rung) : Prop :=
  rung.1.Known globals ∧ ∀ label ∈ rung.2, label.Known globals

/-- The outer ladder takes the first base with the tag that is asked for. -/
theorem run_ladderStatement (rung : Rung) (rest : List Rung)
    (known : ∀ other ∈ rung :: rest, other.Known globals) :
    (ladderStatement rung rest).run globals (frame out pointer dynamic target) =
      some (.onward (frame (ladderValue out pointer dynamic target (rung :: rest)) pointer dynamic
        target)) := by
  have asked : (Expr.name "out_type_tag").value globals (frame out pointer dynamic target) =
      some (.label target) := rfl
  induction rest generalizing rung with
  | nil =>
      obtain ⟨baseKnown, derivedKnown⟩ := known rung List.mem_cons_self
      rw [ladderStatement, Statement.run_branch asked baseKnown.value,
        run_rungBody rung.1 rung.2 derivedKnown]
      by_cases same : rung.1.tag = target
      · simp [ladderValue, same]
      · simp [ladderValue, same, Ne.symm same]
  | cons next rest ih =>
      obtain ⟨baseKnown, derivedKnown⟩ := known rung List.mem_cons_self
      have later := ih next fun other member => known other (List.mem_cons_of_mem rung member)
      rw [ladderStatement, Statement.run_choice asked baseKnown.value,
        run_rungBody rung.1 rung.2 derivedKnown, later]
      by_cases same : rung.1.tag = target
      · simp [ladderValue, same]
      · simp [ladderValue, same, Ne.symm same]

theorem run_ladderBody {ladder : List Rung} (known : ∀ rung ∈ ladder, rung.Known globals) :
    (ladderBody ladder).run globals (frame out pointer dynamic target) =
      some (.returned (ladderValue out pointer dynamic target ladder)) := by
  cases ladder with
  | nil => rfl
  | cons rung rest =>
      rw [ladderBody, Body.run, run_ladderStatement rung rest known]
      rfl

/-- A call of the upcast function for two tags. -/
theorem call_function {ladder : List Rung} (known : ∀ rung ∈ ladder, rung.Known globals)
    (null : globals "NULL" = some .null) :
    (function ladder).call globals [pointer, .label dynamic, .label target] =
      some (if dynamic = target then pointer
        else ladderValue .null pointer dynamic target ladder) := by
  have asked : (Expr.name "out_type_tag").value globals (arguments pointer dynamic target) =
      some (.label target) := rfl
  have given : (Expr.name "in_type_tag").value globals (arguments pointer dynamic target) =
      some (.label dynamic) := rfl
  have kept : (Statement.give (.name "in_p")).run globals (arguments pointer dynamic target) =
      some (.returned pointer) := rfl
  have declared : (Statement.declare "void" "out_p" (.name "NULL")).run globals
      (arguments pointer dynamic target) =
        some (.onward (frame .null pointer dynamic target)) := by
    have value : (Expr.name "NULL").value globals (arguments pointer dynamic target) =
        some .null := null
    rw [Statement.run, value]
    rfl
  apply Function.call_of_run rfl
  change (functionBody ladder).run globals (arguments pointer dynamic target) = _
  rw [functionBody, Body.run, Statement.run_branch asked given, kept]
  by_cases same : dynamic = target
  · simp [same]
  · simp [same, Ne.symm same, Body.run, declared, run_ladderBody known]

end Calls

/-! ## Registered types -/

/-- The constants that the function refers to: `NULL` and the tags of the
registered types. -/
def globals (registry : Registry) (name : String) : Option Value :=
  if name = "NULL" then some .null
  else if name ∈ registry.converters.map (·.tag) then some (.label name)
  else none

section Registered

variable {registry : Registry}

theorem known_of_mem (readable : ∀ conv ∈ registry.converters, conv.label.Readable)
    {conv : Converter} (member : conv ∈ registry.converters) :
    conv.label.Known (globals registry) := by
  refine ⟨readable conv member, ?_⟩
  have notNull : conv.label.tag ≠ "NULL" := (readable conv member).tag_ne (by decide)
  have listed : conv.tag ∈ registry.converters.map (·.tag) := List.mem_map_of_mem member
  rw [globals, if_neg notNull]
  exact if_pos listed

theorem known_labelOf (readable : ∀ conv ∈ registry.converters, conv.label.Readable)
    {key : TypeKey} (registered : registry.contains key = true) :
    (registry.labelOf key).Known (globals registry) := by
  obtain ⟨conv, found⟩ := Registry.contains_iff_exists_find?.mp registered
  rw [Registry.labelOf_of_find? found]
  exact known_of_mem readable (Registry.find?_eq_some_iff.mp found).1

/-- Every label in the ladder of a cast table is known. -/
theorem known_ladder (readable : ∀ conv ∈ registry.converters, conv.label.Readable)
    {table : CastTable} (built : CastTable.build registry = .ok table) :
    ∀ rung ∈ ladder registry table, rung.Known (globals registry) := by
  intro rung member
  obtain ⟨entry, listed, rfl⟩ := List.mem_map.mp member
  obtain ⟨baseKnown, derivedKnown⟩ := known_of_mem_bases built entry listed
  refine ⟨known_labelOf readable baseKnown, ?_⟩
  intro label inside
  obtain ⟨key, below, rfl⟩ := List.mem_map.mp inside
  exact known_labelOf readable (derivedKnown key below)

variable (distinct : (registry.converters.map (·.tag)).Nodup) {conv : Converter}
  (member : conv ∈ registry.converters)

include distinct member

theorem tag_labelOf_eq_iff {key : TypeKey} (registered : registry.contains key = true) :
    (registry.labelOf key).tag = conv.tag ↔ key = conv.key := by
  obtain ⟨found, isFound⟩ := Registry.contains_iff_exists_find?.mp registered
  obtain ⟨foundMember, rfl⟩ := Registry.find?_eq_some_iff.mp isFound
  rw [Registry.labelOf_of_find? isFound]
  constructor
  · intro sameTag
    rw [List.inj_on_of_nodup_map distinct foundMember member sameTag]
  · intro sameKey
    rw [List.inj_on_of_nodup_map registry.nodup_keys foundMember member sameKey]
    rfl

/-- Among labels of registered types the tag finds what the key finds. -/
theorem find?_labels (keys : List TypeKey)
    (registered : ∀ key ∈ keys, registry.contains key = true) :
    (keys.map registry.labelOf).find? (·.tag = conv.tag) =
      if conv.key ∈ keys then some conv.label else none := by
  induction keys with
  | nil => rfl
  | cons key rest ih =>
      have here := tag_labelOf_eq_iff distinct member (registered key List.mem_cons_self)
      have later := ih fun other inside => registered other (List.mem_cons_of_mem key inside)
      by_cases same : key = conv.key
      · have label := Registry.labelOf_of_find? (Registry.find?_eq_some_iff.mpr ⟨member, rfl⟩)
        simp [same, label, Converter.label]
      · simp [here, same, Ne.symm same, later]

theorem find?_rungs (entries : List (TypeKey × List TypeKey))
    (registered : ∀ entry ∈ entries, registry.contains entry.1 = true) :
    (entries.map fun entry =>
        (registry.labelOf entry.1, entry.2.map registry.labelOf)).find? (·.1.tag = conv.tag) =
      (entries.find? (·.1 = conv.key)).map fun entry =>
        (registry.labelOf entry.1, entry.2.map registry.labelOf) := by
  induction entries with
  | nil => rfl
  | cons entry rest ih =>
      have here : decide ((registry.labelOf entry.1).tag = conv.tag) =
          decide (entry.1 = conv.key) :=
        decide_eq_decide.mpr
          (tag_labelOf_eq_iff distinct member (registered entry List.mem_cons_self))
      have later := ih fun other inside => registered other (List.mem_cons_of_mem entry inside)
      rw [List.map_cons, List.find?_cons, List.find?_cons, here]
      cases decide (entry.1 = conv.key) with
      | true => rfl
      | false => exact later

omit member

/-- The ladder of the table takes a pointer where the table says. -/
theorem ladderValue_eq {table : CastTable} (built : CastTable.build registry = .ok table)
    {dynamic target : Converter}
    (dynamicMember : dynamic ∈ registry.converters) (targetMember : target ∈ registry.converters)
    (pointer : Value) :
    ladderValue .null pointer dynamic.tag target.tag (ladder registry table) =
      if dynamic.key ∈ table.derivedOf target.key then
        Cast.upcast.value dynamic.label target.label pointer
      else .null := by
  have registered := known_of_mem_bases built
  rw [ladderValue, ladder, CastTable.derivedOf,
    find?_rungs distinct targetMember _ fun entry listed => (registered entry listed).1]
  cases isFound : table.bases.find? (·.1 = target.key) with
  | none => simp
  | some entry =>
      have sameKey : entry.1 = target.key := by simpa using List.find?_some isFound
      have below := (registered entry (List.mem_of_find?_eq_some isFound)).2
      have label := Registry.labelOf_of_find?
        (Registry.find?_eq_some_iff.mpr ⟨targetMember, sameKey.symm⟩)
      rw [Option.map_some, Option.elim_some, rungValue, find?_labels distinct dynamicMember _ below,
        label]
      split <;> rfl

/-- For two registered types the function returns what the table says. -/
theorem call_function_eq (readable : ∀ conv ∈ registry.converters, conv.label.Readable)
    {table : CastTable} (built : CastTable.build registry = .ok table)
    {dynamic target : Converter}
    (dynamicMember : dynamic ∈ registry.converters) (targetMember : target ∈ registry.converters)
    (pointer : Value) :
    (function (ladder registry table)).call (globals registry)
        [pointer, .label dynamic.tag, .label target.tag] =
      some ((table.resolve dynamic.key target.key).value dynamic.label target.label pointer) := by
  have sameType : dynamic.tag = target.tag ↔ dynamic.key = target.key := by
    constructor
    · intro sameTag
      rw [List.inj_on_of_nodup_map distinct dynamicMember targetMember sameTag]
    · intro sameKey
      rw [List.inj_on_of_nodup_map registry.nodup_keys dynamicMember targetMember sameKey]
  rw [call_function (known_ladder readable built) rfl,
    ladderValue_eq distinct built dynamicMember targetMember, CastTable.resolve]
  by_cases same : dynamic.key = target.key
  · simp [sameType, same, Cast.value]
  · by_cases below : dynamic.key ∈ table.derivedOf target.key
    · simp [sameType, same, below]
    · simp [sameType, same, below, Cast.value]

end Registered

end Upcast

/-- Types that have been parsed are readable whatever is bound on them. -/
theorem Registry.TakesAll.readable {registry : Registry} {entries : List Entry}
    (taken : Registry.TakesAll {} entries registry)
    (parsed : ∀ conv ∈ entries.flatMap Entry.types, conv.Parsed) :
    ∀ conv ∈ registry.converters, conv.label.Readable := by
  intro conv member
  rw [taken.converters_eq_map] at member
  obtain ⟨given, brought, rfl⟩ := List.mem_map.mp member
  obtain ⟨text, isParsed⟩ := parsed given brought
  rw [← Entry.type_amendAll entries given] at isParsed
  exact Upcast.readable_of_parse isParsed

/-- A registry that calls lead to, if they bring converters as they are made. -/
def Registry.Reachable (registry : Registry) : Prop :=
  ∃ entries, Registry.TakesAll {} entries registry ∧
    ∀ conv ∈ entries.flatMap Entry.types, conv.Made

namespace Registry.Reachable

variable {registry : Registry}

theorem sound (reachable : registry.Reachable) : registry.Sound := by
  obtain ⟨entries, taken, made⟩ := reachable
  exact taken.sound (fun conv brought => (made conv brought).blank.bases) Sound.empty

theorem readable (reachable : registry.Reachable) :
    ∀ conv ∈ registry.converters, conv.label.Readable := by
  obtain ⟨entries, taken, made⟩ := reachable
  exact taken.readable fun conv brought => (made conv brought).parsed

end Registry.Reachable

theorem Session.reachable_run {session : Session} {decls : List Declaration}
    (brings : Brings session.target decls) (empty : session.registry = {}) :
    (session.run decls).registry.Reachable := by
  refine ⟨session.recorded decls, ?_, brings.made⟩
  rw [← empty]
  exact (session.books_run decls).registry

namespace Upcast

/-- The upcast function of a reachable registry is generated.  Whatever the writer,
it comes back to its level.  With white space for indentation the text closes its
braces and is read as a function, and as long as no two types share a tag, a call
for two registered types casts a pointer as the table says. -/
theorem emitted_text_casts_as_resolve {registry : Registry} (reachable : registry.Reachable) :
    ∃ table code, CastTable.build registry = .ok table ∧
      emit registry table = ⟨code, [], .ok ()⟩ ∧
      ∀ writer : Writer, ∃ text, writer.write code = writer.append text ∧
        ((∀ c ∈ writer.unit.toList, c.isWhitespace = true) →
          braceDepth 0 (tokens text.toList) = some 0 ∧
          ∃ function, Function.read text = some function ∧
            ((registry.converters.map (·.tag)).Nodup →
              ∀ dynamic ∈ registry.converters, ∀ target ∈ registry.converters, ∀ pointer,
                function.call (globals registry)
                    [pointer, .label dynamic.tag, .label target.tag] =
                  some (match table.resolve dynamic.key target.key with
                    | .identity => pointer
                    | .upcast => .cast (pointerTokens target.canonical)
                        (.cast (pointerTokens dynamic.canonical) pointer)
                    | .null => .null))) := by
  have built := reachable.sound.build_eq_ok
  have known := known_ladder reachable.readable built
  have readable : ∀ rung ∈ ladder registry _, rung.Readable := fun rung member =>
    ⟨(known rung member).1.readable, fun label inside => ((known rung member).2 label inside).readable⟩
  have spells := spells_functionCode readable
  refine ⟨_, _, built, emit_eq_of_build built, ?_⟩
  intro writer
  refine ⟨_, spells.write_eq writer, ?_⟩
  intro blank
  have found := spells.tokens_eq blank writer.level
  refine ⟨?_, _, read_eq readable found, ?_⟩
  · rw [found]
    exact braceDepth_eq readable
  · intro distinct dynamic dynamicMember target targetMember pointer
    rw [call_function_eq distinct reachable.readable built dynamicMember targetMember]
    cases CastTable.resolve _ dynamic.key target.key <;> rfl

/-- A pointer to a type two links away is cast over the link between, and not
back. -/
theorem emitted_text_casts_over_two_links :
    let decls : List Declaration := [.beginClass "Shape", .beginClass "Round",
      .beginClass "Disc", .addBase "Disc" "Round", .addBase "Round" "Shape"]
    let registry := ((Session.start "demo" Dispatch.plainTarget {}).run decls).registry
    registry.Reachable ∧ (registry.converters.map (·.tag)).Nodup ∧
      ∃ table code text function, CastTable.build registry = .ok table ∧
        emit registry table = ⟨code, [], .ok ()⟩ ∧
        Writer.write {} code = Writer.append {} text ∧
        Function.read text = some function ∧
        function.call (globals registry)
            [.address 7, .label "__Disc_type_tag", .label "__Shape_type_tag"] =
          some (.cast [.word "Shape", .mark '*'] (.cast [.word "Disc", .mark '*'] (.address 7))) ∧
        function.call (globals registry)
            [.address 7, .label "__Shape_type_tag", .label "__Disc_type_tag"] =
          some .null := by
  intro decls registry
  have brings : Session.Brings Dispatch.plainTarget decls :=
    Session.brings_plainTarget (by simp [decls])
  have reachable : registry.Reachable := Session.reachable_run brings rfl
  have distinct : (registry.converters.map (·.tag)).Nodup := by decide +kernel
  have types : registry.converters.map (fun conv => (conv.key, conv.tag, conv.canonical)) =
      [(TypeKey.ofSpelling "Shape", "__Shape_type_tag", "Shape"),
        (TypeKey.ofSpelling "Round", "__Round_type_tag", "Round"),
        (TypeKey.ofSpelling "Disc", "__Disc_type_tag", "Disc")] := by decide +kernel
  have registered {key : TypeKey} {tag canonical : String}
      (listed : (key, tag, canonical) ∈
        registry.converters.map fun conv => (conv.key, conv.tag, conv.canonical)) :
      ∃ conv ∈ registry.converters, conv.key = key ∧ conv.tag = tag ∧ conv.canonical = canonical := by
    simpa using listed
  obtain ⟨shape, shapeMember, shapeKey, shapeTag, shapeName⟩ :=
    registered (types ▸ List.mem_cons_self)
  obtain ⟨disc, discMember, discKey, discTag, discName⟩ :=
    registered (types ▸ List.mem_cons_of_mem _ (List.mem_cons_of_mem _ List.mem_cons_self))
  obtain ⟨table, code, built, emitted, writes⟩ := emitted_text_casts_as_resolve reachable
  obtain ⟨text, written, returns⟩ := writes {}
  obtain ⟨-, function, isRead, casts⟩ := returns (by simp)
  have up : table.resolve disc.key shape.key = .upcast := by
    rw [CastTable.resolve_eq_ite built, discKey, shapeKey]
    decide +kernel
  have down : table.resolve shape.key disc.key = .null := by
    rw [CastTable.resolve_eq_ite built, discKey, shapeKey]
    decide +kernel
  have upward := casts distinct disc discMember shape shapeMember (.address 7)
  have downward := casts distinct shape shapeMember disc discMember (.address 7)
  rw [up, discTag, shapeTag, discName, shapeName] at upward
  rw [down, discTag, shapeTag] at downward
  exact ⟨reachable, distinct, table, code, text, function, built, emitted, written, isRead, upward,
    downward⟩

end Upcast

end Bindery
