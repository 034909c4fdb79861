import Bindery.Proofs.Upcast.Text

/-!
# The tags that the upcast function mentions

A tag is mentioned where something is compared with it.  Step by step, what the
code of the upcast function compares with is one of the function's parameters or
a tag of the ladder, and every tag of the ladder has its turn.
-/

namespace Bindery

open Text Native

namespace Native

/-- The words that stand behind a comparison. -/
def compared : List Token → List String
  | [] => []
  | .equals :: .word name :: rest => name :: compared rest
  | _ :: rest => compared rest

theorem compared_eq_nil {found : List Token} (without : .equals ∉ found) :
    compared found = [] := by
  fun_induction compared found with
  | case1 => rfl
  | case2 name rest _ => exact absurd List.mem_cons_self without
  | case3 token rest _ ih => exact ih fun member => without (List.mem_cons_of_mem token member)

/-- Where a line ends, the token that it ends with is complete. -/
theorem Reads.tokens_of_newline {text : List Char} {found : List Token}
    (reads : Reads (text ++ ['\n']) found) : tokens text = found := by
  have ends (scan : Scan) : (scan.run ['\n']).1 = scan.pending := by
    cases scan <;> rfl
  have whole := congrArg Prod.fst reads
  rw [Scan.run_append] at whole
  rw [tokens, ← ends]
  exact whole

namespace Scan

theorem equals_not_mem_start (c : Char) : .equals ∉ (start c).1 := by
  unfold start
  split_ifs <;> simp

namespace IsCalm

variable {scan : Scan}

theorem equals_not_mem_pending (calm : scan.IsCalm) : .equals ∉ scan.pending := by
  cases scan with
  | between => exact List.not_mem_nil
  | word seen => simp [pending]
  | _ => cases calm

theorem equals_not_mem_step (calm : scan.IsCalm) (c : Char) : .equals ∉ (scan.step c).1 := by
  cases scan with
  | between => exact equals_not_mem_start c
  | word seen =>
      by_cases ident : isIdentPart c = true <;>
        simp [Scan.step, ident, restart, pending, equals_not_mem_start]
  | _ => cases calm

theorem equals_not_mem_run (calm : scan.IsCalm) {chars : List Char}
    (spelled : ∀ c ∈ chars, Grammar.isPlain c = true ∨ c = ':') :
    .equals ∉ (scan.run chars).1 := by
  induction chars generalizing scan with
  | nil => exact List.not_mem_nil
  | cons c rest ih =>
      have later := ih (calm.step (spelled c List.mem_cons_self))
        fun d member => spelled d (List.mem_cons_of_mem c member)
      rw [Scan.run, List.mem_append]
      exact not_or.mpr ⟨calm.equals_not_mem_step c, later⟩

end IsCalm

end Scan

/-- The spelling of a type has no comparison in it. -/
theorem equals_not_mem_pointerTokens {spelling : String}
    (spelled : Grammar.Spelling spelling.toList) : .equals ∉ pointerTokens spelling := by
  have opened : Scan.between.IsCalm := trivial
  have plain : ∀ c ∈ spelling.toList, Grammar.isPlain c = true ∨ c = ':' :=
    fun c member => spelled.isPlain_or_eq member
  have inside := opened.equals_not_mem_run plain
  have pending := (opened.run plain).equals_not_mem_pending
  simp [pointerTokens, tokens, inside, pending]

end Native

/-- What stands in a layout step. -/
def Layout.text : Layout → String
  | .line text => text
  | .block text => text
  | .raw text => text
  | .blank => ""
  | .indent => ""
  | .dedent => ""

/-- The words that code compares with. -/
def Code.comparisons (code : Code) : List String :=
  code.flatMap fun step => compared (tokens step.text.toList)

namespace Code

theorem comparisons_append (first second : Code) :
    comparisons (first ++ second) = comparisons first ++ comparisons second :=
  List.flatMap_append

theorem comparisons_indent_cons (rest : Code) :
    comparisons (.indent :: rest) = comparisons rest := rfl

theorem comparisons_dedent_cons (rest : Code) :
    comparisons (.dedent :: rest) = comparisons rest := rfl

/-- What a line compares with follows from the tokens that it spells. -/
theorem Spells.comparisons_cons {text : String} {found : List Token}
    (spells : Spells [.line text] found) (rest : Code) :
    comparisons (.line text :: rest) = compared found ++ comparisons rest := by
  obtain ⟨printed, prints, reads⟩ := spells "" 0 nofun
  have line : printed = text ++ "\n" := by
    have whole := congrArg Writer.text (prints "")
    simpa [Writer.put, Writer.line, Writer.indentation, Writer.append, String.join] using whole.symm
  rw [line, String.toList_append] at reads
  rw [comparisons, List.flatMap_cons, ← reads.tokens_of_newline]
  rfl

end Code

namespace Upcast

/-- The tags that the code of the upcast function mentions: what it compares with, but
for the parameters of the function. -/
def mentions (code : Code) : List String :=
  code.comparisons.filter (· ∉ (function []).params)

/-- The labels of a rung. -/
def Rung.labels (rung : Rung) : List Label :=
  rung.1 :: rung.2

theorem Rung.readable_iff {rung : Rung} :
    rung.Readable ↔ ∀ label ∈ rung.labels, label.Readable :=
  List.forall_mem_cons.symm

section Ladder

variable {base derived : Label}

theorem compared_assign (baseReadable : base.Readable) (derivedReadable : derived.Readable) :
    compared (Statement.assign "out_p" (castTo base derived)).tokens = [] := by
  apply compared_eq_nil
  simp [castTo, Statement.tokens, Expr.tokens, lastTokens,
    equals_not_mem_pointerTokens baseReadable.spelling,
    equals_not_mem_pointerTokens derivedReadable.spelling]

theorem comparisons_derivedCode (baseReadable : base.Readable) (first : Bool)
    {derived : List Label} (readable : ∀ label ∈ derived, label.Readable) :
    Code.comparisons (derivedCode base first derived) = derived.map (·.tag) := by
  induction derived generalizing first with
  | nil => rfl
  | cons label rest ih =>
      have here := readable label List.mem_cons_self
      have later := ih false fun other member => readable other (List.mem_cons_of_mem label member)
      have tested : compared ((if first then [] else [.word "else"]) ++
          tagTokens "in_type_tag" label) = [label.tag] := by
        cases first <;> rfl
      simp only [derivedCode, List.cons_append, List.nil_append]
      rw [(spells_derivedLine here first).comparisons_cons, tested, Code.comparisons_indent_cons,
        (spells_cast baseReadable here).comparisons_cons, compared_assign baseReadable here,
        Code.comparisons_dedent_cons, later]
      rfl

theorem comparisons_baseCode (first : Bool) {ladder : List Rung}
    (readable : ∀ rung ∈ ladder, rung.Readable) :
    Code.comparisons (baseCode first ladder) = (ladder.flatMap Rung.labels).map (·.tag) := by
  induction ladder generalizing first with
  | nil => rfl
  | cons rung rest ih =>
      obtain ⟨base, derived⟩ := rung
      obtain ⟨baseReadable, derivedReadable⟩ := readable (base, derived) List.mem_cons_self
      have later := ih false fun other member => readable other (List.mem_cons_of_mem _ member)
      have tested : compared ((if first then [] else [.mark '\x7d', .word "else"]) ++
          (tagTokens "out_type_tag" base ++ [.mark '\x7b'])) = [base.tag] := by
        cases first <;> rfl
      simp only [baseCode, List.cons_append, List.nil_append]
      rw [(spells_rungLine baseReadable first).comparisons_cons, tested,
        Code.comparisons_indent_cons, Code.comparisons_append,
        comparisons_derivedCode baseReadable true derivedReadable, Code.comparisons_dedent_cons,
        later, List.flatMap_cons, List.map_append]
      rfl

/-- The upcast function mentions the tags of its ladder, in order. -/
theorem mentions_functionCode {ladder : List Rung} (readable : ∀ rung ∈ ladder, rung.Readable) :
    mentions (functionCode ladder) = (ladder.flatMap Rung.labels).map (·.tag) := by
  have opened : Code.comparisons opening = ["in_type_tag"] := by
    have comment : Code.Spells [.line "// type_tag based cast system"] [] := .line rfl
    rw [opening, comment.comparisons_cons, spells_header.comparisons_cons]
    rfl
  have closed : Code.comparisons
      ((if ladder.isEmpty then [] else [.line "\x7d", .blank]) ++ closing) = [] := by
    cases ladder <;> rfl
  have kept : ∀ tag ∈ (ladder.flatMap Rung.labels).map (·.tag), tag ∉ (function []).params := by
    intro tag member
    obtain ⟨label, isLabel, rfl⟩ := List.mem_map.mp member
    obtain ⟨rung, isRung, inside⟩ := List.mem_flatMap.mp isLabel
    have labelReadable := Rung.readable_iff.mp (readable rung isRung) label inside
    simp only [function, List.mem_cons, List.not_mem_nil, or_false, not_or]
    exact ⟨labelReadable.tag_ne (by decide), labelReadable.tag_ne (by decide),
      labelReadable.tag_ne (by decide)⟩
  rw [mentions, functionCode, Code.comparisons_append, Code.comparisons_append, opened, closed,
    comparisons_baseCode true readable, List.append_nil, List.filter_append,
    List.filter_eq_self.mpr fun tag member => decide_eq_true (kept tag member)]
  rfl

end Ladder

variable {registry : Registry} {table : CastTable}

/-- Every label of the ladder is that of a registered type. -/
theorem exists_converter_of_mem_labels (built : CastTable.build registry = .ok table) {rung : Rung}
    (isRung : rung ∈ ladder registry table) {label : Label} (member : label ∈ rung.labels) :
    ∃ conv ∈ registry.converters, conv.label = label := by
  obtain ⟨entry, isEntry, rfl⟩ := List.mem_map.mp isRung
  obtain ⟨baseKnown, derivedKnown⟩ := known_of_mem_bases built entry isEntry
  have labelled {key : TypeKey} (known : registry.contains key = true) :
      ∃ conv ∈ registry.converters, conv.label = registry.labelOf key := by
    obtain ⟨conv, found⟩ := Registry.contains_iff_exists_find?.mp known
    exact ⟨conv, (Registry.find?_eq_some_iff.mp found).1, (Registry.labelOf_of_find? found).symm⟩
  rcases List.mem_cons.mp member with rfl | isDerived
  · exact labelled baseKnown
  · obtain ⟨key, isKey, rfl⟩ := List.mem_map.mp isDerived
    exact labelled (derivedKnown key isKey)

/-- The upcast function mentions the tags of the bases, each with those of the types that
derive from it behind. -/
theorem mentions_emit (readable : ∀ conv ∈ registry.converters, conv.label.Readable)
    (built : CastTable.build registry = .ok table) :
    mentions (emit registry table).code =
      ((ladder registry table).flatMap Rung.labels).map (·.tag) := by
  rw [emit_eq_of_build built]
  apply mentions_functionCode
  intro rung isRung
  rw [Rung.readable_iff]
  intro label isLabel
  obtain ⟨conv, isConverter, rfl⟩ := exists_converter_of_mem_labels built isRung isLabel
  exact readable conv isConverter

/-- Every tag that the upcast function mentions is that of a registered type. -/
theorem exists_converter_of_mem_mentions
    (readable : ∀ conv ∈ registry.converters, conv.label.Readable)
    (built : CastTable.build registry = .ok table) {tag : String}
    (member : tag ∈ mentions (emit registry table).code) :
    ∃ conv ∈ registry.converters, conv.tag = tag := by
  rw [mentions_emit readable built] at member
  obtain ⟨label, isLabel, rfl⟩ := List.mem_map.mp member
  obtain ⟨rung, isRung, inside⟩ := List.mem_flatMap.mp isLabel
  obtain ⟨conv, isConverter, rfl⟩ := exists_converter_of_mem_labels built isRung inside
  exact ⟨conv, isConverter, rfl⟩

end Upcast

end Bindery
