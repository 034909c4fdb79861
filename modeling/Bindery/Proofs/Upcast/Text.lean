import Bindery.Proofs.Code.Rendering
import Bindery.Proofs.Native.Function
import Bindery.Proofs.Upcast.Emission

/-!
# The upcast function as native code

Laid out with white space for indentation, the code of the upcast function is the
text of a native function: two nested ladders of comparisons, the outer one in
braces and the inner one without.
-/

namespace Bindery

open Text Native

/-- Laid out at any level, with white space for indentation, the code comes back to
its level and its text has the tokens. -/
def Code.Spells (code : Code) (found : List Token) : Prop :=
  ∀ (unit : String) (level : Nat), (∀ c ∈ unit.toList, c.isWhitespace = true) →
    ∃ text, code.Prints unit level text ∧ Reads text.toList found

namespace Code.Spells

variable {code others : Code} {found more : List Token}

theorem nil : Spells [] [] := by
  intro unit level _
  exact ⟨"", fun before => by simp, Reads.nil⟩

theorem append (first : code.Spells found) (second : others.Spells more) :
    Spells (code ++ others) (found ++ more) := by
  intro unit level blank
  obtain ⟨text, prints, reads⟩ := first unit level blank
  obtain ⟨text', prints', reads'⟩ := second unit level blank
  refine ⟨text ++ text', prints.append prints', ?_⟩
  rw [String.toList_append]
  exact reads.append reads'

theorem nested (inner : code.Spells found) : Spells (.indent :: code ++ [.dedent]) found := by
  intro unit level blank
  obtain ⟨text, prints, reads⟩ := inner unit (level + 1) blank
  exact ⟨text, prints.nested, reads⟩

theorem blank : Spells [.blank] [] := by
  intro unit level _
  exact ⟨"\n", fun before => rfl, rfl⟩

theorem isWhitespace_indentation {unit : String} (blank : ∀ c ∈ unit.toList, c.isWhitespace = true)
    (level : Nat) :
    ∀ c ∈ (String.join (List.replicate level unit)).toList, c.isWhitespace = true := by
  intro c member
  rw [String.toList_join, List.mem_flatMap] at member
  obtain ⟨copy, isCopy, inside⟩ := member
  rw [List.eq_of_mem_replicate isCopy] at inside
  exact blank c inside

/-- A line spells what stands in it. -/
theorem line {text : String} (reads : Reads (text.toList ++ ['\n']) found) :
    Spells [.line text] found := by
  intro unit level blank
  refine ⟨lineAt unit level text, .line text, ?_⟩
  have indentation := Reads.blanks (isWhitespace_indentation blank level)
  have whole := indentation.append reads
  simpa [lineAt] using whole

/-- Code that spells anything comes back to its level, whatever the indentation. -/
theorem write_eq (spells : code.Spells found) (writer : Writer) :
    writer.write code = writer.append (code.textAt writer.unit writer.level) := by
  obtain ⟨text, prints, -⟩ := spells "" writer.level nofun
  have returns : code.levelAfter writer.level = writer.level := by
    have level := (Writer.unit_level_write ⟨"", writer.level, ""⟩ code).2
    rw [prints] at level
    exact level.symm
  exact Code.Prints.of_levelAfter returns writer.text

/-- What the code prints has the tokens. -/
theorem tokens_eq (spells : code.Spells found) {unit : String}
    (blank : ∀ c ∈ unit.toList, c.isWhitespace = true) (level : Nat) :
    tokens (code.textAt unit level).toList = found := by
  obtain ⟨text, prints, reads⟩ := spells unit level blank
  have same : code.textAt unit level = text := by
    rw [Code.textAt, prints, String.empty_append]
  rw [same]
  exact reads.tokens_eq

end Code.Spells

namespace Upcast

/-- The tag is a name that starts with an underscore, and the spelling is that of a
type. -/
structure Label.Readable (label : Label) : Prop where
  idents : ∀ c ∈ label.tag.toList, isIdentPart c = true
  starts : label.tag.toList.head? = some '_'
  spelling : Grammar.Spelling label.canonical.toList

theorem readable_of_parse {conv : Converter} {text : String}
    (parsed : NativeType.parse text = .ok conv.type) : conv.label.Readable := by
  have spelling := NativeType.spelling_of_parse parsed
  have tag : conv.label.tag.toList =
      "__".toList ++ (cleanChars conv.type.canonical.toList ++ "_type_tag".toList) := by
    rw [Converter.label, Profile.tag, Profile.clean_eq, cleanName]
    simp
  constructor
  · intro c member
    rw [tag, List.mem_append, List.mem_append] at member
    rcases member with front | clean | back
    · exact List.all_eq_true.mp (show "__".toList.all isIdentPart = true from rfl) c front
    · exact spelling.isIdentPart_cleanChars clean
    · exact List.all_eq_true.mp (show "_type_tag".toList.all isIdentPart = true from rfl) c back
  · rw [tag]
    rfl
  · rw [Converter.label, Profile.canonical_eq]
    exact spelling

namespace Label.Readable

variable {label : Label}

/-- A tag differs from every word that does not start with an underscore. -/
theorem tag_ne (readable : label.Readable) {word : String} (other : word.toList.head? ≠ some '_') :
    label.tag ≠ word := by
  rintro rfl
  exact other readable.starts

theorem proper_name (readable : label.Readable) : (Expr.name label.tag).Proper := by
  intro keyword
  simp only [keywords, List.mem_cons, List.not_mem_nil, or_false] at keyword
  rcases keyword with same | same | same
  · exact readable.tag_ne (by decide) same
  · exact readable.tag_ne (by decide) same
  · exact readable.tag_ne (by decide) same

/-- A line with the tag in it spells what stands in front of the tag, the tag, and
what stands behind it. -/
theorem spells_line (readable : label.Readable) {front back : String} {next : Char}
    {rest : List Char} {found more : List Token} (opens : Reads front.toList found)
    (behind : back.toList = next :: rest) (ends : isIdentPart next = false)
    (closes : Reads (back.toList ++ ['\n']) more) :
    Code.Spells [.line (front ++ label.tag ++ back)] (found ++ .word label.tag :: more) := by
  have some : label.tag.toList ≠ [] := by
    intro none
    have starts := readable.starts
    rw [none] at starts
    cases starts
  rw [behind, List.cons_append] at closes
  have word := Reads.word readable.idents some ends closes
  rw [String.ofList_toList] at word
  apply Code.Spells.line
  simpa [behind] using opens.append word

/-- The spelling of a type has no brackets in it. -/
theorem isBracket_of_mem (readable : label.Readable) {token : Token}
    (member : token ∈ tokens label.canonical.toList) : isBracket token = false := by
  by_contra bracket
  rw [Bool.not_eq_false, isBracket, decide_eq_true_eq] at bracket
  have absent {c : Char} (unspelled : ¬(Grammar.isPlain c = true ∨ c = ':')) : token ≠ .mark c := by
    rintro rfl
    exact unspelled (readable.spelling.isPlain_or_eq (mem_of_mark_mem_tokens member))
  simp only [List.mem_cons, List.not_mem_nil, or_false] at bracket
  rcases bracket with same | same | same | same
  · exact absent (by decide) same
  · exact absent (by decide) same
  · exact absent (by decide) same
  · exact absent (by decide) same

/-- The spelling of a type, followed by a star, is a pointer type. -/
theorem proper_cast (readable : label.Readable) {operand : Expr} (proper : operand.Proper) :
    (Expr.cast (pointerTokens label.canonical) operand).Proper := by
  refine ⟨List.getLast?_concat, ?_, proper⟩
  intro token member
  rcases List.mem_append.mp member with inside | star
  · exact readable.isBracket_of_mem inside
  · rw [List.mem_singleton.mp star]
    rfl

end Label.Readable

/-! ## The inner ladders -/

/-- A pointer to the derived type as a pointer to the base. -/
def castTo (base derived : Label) : Expr :=
  .cast (pointerTokens base.canonical)
    (.group (.cast (pointerTokens derived.canonical) (.name "in_p")))

/-- The test of a type's tag. -/
def tagTokens (name : String) (label : Label) : List Token :=
  .word "if" :: comparisonTokens (.name name) (.name label.tag)

/-- The statement for one type that derives from a base, and those for others
behind it. -/
def derivedStatement (base : Label) : (derived : Label) → List Label → Statement
  | derived, [] =>
      .branch (.name "in_type_tag") (.name derived.tag) (.assign "out_p" (castTo base derived))
  | derived, next :: rest =>
      .choice (.name "in_type_tag") (.name derived.tag) (.assign "out_p" (castTo base derived))
        (derivedStatement base next rest)

/-- The statements for the types that derive from a base. -/
def rungBody (base : Label) : List Label → Body
  | [] => .done
  | derived :: rest => .next (derivedStatement base derived rest) .done

section Inner

variable {base derived : Label}

theorem proper_assign (baseReadable : base.Readable) (derivedReadable : derived.Readable) :
    (Statement.assign "out_p" (castTo base derived)).Proper := by
  have inner : "in_p" ∉ keywords := by decide
  exact ⟨by decide, baseReadable.proper_cast (derivedReadable.proper_cast inner)⟩

theorem proper_derivedStatement (baseReadable : base.Readable) (derived : Label)
    (rest : List Label) (readable : ∀ label ∈ derived :: rest, label.Readable) :
    (derivedStatement base derived rest).Proper := by
  have asked : "in_type_tag" ∉ keywords := by decide
  induction rest generalizing derived with
  | nil =>
      have derivedReadable := readable derived List.mem_cons_self
      exact ⟨asked, derivedReadable.proper_name, proper_assign baseReadable derivedReadable⟩
  | cons next rest ih =>
      have derivedReadable := readable derived List.mem_cons_self
      have later := ih next fun label member => readable label (List.mem_cons_of_mem derived member)
      exact ⟨asked, derivedReadable.proper_name, proper_assign baseReadable derivedReadable, rfl,
        later⟩

theorem proper_rungBody (baseReadable : base.Readable) {derived : List Label}
    (readable : ∀ label ∈ derived, label.Readable) : (rungBody base derived).Proper := by
  cases derived with
  | nil => trivial
  | cons derived rest => exact ⟨proper_derivedStatement baseReadable derived rest readable, trivial⟩

theorem spells_cast (baseReadable : base.Readable) (derivedReadable : derived.Readable) :
    Code.Spells
      [.line ("out_p = (" ++ base.canonical ++ " *)((" ++ derived.canonical ++ " *)in_p);")]
      (Statement.assign "out_p" (castTo base derived)).tokens := by
  apply Code.Spells.line
  have front : Reads "out_p = (".toList [.word "out_p", .mark '=', .mark '('] := by rfl
  have middle : Reads ")((".toList [.mark ')', .mark '(', .mark '('] := by rfl
  have back : Reads ")in_p);\n".toList [.mark ')', .word "in_p", .mark ')', .mark ';'] := by rfl
  have whole := front.append ((reads_pointer baseReadable.spelling).append
    (middle.append ((reads_pointer derivedReadable.spelling).append back)))
  simpa [castTo, Statement.tokens, Expr.tokens, lastTokens] using whole

/-- The line that tests for one type. -/
theorem spells_derivedLine (readable : derived.Readable) (first : Bool) :
    Code.Spells
      [.line ((if first then "if" else "else if") ++ " (in_type_tag == " ++ derived.tag ++ ")")]
      ((if first then [] else [.word "else"]) ++ tagTokens "in_type_tag" derived) := by
  have closes : Reads (")".toList ++ ['\n']) [.mark ')'] := by rfl
  cases first with
  | false =>
      have opens : Reads "else if (in_type_tag == ".toList
          [.word "else", .word "if", .mark '(', .word "in_type_tag", .equals] := by rfl
      exact readable.spells_line opens rfl rfl closes
  | true =>
      have opens : Reads "if (in_type_tag == ".toList
          [.word "if", .mark '(', .word "in_type_tag", .equals] := by rfl
      exact readable.spells_line opens rfl rfl closes

/-- One test with its cast. -/
theorem spells_derivedRung (baseReadable : base.Readable) (derivedReadable : derived.Readable)
    (first : Bool) :
    Code.Spells
      [.line ((if first then "if" else "else if") ++ " (in_type_tag == " ++ derived.tag ++ ")"),
        .indent,
        .line ("out_p = (" ++ base.canonical ++ " *)((" ++ derived.canonical ++ " *)in_p);"),
        .dedent]
      ((if first then [] else [.word "else"]) ++ (tagTokens "in_type_tag" derived ++
        (Statement.assign "out_p" (castTo base derived)).tokens)) := by
  have cast := (spells_cast baseReadable derivedReadable).nested
  rw [← List.append_assoc]
  exact (spells_derivedLine derivedReadable first).append cast

theorem spells_derivedCode (baseReadable : base.Readable) (first : Bool) (derived : Label)
    (rest : List Label) (readable : ∀ label ∈ derived :: rest, label.Readable) :
    Code.Spells (derivedCode base first (derived :: rest))
      ((if first then [] else [.word "else"]) ++ (derivedStatement base derived rest).tokens) := by
  induction rest generalizing first derived with
  | nil => exact spells_derivedRung baseReadable (readable derived List.mem_cons_self) first
  | cons next rest ih =>
      have rung := spells_derivedRung baseReadable (readable derived List.mem_cons_self) first
      have later := ih false next fun label member =>
        readable label (List.mem_cons_of_mem derived member)
      simpa [derivedCode, derivedStatement, Statement.tokens, tagTokens] using rung.append later

/-- The code for one base spells its statements, up to the brace behind them. -/
theorem exists_spells_derivedCode (baseReadable : base.Readable) {derived : List Label}
    (readable : ∀ label ∈ derived, label.Readable) :
    ∃ inner, Code.Spells (derivedCode base true derived) inner ∧
      (rungBody base derived).tokens = inner ++ [.mark '\x7d'] := by
  cases derived with
  | nil => exact ⟨[], .nil, rfl⟩
  | cons derived rest => exact ⟨_, spells_derivedCode baseReadable true derived rest readable, rfl⟩

end Inner

/-! ## The outer ladder -/

/-- The labels of a rung are readable. -/
def Rung.Readable (rung : Rung) : Prop :=
  rung.1.Readable ∧ ∀ label ∈ rung.2, label.Readable

/-- The statement for one base, and those for others behind it. -/
def ladderStatement : Rung → List Rung → Statement
  | (base, derived), [] =>
      .branch (.name "out_type_tag") (.name base.tag) (.block (rungBody base derived))
  | (base, derived), next :: rest =>
      .choice (.name "out_type_tag") (.name base.tag) (.block (rungBody base derived))
        (ladderStatement next rest)

/-- The statements from the ladder on. -/
def ladderBody : List Rung → Body
  | [] => .next (.give (.name "out_p")) .done
  | rung :: rest => .next (ladderStatement rung rest) (.next (.give (.name "out_p")) .done)

/-- The statements of the upcast function. -/
def functionBody (ladder : List Rung) : Body :=
  .next (.branch (.name "out_type_tag") (.name "in_type_tag") (.give (.name "in_p")))
    (.next (.declare "void" "out_p" (.name "NULL")) (ladderBody ladder))

/-- The upcast function. -/
def function (ladder : List Rung) : Function :=
  ⟨"_type_tag_upcast", ["in_p", "in_type_tag", "out_type_tag"], functionBody ladder⟩

theorem proper_ladderStatement (rung : Rung) (rest : List Rung)
    (readable : ∀ other ∈ rung :: rest, other.Readable) : (ladderStatement rung rest).Proper := by
  have asked : "out_type_tag" ∉ keywords := by decide
  induction rest generalizing rung with
  | nil =>
      obtain ⟨baseReadable, derivedReadable⟩ := readable rung List.mem_cons_self
      exact ⟨asked, baseReadable.proper_name, proper_rungBody baseReadable derivedReadable⟩
  | cons next rest ih =>
      obtain ⟨baseReadable, derivedReadable⟩ := readable rung List.mem_cons_self
      have later := ih next fun other member => readable other (List.mem_cons_of_mem rung member)
      exact ⟨asked, baseReadable.proper_name, proper_rungBody baseReadable derivedReadable, rfl,
        later⟩

theorem proper_functionBody {ladder : List Rung} (readable : ∀ rung ∈ ladder, rung.Readable) :
    (functionBody ladder).Proper := by
  have given : (Body.next (.give (.name "out_p")) .done).Proper :=
    ⟨show "out_p" ∉ keywords by decide, trivial⟩
  have laddered : (ladderBody ladder).Proper := by
    cases ladder with
    | nil => exact given
    | cons rung rest => exact ⟨proper_ladderStatement rung rest readable, given⟩
  have tested : (Statement.branch (.name "out_type_tag") (.name "in_type_tag")
      (.give (.name "in_p"))).Proper :=
    ⟨show "out_type_tag" ∉ keywords by decide, show "in_type_tag" ∉ keywords by decide,
      show "in_p" ∉ keywords by decide⟩
  have declared : (Statement.declare "void" "out_p" (.name "NULL")).Proper :=
    ⟨by decide, by decide, show "NULL" ∉ keywords by decide⟩
  exact ⟨tested, declared, laddered⟩

/-- The line that opens the block for one base. -/
theorem spells_rungLine {base : Label} (readable : base.Readable) (first : Bool) :
    Code.Spells [.line (Dispatch.rungLine first ("out_type_tag == " ++ base.tag))]
      ((if first then [] else [.mark '\x7d', .word "else"]) ++
        (tagTokens "out_type_tag" base ++ [.mark '\x7b'])) := by
  have closes : Reads (") \x7b".toList ++ ['\n']) [.mark ')', .mark '\x7b'] := by rfl
  rw [Dispatch.rungLine, ← String.append_assoc]
  cases first with
  | false =>
      have opens : Reads ("\x7d else if (" ++ "out_type_tag == ").toList
          [.mark '\x7d', .word "else", .word "if", .mark '(', .word "out_type_tag", .equals] := by rfl
      exact readable.spells_line opens rfl rfl closes
  | true =>
      have opens : Reads ("if (" ++ "out_type_tag == ").toList
          [.word "if", .mark '(', .word "out_type_tag", .equals] := by rfl
      exact readable.spells_line opens rfl rfl closes

theorem spells_closing : Code.Spells [.line "\x7d"] [.mark '\x7d'] :=
  .line rfl

/-- The brace that closes one block opens the line of the next, so the ladder is
read with the brace behind it. -/
theorem spells_baseCode (first : Bool) (rung : Rung) (rest : List Rung)
    (readable : ∀ other ∈ rung :: rest, other.Readable) :
    Code.Spells (baseCode first (rung :: rest) ++ [.line "\x7d"])
      ((if first then [] else [.mark '\x7d', .word "else"]) ++
        (ladderStatement rung rest).tokens) := by
  induction rest generalizing first rung with
  | nil =>
      obtain ⟨baseReadable, derivedReadable⟩ := readable rung List.mem_cons_self
      obtain ⟨inner, spelled, closed⟩ := exists_spells_derivedCode baseReadable derivedReadable
      have whole := (spells_rungLine baseReadable first).append
        (spelled.nested.append spells_closing)
      simpa [baseCode, ladderStatement, Statement.tokens, tagTokens, closed] using whole
  | cons next rest ih =>
      obtain ⟨baseReadable, derivedReadable⟩ := readable rung List.mem_cons_self
      obtain ⟨inner, spelled, closed⟩ := exists_spells_derivedCode baseReadable derivedReadable
      have later := ih false next fun other member =>
        readable other (List.mem_cons_of_mem rung member)
      have whole := (spells_rungLine baseReadable first).append (spelled.nested.append later)
      simpa [baseCode, ladderStatement, Statement.tokens, tagTokens, closed] using whole

/-- What stands in front of the statements of the upcast function. -/
def headerTokens : List Token :=
  [.word "void", .mark '*', .word "_type_tag_upcast", .mark '(',
    .word "void", .mark '*', .word "in_p", .mark ',',
    .word "const", .word "char", .mark '*', .word "in_type_tag", .mark ',',
    .word "const", .word "char", .mark '*', .word "out_type_tag", .mark ')', .mark '\x7b']

theorem spells_header : Code.Spells [.line (signature ++ " \x7b")] headerTokens := by
  have name : Reads "void *_type_tag_upcast(".toList
      [.word "void", .mark '*', .word "_type_tag_upcast", .mark '('] := by rfl
  have pointer : Reads "void *in_p, ".toList [.word "void", .mark '*', .word "in_p", .mark ','] := by
    rfl
  have inTag : Reads "const char *in_type_tag, ".toList
      [.word "const", .word "char", .mark '*', .word "in_type_tag", .mark ','] := by rfl
  have outTag : Reads "const char *out_type_tag) \x7b\n".toList
      [.word "const", .word "char", .mark '*', .word "out_type_tag", .mark ')', .mark '\x7b'] := by
    rfl
  apply Code.Spells.line
  simpa [signature, headerTokens] using name.append (pointer.append (inTag.append outTag))

/-- The code of the upcast function is its text. -/
theorem spells_functionCode {ladder : List Rung} (readable : ∀ rung ∈ ladder, rung.Readable) :
    Code.Spells (functionCode ladder) (headerTokens ++ (functionBody ladder).tokens) := by
  have comment : Code.Spells [.line "// type_tag based cast system"] [] := .line rfl
  have test : Code.Spells [.line "if (out_type_tag == in_type_tag)"]
      (.word "if" :: comparisonTokens (.name "out_type_tag") (.name "in_type_tag")) := .line rfl
  have giveIn : Code.Spells [.line "return in_p;"] (Statement.give (.name "in_p")).tokens := .line rfl
  have declared : Code.Spells [.line "void *out_p = NULL;"]
      (Statement.declare "void" "out_p" (.name "NULL")).tokens := .line rfl
  have giveOut : Code.Spells [.line "return out_p;"] (Statement.give (.name "out_p")).tokens :=
    .line rfl
  have opened := comment.append spells_header
  have start := test.append (giveIn.nested.append (Code.Spells.blank.append (declared.append .blank)))
  cases ladder with
  | nil =>
      have whole := opened.append ((start.append giveOut).nested.append spells_closing)
      simpa [functionCode, opening, closing, baseCode, functionBody, ladderBody, Body.tokens,
        Statement.tokens] using whole
  | cons rung rest =>
      have ladder := (spells_baseCode true rung rest readable).append .blank
      have whole := opened.append
        ((start.append (ladder.append giveOut)).nested.append spells_closing)
      simpa [functionCode, opening, closing, functionBody, ladderBody, Body.tokens,
        Statement.tokens] using whole

/-- The text of the upcast function is read as the function. -/
theorem read_eq {ladder : List Rung} (readable : ∀ rung ∈ ladder, rung.Readable) {text : String}
    (found : tokens text.toList = headerTokens ++ (functionBody ladder).tokens) :
    Function.read text = some (function ladder) := by
  have body := Body.read_tokens (functionBody ladder) (proper_functionBody readable) le_rfl []
  rw [List.append_nil] at body
  have named : readName (headerTokens ++ (functionBody ladder).tokens) =
      some ("_type_tag_upcast", headerTokens.drop 4 ++ (functionBody ladder).tokens) := rfl
  have listed : readParams (headerTokens.drop 4 ++ (functionBody ladder).tokens) =
      some (["in_p", "in_type_tag", "out_type_tag"],
        .mark '\x7b' :: (functionBody ladder).tokens) := rfl
  simp [Function.read, found, named, listed, expect_cons, body, function]

/-- Every brace of the upcast function is closed. -/
theorem braceDepth_eq {ladder : List Rung} (readable : ∀ rung ∈ ladder, rung.Readable) :
    braceDepth 0 (headerTokens ++ (functionBody ladder).tokens) = some 0 := by
  have body := Body.braceDepth_tokens (functionBody ladder) (proper_functionBody readable) 0 []
  rw [List.append_nil] at body
  have header : braceDepth 0 (headerTokens ++ (functionBody ladder).tokens) =
      braceDepth 1 (functionBody ladder).tokens := by
    simp [headerTokens, braceDepth]
  rw [header, body]
  rfl

end Upcast

end Bindery
