import Bindery.Proofs.NativeType.CleanName

/-!
# Tokens of native code

Generated text is native code to the compiler that reads it: words, marks and
`==`, with white space and comments between them.  A scanner goes through the
text one character at a time.  What it makes of a text that starts and ends
between two tokens does not depend on what stands around it, so such texts can
be scanned piece by piece.
-/

namespace Bindery.Native

open Text

/-- A token of native code. -/
inductive Token where
  /-- A name or a keyword. -/
  | word (text : String)
  /-- The comparison `==`. -/
  | equals
  /-- Any other character. -/
  | mark (char : Char)
deriving DecidableEq, Inhabited

/-- What the scanner is in the middle of. -/
inductive Scan where
  | between
  | word (seen : List Char)
  | equals
  | slash
  | comment
deriving DecidableEq

namespace Scan

/-- The token that is complete if nothing more belongs to it. -/
def pending : Scan → List Token
  | .between => []
  | .word seen => [.word (String.ofList seen)]
  | .equals => [.mark '=']
  | .slash => [.mark '/']
  | .comment => []

/-- Go on with a character that starts something new. -/
def start (c : Char) : List Token × Scan :=
  if c.isWhitespace then ([], .between)
  else if isIdentPart c then ([], .word [c])
  else if c = '=' then ([], .equals)
  else if c = '/' then ([], .slash)
  else ([.mark c], .between)

/-- Go on with a character that does not belong to what the scanner is in the
middle of. -/
def restart (scan : Scan) (c : Char) : List Token × Scan :=
  (scan.pending ++ (start c).1, (start c).2)

/-- Go on with a character. -/
def step (scan : Scan) (c : Char) : List Token × Scan :=
  match scan with
  | .between => start c
  | .word seen => if isIdentPart c then ([], .word (seen ++ [c])) else scan.restart c
  | .equals => if c = '=' then ([.equals], .between) else scan.restart c
  | .slash => if c = '/' then ([], .comment) else scan.restart c
  | .comment => ([], if c = '\n' then .between else .comment)

/-- Go on with characters. -/
def run (scan : Scan) : List Char → List Token × Scan
  | [] => ([], scan)
  | c :: rest => ((scan.step c).1 ++ ((scan.step c).2.run rest).1, ((scan.step c).2.run rest).2)

theorem run_append (scan : Scan) (first second : List Char) :
    scan.run (first ++ second) =
      ((scan.run first).1 ++ ((scan.run first).2.run second).1,
        ((scan.run first).2.run second).2) := by
  induction first generalizing scan with
  | nil => rfl
  | cons c rest ih => simp [run, ih]

/-- The inside of a word. -/
theorem run_word (seen : List Char) {chars : List Char}
    (idents : ∀ c ∈ chars, isIdentPart c = true) :
    run (.word seen) chars = ([], .word (seen ++ chars)) := by
  induction chars generalizing seen with
  | nil => simp [run]
  | cons c rest ih =>
      have ident := idents c List.mem_cons_self
      have later := ih (seen ++ [c]) fun d member => idents d (List.mem_cons_of_mem c member)
      simp [run, step, ident, later]

theorem isWhitespace_of_isIdentPart {c : Char} (ident : isIdentPart c = true) :
    c.isWhitespace = false := by
  by_contra blank
  rw [Bool.not_eq_false] at blank
  simp only [Char.isWhitespace, Bool.or_eq_true, decide_eq_true_eq] at blank
  rcases blank with ((rfl | rfl) | rfl) | rfl <;> cases ident

end Scan

/-- The tokens of a text. -/
def tokens (text : List Char) : List Token :=
  (Scan.between.run text).1 ++ (Scan.between.run text).2.pending

/-- The text starts and ends between two tokens, and these are the tokens in it. -/
def Reads (text : List Char) (tokens : List Token) : Prop :=
  Scan.between.run text = (tokens, .between)

namespace Reads

variable {text : List Char} {found : List Token}

theorem tokens_eq (reads : Reads text found) : tokens text = found := by
  rw [tokens, reads]
  exact List.append_nil _

theorem append {others : List Char} {more : List Token} (first : Reads text found)
    (second : Reads others more) : Reads (text ++ others) (found ++ more) := by
  rw [Reads, Scan.run_append, first, second]

theorem nil : Reads [] [] := rfl

theorem blanks (all : ∀ c ∈ text, c.isWhitespace = true) : Reads text [] := by
  induction text with
  | nil => exact nil
  | cons c rest ih =>
      have later := ih fun d member => all d (List.mem_cons_of_mem c member)
      rw [Reads] at later
      simp [Reads, Scan.run, Scan.step, Scan.start, all c List.mem_cons_self, later]

/-- A word ends where a character follows that is not part of it. -/
theorem word {chars : List Char} (idents : ∀ c ∈ chars, isIdentPart c = true) (some : chars ≠ [])
    {next : Char} {rest : List Char} (ends : isIdentPart next = false)
    (reads : Reads (next :: rest) found) :
    Reads (chars ++ next :: rest) (.word (String.ofList chars) :: found) := by
  obtain ⟨first, others, rfl⟩ := List.exists_cons_of_ne_nil some
  have ident := idents first List.mem_cons_self
  have inside := Scan.run_word [first] fun c member => idents c (List.mem_cons_of_mem first member)
  have opened : Scan.start first = ([], .word [first]) := by
    simp [Scan.start, ident, Scan.isWhitespace_of_isIdentPart ident]
  rw [Reads, Scan.run, Scan.step] at reads
  rw [Reads, List.cons_append, Scan.run, Scan.step, opened, Scan.run_append, inside, Scan.run,
    Scan.step, ends]
  simpa [Scan.restart, Scan.pending] using reads

end Reads

section Types

open Grammar

/-- The scanner is between two tokens or in a word. -/
def Scan.IsCalm : Scan → Prop
  | .between => True
  | .word _ => True
  | _ => False

/-- The characters of a spelling do not start a comment or a comparison. -/
theorem Scan.IsCalm.step {scan : Scan} (calm : scan.IsCalm) {c : Char}
    (spelled : isPlain c = true ∨ c = ':') : (scan.step c).2.IsCalm := by
  have notEquals : c ≠ '=' := by
    rintro rfl
    rcases spelled with plain | colon <;> contradiction
  have notSlash : c ≠ '/' := by
    rintro rfl
    rcases spelled with plain | colon <;> contradiction
  have fresh : (start c).2.IsCalm := by
    unfold start
    split_ifs <;> trivial
  cases scan with
  | between => exact fresh
  | word seen =>
      by_cases ident : isIdentPart c = true
      · simp [Scan.step, ident, IsCalm]
      · simpa [Scan.step, ident, restart] using fresh
  | _ => cases calm

theorem Scan.IsCalm.run {scan : Scan} (calm : scan.IsCalm) {chars : List Char}
    (spelled : ∀ c ∈ chars, isPlain c = true ∨ c = ':') : (scan.run chars).2.IsCalm := by
  induction chars generalizing scan with
  | nil => exact calm
  | cons c rest ih =>
      exact ih (calm.step (spelled c List.mem_cons_self))
        fun d member => spelled d (List.mem_cons_of_mem c member)

/-- The tokens of a pointer to a type. -/
def pointerTokens (spelling : String) : List Token :=
  tokens spelling.toList ++ [.mark '*']

theorem reads_pointer {spelling : String} (spelled : Spelling spelling.toList) :
    Reads (spelling.toList ++ " *".toList) (pointerTokens spelling) := by
  have opened : Scan.between.IsCalm := trivial
  have calm := opened.run fun c member => spelled.isPlain_or_eq member
  have closes {scan : Scan} (calm : scan.IsCalm) :
      scan.run " *".toList = (scan.pending ++ [.mark '*'], .between) := by
    cases scan with
    | between => rfl
    | word seen => rfl
    | _ => cases calm
  rw [Reads, Scan.run_append, closes calm, pointerTokens, tokens, List.append_assoc]

end Types

namespace Scan

variable {scan : Scan} {c d : Char}

theorem eq_of_mark_mem_start (member : .mark c ∈ (start d).1 ++ (start d).2.pending) : c = d := by
  unfold start at member
  split_ifs at member <;> simp_all [pending]

theorem mark_mem_step (member : .mark c ∈ (scan.step d).1 ++ (scan.step d).2.pending) :
    .mark c ∈ scan.pending ∨ c = d := by
  have restarted (member : .mark c ∈ (scan.restart d).1 ++ (scan.restart d).2.pending) :
      .mark c ∈ scan.pending ∨ c = d := by
    rw [restart, List.append_assoc, List.mem_append] at member
    exact member.imp_right eq_of_mark_mem_start
  cases scan with
  | between => exact .inr (eq_of_mark_mem_start member)
  | word seen =>
      by_cases ident : isIdentPart d = true
      · simp [step, ident, pending] at member
      · rw [step, if_neg ident] at member
        exact restarted member
  | equals =>
      by_cases same : d = '='
      · simp [step, same, pending] at member
      · rw [step, if_neg same] at member
        exact restarted member
  | slash =>
      by_cases same : d = '/'
      · simp [step, same, pending] at member
      · rw [step, if_neg same] at member
        exact restarted member
  | comment =>
      by_cases same : d = '\n' <;> simp [step, same, pending] at member

theorem mark_mem_run {chars : List Char}
    (member : .mark c ∈ (scan.run chars).1 ++ (scan.run chars).2.pending) :
    .mark c ∈ scan.pending ∨ c ∈ chars := by
  induction chars generalizing scan with
  | nil => exact .inl (by simpa [run] using member)
  | cons d rest ih =>
      have here : .mark c ∈ (scan.step d).1 ++ (scan.step d).2.pending ∨ c ∈ rest := by
        rw [run, List.append_assoc, List.mem_append] at member
        rw [List.mem_append, or_assoc]
        exact member.imp_right ih
      rcases here with here | later
      · rcases mark_mem_step here with pending | rfl
        · exact .inl pending
        · exact .inr List.mem_cons_self
      · exact .inr (List.mem_cons_of_mem d later)

end Scan

/-- Every mark among the tokens of a text stands in the text. -/
theorem mem_of_mark_mem_tokens {text : List Char} {c : Char} (member : .mark c ∈ tokens text) :
    c ∈ text := by
  rcases Scan.mark_mem_run member with pending | here
  · cases pending
  · exact here

end Bindery.Native
