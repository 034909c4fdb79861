import Bindery.Proofs.Native.Token

/-!
# Native functions

The part of the native language that casts between types need: functions whose
bodies declare, assign, compare and return pointers.  A function is read from
tokens and called on values.  Reading takes back what writing a body produces,
provided that no `else` can be taken for that of an `if` before its own.
-/

namespace Bindery.Native

/-- An expression. -/
inductive Expr where
  | name (text : String)
  /-- The operand under a pointer type. -/
  | cast (type : List Token) (operand : Expr)
  /-- An expression in brackets. -/
  | group (inner : Expr)
deriving DecidableEq

mutual

/-- A statement. -/
inductive Statement where
  | give (result : Expr)
  /-- Declare a pointer variable. -/
  | declare (type name : String) (initial : Expr)
  | assign (name : String) (value : Expr)
  /-- Statements in braces. -/
  | block (body : Body)
  /-- An `if` on two values being the same. -/
  | branch (left right : Expr) (yes : Statement)
  /-- An `if` with an `else`. -/
  | choice (left right : Expr) (yes no : Statement)

/-- Statements one after the other. -/
inductive Body where
  | done
  | next (first : Statement) (rest : Body)

end

/-- A function with the names of its parameters. -/
structure Function where
  name : String
  params : List String
  body : Body

/-! ## Reading -/

/-- Words that are not names. -/
def keywords : List String :=
  ["if", "else", "return"]

/-- Pass over one token. -/
def expect (token : Token) : List Token → Option (List Token)
  | [] => none
  | first :: rest => if first = token then some rest else none

/-- Whether a token opens or closes brackets or braces. -/
def isBracket (token : Token) : Bool :=
  token ∈ [.mark '(', .mark ')', .mark '\x7b', .mark '\x7d']

/-- The pointer type that stands up to the next bracket, which has to close. -/
def pointerAhead? (tokens : List Token) : Option (List Token × List Token) :=
  let type := tokens.takeWhile fun token => !isBracket token
  match tokens.dropWhile fun token => !isBracket token with
  | .mark ')' :: rest => if type.getLast? = some (.mark '*') then some (type, rest) else none
  | _ => none

/-- Read an expression of at most the given depth.  A bracket with a pointer type
in it is a cast. -/
def Expr.read : (depth : Nat) → List Token → Option (Expr × List Token)
  | 0, _ => none
  | _ + 1, .word text :: rest => if text ∈ keywords then none else some (.name text, rest)
  | depth + 1, .mark '(' :: rest =>
      match pointerAhead? rest with
      | some (type, rest) => do
          let (operand, rest) ← read depth rest
          return (.cast type operand, rest)
      | none => do
          let (inner, rest) ← read depth rest
          let rest ← expect (.mark ')') rest
          return (.group inner, rest)
  | _, _ => none

/-- Read a comparison in brackets. -/
def readComparison (depth : Nat) (tokens : List Token) : Option (Expr × Expr × List Token) := do
  let rest ← expect (.mark '(') tokens
  let (left, rest) ← Expr.read depth rest
  let rest ← expect .equals rest
  let (right, rest) ← Expr.read depth rest
  let rest ← expect (.mark ')') rest
  return (left, right, rest)

/-- Read an expression and the semicolon behind it. -/
def readLast (depth : Nat) (tokens : List Token) : Option (Expr × List Token) := do
  let (expr, rest) ← Expr.read depth tokens
  let rest ← expect (.mark ';') rest
  return (expr, rest)

mutual

/-- Read a statement of at most the given depth.  An `else` belongs to the last
`if` that can take it. -/
def Statement.read : (depth : Nat) → List Token → Option (Statement × List Token)
  | 0, _ => none
  | depth + 1, tokens =>
      match tokens with
      | .word "if" :: rest => do
          let (left, right, rest) ← readComparison depth rest
          let (yes, rest) ← Statement.read depth rest
          match rest with
          | .word "else" :: rest => do
              let (no, rest) ← Statement.read depth rest
              return (.choice left right yes no, rest)
          | _ => return (.branch left right yes, rest)
      | .word "return" :: rest => do
          let (result, rest) ← readLast depth rest
          return (.give result, rest)
      | .mark '\x7b' :: rest => do
          let (body, rest) ← Body.read depth rest
          return (.block body, rest)
      | .word name :: .mark '=' :: rest => do
          let (value, rest) ← readLast depth rest
          if name ∈ keywords then none else return (.assign name value, rest)
      | .word type :: .mark '*' :: .word name :: .mark '=' :: rest => do
          let (initial, rest) ← readLast depth rest
          if type ∈ keywords ∨ name ∈ keywords then none
          else return (.declare type name initial, rest)
      | _ => none

/-- Read statements and the brace that closes them. -/
def Body.read : (depth : Nat) → List Token → Option (Body × List Token)
  | 0, _ => none
  | _ + 1, .mark '\x7d' :: rest => some (.done, rest)
  | depth + 1, tokens => do
      let (first, rest) ← Statement.read depth tokens
      let (others, rest) ← Body.read depth rest
      return (.next first others, rest)

end

/-- Read the names of parameters and the bracket that closes them. -/
def readParams : List Token → Option (List String × List Token)
  | .word name :: .mark ',' :: rest => do
      let (names, rest) ← readParams rest
      return (name :: names, rest)
  | .word name :: .mark ')' :: rest => some ([name], rest)
  | .word _ :: rest => readParams rest
  | .mark '*' :: rest => readParams rest
  | _ => none

/-- Read the name of a function and the bracket that opens its parameters. -/
def readName : List Token → Option (String × List Token)
  | .word name :: .mark '(' :: rest => some (name, rest)
  | .word _ :: rest => readName rest
  | .mark '*' :: rest => readName rest
  | _ => none

/-- Read a text as the definition of one function. -/
def Function.read (text : String) : Option Function := do
  let (name, rest) ← readName (tokens text.toList)
  let (params, rest) ← readParams rest
  let rest ← expect (.mark '\x7b') rest
  let (body, rest) ← Body.read rest.length rest
  if rest = [] then return ⟨name, params, body⟩ else none

/-! ## Writing -/

/-- The tokens of an expression. -/
def Expr.tokens : Expr → List Token
  | .name text => [.word text]
  | .cast type operand => .mark '(' :: (type ++ .mark ')' :: operand.tokens)
  | .group inner => .mark '(' :: (inner.tokens ++ [.mark ')'])

/-- The tokens of a comparison in brackets. -/
def comparisonTokens (left right : Expr) : List Token :=
  .mark '(' :: (left.tokens ++ .equals :: (right.tokens ++ [.mark ')']))

/-- The tokens of an expression and the semicolon behind it. -/
def lastTokens (expr : Expr) : List Token :=
  expr.tokens ++ [.mark ';']

mutual

/-- The tokens of a statement. -/
def Statement.tokens : Statement → List Token
  | .give result => .word "return" :: lastTokens result
  | .declare type name initial =>
      .word type :: .mark '*' :: .word name :: .mark '=' :: lastTokens initial
  | .assign name value => .word name :: .mark '=' :: lastTokens value
  | .block body => .mark '\x7b' :: body.tokens
  | .branch left right yes => .word "if" :: (comparisonTokens left right ++ yes.tokens)
  | .choice left right yes no =>
      .word "if" :: (comparisonTokens left right ++ (yes.tokens ++ .word "else" :: no.tokens))

/-- The tokens of statements and of the brace that closes them. -/
def Body.tokens : Body → List Token
  | .done => [.mark '\x7d']
  | .next first rest => first.tokens ++ rest.tokens

end

/-- Names are not keywords, and what is cast to is a pointer type. -/
def Expr.Proper : Expr → Prop
  | .name text => text ∉ keywords
  | .cast type operand =>
      type.getLast? = some (.mark '*') ∧ (∀ token ∈ type, isBracket token = false) ∧
        operand.Proper
  | .group inner => inner.Proper

/-- Whether an `else` behind the statement would be taken as part of it. -/
def Statement.isOpen : Statement → Bool
  | .branch _ _ _ => true
  | .choice _ _ _ no => no.isOpen
  | _ => false

mutual

/-- Names are not keywords, and an `else` follows only what cannot take it. -/
def Statement.Proper : Statement → Prop
  | .give result => result.Proper
  | .declare type name initial => type ∉ keywords ∧ name ∉ keywords ∧ initial.Proper
  | .assign name value => name ∉ keywords ∧ value.Proper
  | .block body => body.Proper
  | .branch left right yes => left.Proper ∧ right.Proper ∧ yes.Proper
  | .choice left right yes no =>
      left.Proper ∧ right.Proper ∧ yes.Proper ∧ yes.isOpen = false ∧ no.Proper

/-- Every statement is proper. -/
def Body.Proper : Body → Prop
  | .done => True
  | .next first rest => first.Proper ∧ rest.Proper

end

theorem expect_cons (token : Token) (rest : List Token) :
    expect token (token :: rest) = some rest :=
  if_pos rfl

theorem pointerAhead?_type {type : List Token} (isPointer : type.getLast? = some (.mark '*'))
    (plain : ∀ token ∈ type, isBracket token = false) (rest : List Token) :
    pointerAhead? (type ++ .mark ')' :: rest) = some (type, rest) := by
  have passed : ∀ token ∈ type, (!isBracket token) = true := by
    intro token member
    rw [plain token member]
    rfl
  have bracket : isBracket (.mark ')') = true := rfl
  rw [pointerAhead?, List.takeWhile_append_of_pos passed, List.dropWhile_append_of_pos passed]
  simp [bracket, isPointer]

/-- What stands in brackets is not taken for a type. -/
theorem pointerAhead?_tokens (expr : Expr) (rest : List Token) :
    pointerAhead? (expr.tokens ++ .mark ')' :: rest) = none := by
  cases expr with
  | name text => simp [pointerAhead?, Expr.tokens, isBracket]
  | cast type operand => rfl
  | group inner => rfl

/-- An expression is read back as far as it goes. -/
theorem Expr.read_tokens {expr : Expr} (proper : expr.Proper) {depth : Nat}
    (deep : expr.tokens.length ≤ depth) (rest : List Token) :
    Expr.read depth (expr.tokens ++ rest) = some (expr, rest) := by
  induction expr generalizing depth rest with
  | name text =>
      cases depth with
      | zero => simp [Expr.tokens] at deep
      | succ depth => exact if_neg proper
  | cast type operand ih =>
      obtain ⟨isPointer, plain, operandProper⟩ := proper
      cases depth with
      | zero => simp [Expr.tokens] at deep
      | succ depth =>
          have shorter : operand.tokens.length ≤ depth := by
            simp only [Expr.tokens, List.length_cons, List.length_append] at deep
            omega
          rw [Expr.tokens, List.cons_append, List.append_assoc, List.cons_append, Expr.read,
            pointerAhead?_type isPointer plain]
          simp [ih operandProper shorter rest]
  | group inner ih =>
      cases depth with
      | zero => simp [Expr.tokens] at deep
      | succ depth =>
          have shorter : inner.tokens.length ≤ depth := by
            simp only [Expr.tokens, List.length_cons, List.length_append] at deep
            omega
          rw [Expr.tokens, List.cons_append, List.append_assoc, List.cons_append, Expr.read,
            pointerAhead?_tokens]
          simp [ih proper shorter (.mark ')' :: rest), expect_cons]

theorem readComparison_tokens {left right : Expr} (leftProper : left.Proper)
    (rightProper : right.Proper) {depth : Nat}
    (deep : (comparisonTokens left right).length ≤ depth) (rest : List Token) :
    readComparison depth (comparisonTokens left right ++ rest) = some (left, right, rest) := by
  simp only [comparisonTokens, List.length_cons, List.length_append, List.length_nil] at deep
  have leftShorter : left.tokens.length ≤ depth := by omega
  have rightShorter : right.tokens.length ≤ depth := by omega
  simp [readComparison, comparisonTokens, expect_cons,
    Expr.read_tokens leftProper leftShorter, Expr.read_tokens rightProper rightShorter]

theorem readLast_tokens {expr : Expr} (proper : expr.Proper) {depth : Nat}
    (deep : (lastTokens expr).length ≤ depth) (rest : List Token) :
    readLast depth (lastTokens expr ++ rest) = some (expr, rest) := by
  simp only [lastTokens, List.length_append] at deep
  have shorter : expr.tokens.length ≤ depth := by omega
  simp [readLast, lastTokens, expect_cons, Expr.read_tokens proper shorter]

/-- No proper statement starts as an `else` or the end of a block does. -/
theorem Statement.exists_tokens_eq_cons {statement : Statement} (proper : statement.Proper) :
    ∃ token rest, statement.tokens = token :: rest ∧ token ≠ .word "else" ∧
      token ≠ .mark '\x7d' := by
  have apart {name : String} (isName : name ∉ keywords) : Token.word name ≠ .word "else" := by
    rintro ⟨⟩
    exact isName (by decide)
  cases statement with
  | give result => exact ⟨_, _, rfl, by decide, by decide⟩
  | declare type name initial => exact ⟨_, _, rfl, apart proper.1, nofun⟩
  | assign name value => exact ⟨_, _, rfl, apart proper.1, nofun⟩
  | block body => exact ⟨_, _, rfl, by decide, by decide⟩
  | branch left right yes => exact ⟨_, _, rfl, by decide, by decide⟩
  | choice left right yes no => exact ⟨_, _, rfl, by decide, by decide⟩

theorem Body.length_tokens_pos : (body : Body) → 0 < body.tokens.length
  | .done => Nat.one_pos
  | .next first rest => by
      rw [Body.tokens, List.length_append]
      exact Nat.add_pos_right _ rest.length_tokens_pos

theorem Body.head?_tokens {body : Body} (proper : body.Proper) (rest : List Token) :
    (body.tokens ++ rest).head? ≠ some (.word "else") := by
  cases body with
  | done => simp [Body.tokens]
  | next first others =>
      obtain ⟨token, behind, starts, notElse, -⟩ := Statement.exists_tokens_eq_cons proper.1
      simp [Body.tokens, starts, notElse]

mutual

/-- A statement is read back, unless an `else` behind it would be taken as part of
it. -/
theorem Statement.read_tokens : (statement : Statement) → (proper : statement.Proper) →
    {depth : Nat} → (deep : statement.tokens.length ≤ depth) → (rest : List Token) →
    (ends : statement.isOpen = true → rest.head? ≠ some (.word "else")) →
    Statement.read depth (statement.tokens ++ rest) = some (statement, rest)
  | .give result, proper, depth, deep, rest, _ => by
      cases depth with
      | zero => simp [Statement.tokens] at deep
      | succ depth =>
          rw [Statement.tokens, List.length_cons, Nat.add_le_add_iff_right] at deep
          simp [Statement.tokens, Statement.read, readLast_tokens proper deep]
  | .declare type name initial, proper, depth, deep, rest, _ => by
      obtain ⟨typeName, isName, initialProper⟩ := proper
      cases depth with
      | zero => simp [Statement.tokens] at deep
      | succ depth =>
          simp only [Statement.tokens, List.length_cons] at deep
          have bound : (lastTokens initial).length ≤ depth := by omega
          have last := readLast_tokens initialProper bound rest
          simp only [keywords, List.mem_cons, List.not_mem_nil, or_false, not_or] at typeName isName
          simp [Statement.tokens, Statement.read, last, keywords, typeName, isName]
  | .assign name value, proper, depth, deep, rest, _ => by
      obtain ⟨isName, valueProper⟩ := proper
      cases depth with
      | zero => simp [Statement.tokens] at deep
      | succ depth =>
          simp only [Statement.tokens, List.length_cons] at deep
          have bound : (lastTokens value).length ≤ depth := by omega
          have last := readLast_tokens valueProper bound rest
          simp only [keywords, List.mem_cons, List.not_mem_nil, or_false, not_or] at isName
          simp [Statement.tokens, Statement.read, last, keywords, isName]
  | .block body, proper, depth, deep, rest, _ => by
      cases depth with
      | zero => simp [Statement.tokens] at deep
      | succ depth =>
          rw [Statement.tokens, List.length_cons, Nat.add_le_add_iff_right] at deep
          simp [Statement.tokens, Statement.read, Body.read_tokens body proper deep]
  | .branch left right yes, proper, depth, deep, rest, ends => by
      obtain ⟨leftProper, rightProper, yesProper⟩ := proper
      cases depth with
      | zero => simp [Statement.tokens] at deep
      | succ depth =>
          simp only [Statement.tokens, List.length_cons, List.length_append] at deep
          have comparisonBound : (comparisonTokens left right).length ≤ depth := by omega
          have yesBound : yes.tokens.length ≤ depth := by omega
          have compared := readComparison_tokens leftProper rightProper comparisonBound
          have taken := Statement.read_tokens yes yesProper yesBound rest fun _ => ends rfl
          simp only [Statement.tokens, List.cons_append, List.append_assoc, Statement.read, compared,
            taken, Option.bind_eq_bind, Option.bind_some]
          split
          · exact absurd rfl (ends rfl)
          · rfl
  | .choice left right yes no, proper, depth, deep, rest, ends => by
      obtain ⟨leftProper, rightProper, yesProper, closed, noProper⟩ := proper
      cases depth with
      | zero => simp [Statement.tokens] at deep
      | succ depth =>
          simp only [Statement.tokens, List.length_cons, List.length_append] at deep
          have comparisonBound : (comparisonTokens left right).length ≤ depth := by omega
          have yesBound : yes.tokens.length ≤ depth := by omega
          have noBound : no.tokens.length ≤ depth := by omega
          have compared := readComparison_tokens leftProper rightProper comparisonBound
          have taken := Statement.read_tokens yes yesProper yesBound
            (.word "else" :: (no.tokens ++ rest)) (by simp [closed])
          have otherwise := Statement.read_tokens no noProper noBound rest ends
          simp [Statement.tokens, Statement.read, compared, taken, otherwise]

/-- Statements are read back with the brace that closes them. -/
theorem Body.read_tokens : (body : Body) → (proper : body.Proper) → {depth : Nat} →
    (deep : body.tokens.length ≤ depth) → (rest : List Token) →
    Body.read depth (body.tokens ++ rest) = some (body, rest)
  | .done, _, depth, deep, rest => by
      cases depth with
      | zero => simp [Body.tokens] at deep
      | succ depth => rfl
  | .next first others, proper, depth, deep, rest => by
      obtain ⟨firstProper, othersProper⟩ := proper
      obtain ⟨token, behind, starts, -, notClosing⟩ := Statement.exists_tokens_eq_cons firstProper
      cases depth with
      | zero => simp [Body.tokens, starts] at deep
      | succ depth =>
          have firstSome : 0 < first.tokens.length := by simp [starts]
          have othersSome := others.length_tokens_pos
          rw [Body.tokens, List.length_append] at deep
          have firstBound : first.tokens.length ≤ depth := by omega
          have othersBound : others.tokens.length ≤ depth := by omega
          have one := Statement.read_tokens first firstProper firstBound (others.tokens ++ rest)
            fun _ => Body.head?_tokens othersProper rest
          have later := Body.read_tokens others othersProper othersBound rest
          rw [Body.tokens, List.append_assoc, Body.read]
          · simp [one, later]
          · intro closed same
            simp [starts, notClosing] at same

end

/-! ## Calls -/

/-- What a pointer variable holds. -/
inductive Value where
  | null
  /-- The label that identifies a type at run time. -/
  | label (tag : String)
  /-- Any other address. -/
  | address (place : Nat)
  /-- A pointer under another type. -/
  | cast (type : List Token) (value : Value)
deriving DecidableEq, Inhabited

/-- Variables with their values; of two variables of one name the first counts. -/
abbrev Scope := List (String × Value)

/-- Give another value to a variable. -/
def Scope.assign (name : String) (value : Value) : Scope → Option Scope
  | [] => none
  | (other, old) :: rest =>
      if other = name then some ((other, value) :: rest)
      else (Scope.assign name value rest).map ((other, old) :: ·)

/-- How a statement ends. -/
inductive Flow where
  | onward (scope : Scope)
  | returned (value : Value)
deriving DecidableEq

section Calls

variable (globals : String → Option Value)

/-- The value of an expression; a name is looked up among the variables first. -/
def Expr.value (scope : Scope) : Expr → Option Value
  | .name text => (scope.lookup text).or (globals text)
  | .cast type operand => (operand.value scope).map (.cast type)
  | .group inner => inner.value scope

mutual

/-- Run a statement. -/
def Statement.run (scope : Scope) : Statement → Option Flow
  | .give result => (result.value globals scope).map .returned
  | .declare _ name initial => do
      let value ← initial.value globals scope
      if (scope.lookup name).isSome then none else return .onward ((name, value) :: scope)
  | .assign name value => do
      let value ← value.value globals scope
      let scope ← Scope.assign name value scope
      return .onward scope
  | .block body => do
      match ← body.run scope with
      | .onward inner => return .onward (inner.drop (inner.length - scope.length))
      | .returned value => return .returned value
  | .branch left right yes => do
      let leftValue ← left.value globals scope
      let rightValue ← right.value globals scope
      if leftValue = rightValue then yes.run scope else return .onward scope
  | .choice left right yes no => do
      let leftValue ← left.value globals scope
      let rightValue ← right.value globals scope
      if leftValue = rightValue then yes.run scope else no.run scope

/-- Run statements in order, up to one that returns. -/
def Body.run (scope : Scope) : Body → Option Flow
  | .done => some (.onward scope)
  | .next first rest => do
      match ← first.run scope with
      | .onward inner => rest.run inner
      | .returned value => return .returned value

end

/-- The value that a function returns. -/
def Function.call (function : Function) (args : List Value) : Option Value := do
  if function.params.length ≠ args.length then none
  match ← function.body.run globals (function.params.zip args) with
  | .onward _ => none
  | .returned value => return value

variable {globals} {scope : Scope} {left right : Expr} {first second : Value}

theorem Function.call_of_run {function : Function} {args : List Value} {value : Value}
    (sized : function.params.length = args.length)
    (returned : function.body.run globals (function.params.zip args) = some (.returned value)) :
    function.call globals args = some value := by
  simp [Function.call, sized, returned]

theorem Statement.run_branch (leftValue : left.value globals scope = some first)
    (rightValue : right.value globals scope = some second) (yes : Statement) :
    (Statement.branch left right yes).run globals scope =
      if first = second then yes.run globals scope else some (.onward scope) := by
  simp [Statement.run, leftValue, rightValue]

theorem Statement.run_choice (leftValue : left.value globals scope = some first)
    (rightValue : right.value globals scope = some second) (yes no : Statement) :
    (Statement.choice left right yes no).run globals scope =
      if first = second then yes.run globals scope else no.run globals scope := by
  simp [Statement.run, leftValue, rightValue]

/-- A block that goes on without variables of its own leaves what its statements
leave. -/
theorem Statement.run_block {body : Body} {inner : Scope}
    (runs : body.run globals scope = some (.onward inner)) (kept : inner.length = scope.length) :
    (Statement.block body).run globals scope = some (.onward inner) := by
  simp [Statement.run, runs, kept]

end Calls

/-! ## Braces -/

/-- The depth of braces behind tokens; there is none if a brace closes that was not
opened. -/
def braceDepth : (depth : Nat) → List Token → Option Nat
  | depth, [] => some depth
  | depth, token :: rest =>
      if token = .mark '\x7b' then braceDepth (depth + 1) rest
      else if token = .mark '\x7d' then
        if depth = 0 then none else braceDepth (depth - 1) rest
      else braceDepth depth rest

theorem braceDepth_cons {token : Token} (depth : Nat) (rest : List Token)
    (plain : token ≠ .mark '\x7b' ∧ token ≠ .mark '\x7d') :
    braceDepth depth (token :: rest) = braceDepth depth rest := by
  rw [braceDepth, if_neg plain.1, if_neg plain.2]

theorem braceDepth_append {tokens : List Token} (depth : Nat) (rest : List Token)
    (plain : ∀ token ∈ tokens, isBracket token = false) :
    braceDepth depth (tokens ++ rest) = braceDepth depth rest := by
  induction tokens with
  | nil => rfl
  | cons token others ih =>
      have notBrace : token ≠ .mark '\x7b' ∧ token ≠ .mark '\x7d' := by
        constructor <;> rintro rfl <;> exact absurd (plain _ List.mem_cons_self) (by decide)
      rw [List.cons_append, braceDepth_cons _ _ notBrace]
      exact ih fun other member => plain other (List.mem_cons_of_mem token member)

theorem Expr.braceDepth_tokens {expr : Expr} (proper : expr.Proper) (depth : Nat)
    (rest : List Token) : braceDepth depth (expr.tokens ++ rest) = braceDepth depth rest := by
  induction expr generalizing rest with
  | name text => exact braceDepth_cons _ _ ⟨nofun, nofun⟩
  | cast type operand ih =>
      obtain ⟨-, plain, operandProper⟩ := proper
      rw [Expr.tokens, List.cons_append, List.append_assoc, List.cons_append,
        braceDepth_cons _ _ (by decide), braceDepth_append _ _ plain,
        braceDepth_cons _ _ (by decide), ih operandProper]
  | group inner ih =>
      rw [Expr.tokens, List.cons_append, List.append_assoc, List.cons_append,
        braceDepth_cons _ _ (by decide), ih proper, braceDepth_cons _ _ (by decide),
        List.nil_append]

theorem braceDepth_comparisonTokens {left right : Expr} (leftProper : left.Proper)
    (rightProper : right.Proper) (depth : Nat) (rest : List Token) :
    braceDepth depth (comparisonTokens left right ++ rest) = braceDepth depth rest := by
  rw [comparisonTokens, List.cons_append, List.append_assoc, List.cons_append, List.append_assoc,
    braceDepth_cons _ _ (by decide), Expr.braceDepth_tokens leftProper,
    braceDepth_cons _ _ (by decide), Expr.braceDepth_tokens rightProper]
  exact braceDepth_cons _ _ (by decide)

theorem braceDepth_lastTokens {expr : Expr} (proper : expr.Proper) (depth : Nat)
    (rest : List Token) :
    braceDepth depth (lastTokens expr ++ rest) = braceDepth depth rest := by
  rw [lastTokens, List.append_assoc, Expr.braceDepth_tokens proper]
  exact braceDepth_cons _ _ (by decide)

theorem braceDepth_word (text : String) (depth : Nat) (rest : List Token) :
    braceDepth depth (.word text :: rest) = braceDepth depth rest :=
  braceDepth_cons _ _ ⟨nofun, nofun⟩

mutual

/-- Every brace of a statement is closed in it. -/
theorem Statement.braceDepth_tokens : (statement : Statement) → (proper : statement.Proper) →
    (depth : Nat) → (rest : List Token) →
    braceDepth depth (statement.tokens ++ rest) = braceDepth depth rest
  | .give result, proper, depth, rest => by
      rw [Statement.tokens, List.cons_append, braceDepth_word, braceDepth_lastTokens proper]
  | .declare type name initial, proper, depth, rest => by
      rw [Statement.tokens, List.cons_append, List.cons_append, List.cons_append, List.cons_append,
        braceDepth_word, braceDepth_cons _ _ (by decide), braceDepth_word,
        braceDepth_cons _ _ (by decide), braceDepth_lastTokens proper.2.2]
  | .assign name value, proper, depth, rest => by
      rw [Statement.tokens, List.cons_append, List.cons_append, braceDepth_word,
        braceDepth_cons _ _ (by decide), braceDepth_lastTokens proper.2]
  | .block body, proper, depth, rest => by
      rw [Statement.tokens, List.cons_append, braceDepth, if_pos rfl]
      exact Body.braceDepth_tokens body proper depth rest
  | .branch left right yes, proper, depth, rest => by
      rw [Statement.tokens, List.cons_append, List.append_assoc, braceDepth_word,
        braceDepth_comparisonTokens proper.1 proper.2.1,
        Statement.braceDepth_tokens yes proper.2.2]
  | .choice left right yes no, proper, depth, rest => by
      obtain ⟨leftProper, rightProper, yesProper, -, noProper⟩ := proper
      rw [Statement.tokens, List.cons_append, List.append_assoc, List.append_assoc,
        List.cons_append, braceDepth_word, braceDepth_comparisonTokens leftProper rightProper,
        Statement.braceDepth_tokens yes yesProper, braceDepth_word,
        Statement.braceDepth_tokens no noProper]

/-- Statements close the brace in front of them. -/
theorem Body.braceDepth_tokens : (body : Body) → (proper : body.Proper) → (depth : Nat) →
    (rest : List Token) →
    braceDepth (depth + 1) (body.tokens ++ rest) = braceDepth depth rest
  | .done, _, depth, rest => rfl
  | .next first others, proper, depth, rest => by
      rw [Body.tokens, List.append_assoc, Statement.braceDepth_tokens first proper.1,
        Body.braceDepth_tokens others proper.2]

end

end Bindery.Native
