import Bindery.Proofs.Proxy
import Bindery.Proofs.Session.Bookkeeping
import Bindery.Proofs.Symbols

/-!
# Symbols of constructors and methods

A constructor or method is bound on the type that its owner's text selects, but its symbol is
made from the text itself.  The symbol is noted on the type and is that of the one entry point
that the call opens.  In the text only pairs of colons are replaced, so the symbol is an
identifier exactly if the owner is written without white space and marks.
-/

namespace Bindery

open Text Grammar

namespace Grammar

/-- Identifier characters, white space, marks and pairs of colons. -/
inductive Written : List Char → Prop where
  | nil : Written []
  | scope {rest : List Char} (written : Written rest) : Written (':' :: ':' :: rest)
  | part {c : Char} {rest : List Char} (isPart : isIdentPart c = true) (written : Written rest) :
      Written (c :: rest)
  | gap {c : Char} {rest : List Char} (isGap : isBlank c = true ∨ Mark.isMark c = true)
      (written : Written rest) : Written (c :: rest)

/-- The text has no white space and no marks. -/
def Unspaced (text : String) : Prop :=
  ∀ c ∈ text.toList, isBlank c = false ∧ Mark.isMark c = false

instance (text : String) : Decidable (Unspaced text) :=
  decidable_of_iff ((text.toList.all fun c => !isBlank c && !Mark.isMark c) = true)
    (by simp [Unspaced])

section Gaps

variable {c : Char}

theorem isIdentPart_of_isGap (isGap : isBlank c = true ∨ Mark.isMark c = true) :
    isIdentPart c = false := by
  rcases isGap with blank | mark
  · exact isIdentPart_of_isBlank blank
  · rcases Mark.isMark_iff.mp mark with ⟨_ | _, rfl⟩ <;> rfl

theorem not_isGap_iff :
    ¬ (isBlank c = true ∨ Mark.isMark c = true) ↔ isBlank c = false ∧ Mark.isMark c = false := by
  rw [not_or, Bool.not_eq_true, Bool.not_eq_true]

end Gaps

namespace Written

variable {chars : List Char}

theorem append {others : List Char} (first : Written chars) (second : Written others) :
    Written (chars ++ others) := by
  induction first with
  | nil => exact second
  | scope _ ih => exact .scope ih
  | part isPart _ ih => exact .part isPart ih
  | gap isGap _ ih => exact .gap isGap ih

theorem of_spelling (spelling : Spelling chars) : Written chars := by
  induction spelling with
  | nil => exact .nil
  | scope _ ih => exact .scope ih
  | plain isPlain _ ih =>
      simp only [Grammar.isPlain, Bool.or_eq_true, beq_iff_eq] at isPlain
      rcases isPlain with ((isPart | rfl) | rfl) | rfl
      · exact .part isPart ih
      · exact .gap (.inl rfl) ih
      · exact .gap (.inr rfl) ih
      · exact .gap (.inr rfl) ih

theorem of_gaps (gaps : ∀ c ∈ chars, isBlank c = true ∨ Mark.isMark c = true) : Written chars := by
  induction chars with
  | nil => exact .nil
  | cons c rest ih =>
      rcases List.forall_mem_cons.mp gaps with ⟨isGap, gaps⟩
      exact .gap isGap (ih gaps)

theorem of_isBlanks (blanks : IsBlanks chars) : Written chars :=
  of_gaps fun c member => .inl (blanks c member)

theorem of_isQualifier {word : String} (parts : ∀ c ∈ word.toList, isIdentPart c = true)
    (qualifier : IsQualifier word chars) : Written chars := by
  rcases qualifier with ⟨blanks, isBlanks, rfl⟩
  exact (of_spelling (.of_isIdentPart parts)).append (of_isBlanks isBlanks)

theorem of_spellsConst {isConst : Bool} (spelled : SpellsConst isConst chars) : Written chars := by
  cases isConst with
  | false =>
      cases spelled
      exact .nil
  | true => exact of_isQualifier isIdentPart_const spelled

theorem of_spellsSign {signedness : Option Signedness} (spelled : SpellsSign signedness chars) :
    Written chars := by
  cases signedness with
  | none =>
      cases spelled
      exact .nil
  | some sign => exact of_isQualifier (isIdentPart_sign sign) spelled

theorem of_spellsName {name : ScopedName} (spelled : SpellsName name chars) : Written chars := by
  rcases spelled with ⟨idents, scope, rfl | rfl, rfl⟩
  · exact of_spelling (.pathChars idents)
  · exact .scope (of_spelling (.pathChars idents))

theorem of_marks (marks : Indirection) : Written (marks.map Mark.toChar) := by
  apply of_gaps
  intro c member
  obtain ⟨mark, -, rfl⟩ := List.mem_map.mp member
  exact .inr (Mark.isMark_iff.mpr ⟨mark, rfl⟩)

theorem of_spell {pieces : Pieces} {type : NativeType} (spelled : pieces.Spell type) :
    Written pieces.text := by
  have marks : Written pieces.marks := spelled.marks ▸ of_marks type.marks
  have behindName := (of_isBlanks spelled.gap).append (marks.append (of_isBlanks spelled.trail))
  exact (of_isBlanks spelled.lead).append ((of_spellsConst spelled.constness).append
    ((of_spellsSign spelled.sign).append ((of_spellsName spelled.name).append behindName)))

/-- Pairs of colons become underscores; white space and marks stay and are no part of an
identifier. -/
theorem isIdentPart_mangleChars_iff (written : Written chars) :
    (∀ c ∈ mangleChars chars, isIdentPart c = true) ↔
      ∀ c ∈ chars, isBlank c = false ∧ Mark.isMark c = false := by
  induction written with
  | nil => simp [mangleChars]
  | scope _ ih =>
      have underscore : isIdentPart '_' = true := rfl
      have colon : isBlank ':' = false ∧ Mark.isMark ':' = false := ⟨rfl, rfl⟩
      simp only [mangleChars, List.forall_mem_cons, underscore, colon, true_and, ih]
  | @part c rest isPart _ ih =>
      have noGap : isBlank c = false ∧ Mark.isMark c = false := by
        rw [← not_isGap_iff]
        intro isGap
        rw [isIdentPart_of_isGap isGap] at isPart
        cases isPart
      rw [mangleChars_cons (ne_colon_of_isIdentPart isPart), List.forall_mem_cons,
        List.forall_mem_cons, ih]
      exact and_congr (iff_of_true isPart noGap) Iff.rfl
  | @gap c rest isGap _ ih =>
      have noColon : c ≠ ':' := by
        rintro rfl
        rcases isGap with blank | mark
        · cases blank
        · cases mark
      have noPart : ¬ isIdentPart c = true := by
        rw [isIdentPart_of_isGap isGap]
        exact Bool.false_ne_true
      rw [mangleChars_cons noColon, List.forall_mem_cons, List.forall_mem_cons]
      exact iff_of_false (fun parts => noPart parts.1)
        fun gapless => not_isGap_iff.mpr gapless.1 isGap

end Written

end Grammar

/-- A symbol that is made from the text of a type. -/
theorem isIdent_mangle_iff {owner behind : String} {type : NativeType}
    (parsed : NativeType.parse owner = .ok type)
    (parts : ∀ c ∈ behind.toList, isIdentPart c = true) :
    IsIdent ("_" ++ mangle owner ++ behind).toList ↔ Unspaced owner := by
  obtain ⟨pieces, isText, spelled⟩ := NativeType.exists_spell_of_parse parsed
  have written : Written owner.toList := isText ▸ Written.of_spell spelled
  rw [String.append_assoc, isIdent_underscore_iff, forall_isIdentPart_append,
    and_iff_left parts, mangle, String.toList_ofList]
  exact written.isIdentPart_mangleChars_iff

namespace Binding

variable {registry : Registry} {owner : String} {key : TypeKey}

theorem isIdent_ctor_iff (owned : registry.owner owner = .ok key) :
    IsIdent (ctor owner key).proxy.toList ↔ Unspaced owner := by
  obtain ⟨type, parsed, -⟩ := owner_eq_ok_iff.mp owned
  exact isIdent_mangle_iff parsed (List.all_eq_true.mp rfl)

theorem isIdent_method_iff {name : String} (owned : registry.owner owner = .ok key)
    (ident : IsIdent name.toList) :
    IsIdent (method owner name key).proxy.toList ↔ Unspaced owner := by
  obtain ⟨type, parsed, -⟩ := owner_eq_ok_iff.mp owned
  have parts : ∀ c ∈ ("__" ++ (name ++ "__")).toList, isIdentPart c = true := by
    rw [forall_isIdentPart_append, forall_isIdentPart_append]
    exact ⟨List.all_eq_true.mp rfl, ident.parts, List.all_eq_true.mp rfl⟩
  rw [proxy, String.append_assoc, String.append_assoc]
  exact isIdent_mangle_iff parsed parts

end Binding

/-! ## Entry points of generated code -/

namespace Draft

variable {α β : Type}

/-- The draft opens no entry point. -/
def OpensNone (draft : Draft α) : Prop :=
  draft.entries = []

theorem entries_andThen {draft : Draft α} {next : α → Draft β}
    (later : ∀ value, (next value).OpensNone) : (draft.andThen next).entries = draft.entries := by
  rcases draft with ⟨code, entries, error | value⟩
  · rfl
  · rw [andThen_ok, later value, List.append_nil]

theorem OpensNone.andThen {draft : Draft α} {next : α → Draft β} (first : draft.OpensNone)
    (later : ∀ value, (next value).OpensNone) : (draft.andThen next).OpensNone :=
  (entries_andThen later).trans first

theorem opensNone_write (code : Code) : (write code).OpensNone :=
  rfl

theorem opensNone_pure (value : α) : (pure value : Draft α).OpensNone :=
  rfl

theorem opensNone_converter (registry : Registry) (key : TypeKey) :
    (converter registry key).OpensNone :=
  rfl

theorem opensNone_wrap (target : Target) (conv : Converter) (type : NativeType)
    (name inPointer : String) (ownership : Ownership) :
    (target.wrap conv type name inPointer ownership).OpensNone :=
  rfl

end Draft

namespace Dispatch

section Emission

variable (emitter : Emitter)

theorem opensNone_convertSelf : emitter.convertSelf.OpensNone := by
  unfold Emitter.convertSelf
  split
  · apply (Draft.opensNone_converter _ _).andThen
    exact fun conv => Draft.opensNone_write _
  · exact Draft.opensNone_pure ()

theorem opensNone_convertArgs (index : Nat) (slots : List Argument) :
    (emitter.convertArgs index slots).OpensNone := by
  induction slots generalizing index with
  | nil => exact Draft.opensNone_pure []
  | cons slot rest ih =>
      apply (Draft.opensNone_converter _ _).andThen
      intro conv
      apply (Draft.opensNone_write _).andThen
      intro _
      apply (ih (index + 1)).andThen
      exact fun others => Draft.opensNone_pure _

theorem opensNone_callNative (callee : String) (result : Return) (args : String) :
    (emitter.callNative callee result args).OpensNone := by
  unfold Emitter.callNative
  split
  · apply (Draft.opensNone_converter _ _).andThen
    intro conv
    apply (Draft.opensNone_write _).andThen
    intro _
    apply (Draft.opensNone_wrap _ _ _ _ _ _).andThen
    exact fun output => Draft.opensNone_pure _
  · apply (Draft.opensNone_write _).andThen
    exact fun _ => Draft.opensNone_pure _

theorem opensNone_construct (owner : TypeKey) (result : Return) (args : String) :
    (emitter.construct owner result args).OpensNone := by
  apply (Draft.opensNone_converter _ _).andThen
  intro conv
  apply (Draft.opensNone_write _).andThen
  intro _
  apply (Draft.opensNone_wrap _ _ _ _ _ _).andThen
  exact fun output => Draft.opensNone_pure _

theorem opensNone_invoke (result : Return) (args : String) :
    (emitter.invoke result args).OpensNone := by
  unfold Emitter.invoke
  split
  · exact opensNone_construct emitter _ result args
  · exact opensNone_callNative emitter _ result args
  · exact opensNone_callNative emitter _ result args

theorem opensNone_callAt (index : Nat) : (emitter.callAt index).OpensNone := by
  unfold Emitter.callAt
  split
  · apply (opensNone_convertSelf emitter).andThen
    intro _
    apply (opensNone_convertArgs emitter 0 _).andThen
    intro args
    apply (opensNone_invoke emitter _ _).andThen
    exact fun results => Draft.opensNone_write _
  · rfl

variable {emitter}

theorem opensNone_rungs {branches : List (TypeKey × Node)}
    (below : ∀ branch ∈ branches, (emitter.node branch.2).OpensNone) (argIndex : Nat)
    (first : Bool) : (emitter.rungs argIndex first branches).OpensNone := by
  induction branches generalizing first with
  | nil => exact Draft.opensNone_pure ()
  | cons branch rest ih =>
      rcases branch with ⟨key, next⟩
      rw [List.forall_mem_cons] at below
      rw [Emitter.rungs]
      apply (Draft.opensNone_converter _ _).andThen
      intro conv
      apply (Draft.opensNone_write _).andThen
      intro _
      apply below.1.andThen
      intro _
      apply (Draft.opensNone_write _).andThen
      exact fun _ => ih below.2 false

variable (emitter)

theorem opensNone_node (node : Node) : (emitter.node node).OpensNone := by
  induction node with
  | call index =>
      rw [Emitter.node]
      exact opensNone_callAt emitter index
  | check argIndex branches ih =>
      rw [Emitter.node]
      apply (opensNone_rungs ih argIndex true).andThen
      exact fun _ => Draft.opensNone_write _

theorem opensNone_arms (first : Bool) (arms : List Arm) :
    (emitter.arms first arms).OpensNone := by
  induction arms generalizing first with
  | nil => exact Draft.opensNone_pure ()
  | cons arm rest ih =>
      apply (Draft.opensNone_write _).andThen
      intro _
      apply (opensNone_node emitter arm.root).andThen
      intro _
      apply (Draft.opensNone_write _).andThen
      exact fun _ => ih false

end Emission

/-- The code of a tree opens one entry point, under the symbol of the binding. -/
theorem entries_emit (target : Target) (registry : Registry) (binding : Binding)
    (protos : List Prototype) (tree : Tree) :
    (tree.emit target registry binding protos).entries =
      [⟨binding.entryKind, binding.proxy, tree.maxArgCount⟩] := by
  apply Draft.entries_andThen
  intro _
  apply (Draft.opensNone_write _).andThen
  intro _
  apply (opensNone_arms _ true tree.arms).andThen
  intro _
  apply (Draft.opensNone_write _).andThen
  intro _
  apply (Draft.opensNone_write _).andThen
  intro _
  apply (Draft.opensNone_write _).andThen
  exact fun _ => Draft.opensNone_write _

end Dispatch

/-! ## Calls that are accepted -/

namespace Declare

variable {session after : Session}

theorem entries_overloadCode (session : Session) (binding : Binding) (protos : List Prototype)
    (tree : Dispatch.Tree) :
    (overloadCode session binding protos tree).entries =
      [⟨binding.entryKind, binding.proxy, tree.maxArgCount⟩] := by
  have emitted := Dispatch.entries_emit session.target session.registry binding protos tree
  exact (Draft.entries_andThen fun _ => Draft.opensNone_write _).trans emitted

theorem entries_of_compose {draft : Draft Unit} {text : String}
    (done : compose draft session = .ok text after) :
    after.entries = session.entries ++ draft.entries := by
  rcases draft with ⟨code, entries, error | ⟨⟨⟩⟩⟩
  · cases done
  · cases done
    rfl

theorem entries_of_modifyType {key : TypeKey} {change : Converter → Converter}
    {keeps : ∀ conv, (change conv).key = conv.key} {result : Unit}
    (done : modifyType key change keeps session = .ok result after) :
    after.entries = session.entries := by
  obtain ⟨_, -, modified⟩ := exists_of_ofExcept_bind done
  cases modified
  rfl

theorem entries_of_record {binding : Binding} {bound : OverloadSet} {result : Unit}
    (done : record binding bound session = .ok result after) :
    after.entries = session.entries := by
  cases binding with
  | function name =>
      cases done
      rfl
  | ctor owner key => exact entries_of_modifyType done
  | method owner name key => exact entries_of_modifyType done

/-- An overload set that is bound opens one entry point, under its own symbol. -/
theorem entries_of_bindOverloads {binding : Binding} {signatures : List Signature} {front : String}
    {result : Unit} (done : bindOverloads binding signatures front session = .ok result after) :
    ∃ maxArgs,
      after.entries = session.entries ++ [⟨binding.entryKind, binding.proxy, maxArgs⟩] := by
  -- Of the steps behind the checks, only composing the code notes entry points.
  obtain ⟨protos, -, done⟩ := exists_of_ofExcept_bind done
  rw [dispatchTree, bind_assoc] at done
  obtain ⟨_, _, ⟨⟩, done⟩ := bind_eq_ok_iff.mp done
  obtain ⟨tree, -, done⟩ := exists_of_ofExcept_bind done
  obtain ⟨text, _, composed, done⟩ := bind_eq_ok_iff.mp done
  obtain ⟨_, _, ⟨⟩, done⟩ := bind_eq_ok_iff.mp done
  obtain ⟨_, _, recorded, ⟨⟩⟩ := bind_eq_ok_iff.mp done
  have opened := entries_of_compose composed
  rw [entries_overloadCode] at opened
  exact ⟨tree.maxArgCount, (entries_of_record recorded).trans opened⟩

/-- An overload set that is bound on a type is noted there, as the binding says, and opens one
entry point, under the symbol that is noted. -/
theorem exists_noted_of_bindOverloads {binding : Binding} {signatures : List Signature}
    {front : String} {result : Unit} {key : TypeKey} (owner : binding.converter? = some key)
    (known : session.registry.contains key = true)
    (done : bindOverloads binding signatures front session = .ok result after) :
    ∃ conv bound maxArgs, bound.proxy = binding.proxy ∧
      session.registry.find? key = some conv ∧ conv.key = key ∧
      after.registry.find? key = some ((binding.entry bound).amend conv) ∧
      after.entries = session.entries ++ [⟨binding.entryKind, bound.proxy, maxArgs⟩] := by
  have owned : binding.Registered session.registry := by
    intro other isOwner
    rw [owner] at isOwner
    cases isOwner
    exact known
  obtain ⟨conv, found⟩ := Registry.contains_iff_exists_find?.mp known
  obtain ⟨bound, isBound⟩ := exists_bound?_of_bindOverloads done
  have named : bound.proxy = binding.proxy := by
    obtain ⟨protos, -, rfl⟩ := Option.map_eq_some_iff.mp isBound
    rfl
  have books := records_bindOverloads signatures front owned result after done
  rw [isBound] at books
  obtain ⟨maxArgs, opened⟩ := entries_of_bindOverloads done
  rw [← named] at opened
  exact ⟨conv, bound, maxArgs, named, found, (Registry.find?_eq_some_iff.mp found).2,
    books.registry.find?_amendAll found, opened⟩

theorem eq_ok_of_accepts {step : Declare Unit} (accepted : step.accepts session = true) :
    step session = .ok () (step.leaves session) := by
  cases outcome : step session with
  | ok value middle => rw [leaves_of_ok outcome]
  | error error middle =>
      rw [accepts_of_error outcome] at accepted
      cases accepted

end Declare

/-- A constructor or method that is bound is noted on the type that the owner's text selects, and
the call opens one entry point, under the symbol that is noted.  This is an identifier exactly if
the owner's text has no white space and no marks. -/
theorem bound_symbol_is_identifier_iff_unspaced (session after : Session) :
    (∀ (type : String) (overloads : List (List String)),
        Declare.bindConstructor type overloads session = .ok () after →
          ∃ key conv bound maxArgs,
            session.registry.owner type = .ok key ∧
              session.registry.find? key = some conv ∧
              after.registry.find? key = some { conv with ctor := some bound } ∧
              after.entries = session.entries ++ [⟨.function, bound.proxy, maxArgs⟩] ∧
              (IsIdent bound.proxy.toList ↔ Unspaced type)) ∧
      ∀ (type name : String) (signatures : List Signature), IsIdent name.toList →
        Declare.bindMethod type name signatures session = .ok () after →
          ∃ key conv bound maxArgs,
            session.registry.owner type = .ok key ∧
              session.registry.find? key = some conv ∧
              after.registry.find? key = some { conv with methods := conv.methods ++ [bound] } ∧
              after.entries = session.entries ++ [⟨.method, bound.proxy, maxArgs⟩] ∧
              (IsIdent bound.proxy.toList ↔ Unspaced type) := by
  constructor
  · intro type overloads done
    obtain ⟨key, owned, done⟩ := Declare.exists_owner_of_ownerFor_bind done
    obtain ⟨conv, bound, maxArgs, named, found, here, noted, opened⟩ :=
      Declare.exists_noted_of_bindOverloads rfl (contains_of_owner owned) done
    have amended : (Entry.ctor key bound).amend conv = { conv with ctor := some bound } :=
      if_pos here
    refine ⟨key, conv, bound, maxArgs, owned, found, noted.trans (congrArg some amended), opened, ?_⟩
    rw [named]
    exact Binding.isIdent_ctor_iff owned
  · intro type name signatures ident done
    obtain ⟨key, owned, done⟩ := Declare.exists_owner_of_ownerFor_bind done
    obtain ⟨conv, bound, maxArgs, named, found, here, noted, opened⟩ :=
      Declare.exists_noted_of_bindOverloads rfl (contains_of_owner owned) done
    have amended : (Entry.method key bound).amend conv =
        { conv with methods := conv.methods ++ [bound] } := if_pos here
    refine ⟨key, conv, bound, maxArgs, owned, found, noted.trans (congrArg some amended), opened, ?_⟩
    rw [named]
    exact Binding.isIdent_method_iff owned ident

/-- Two colons in front of an owner, and those inside it, all become underscores. -/
theorem bound_symbol_is_identifier_iff_unspaced_rooted :
    let session := (Session.start "demo" Dispatch.plainTarget {}).run [.beginClass "geo::Node"]
    let method := Declare.bindMethod "::geo::Node" "grow" [⟨"void", []⟩]
    let middle := method.leaves session
    let ctor := Declare.bindConstructor "geo::Node" [[], ["geo::Node *"]]
    let after := ctor.leaves middle
    IsIdent "grow".toList ∧ Unspaced "::geo::Node" ∧ Unspaced "geo::Node" ∧
      method session = .ok () middle ∧ ctor middle = .ok () after ∧
      after.entries.map (·.proxy) = ["___geo__Node__grow__", "_geo__Node__constructor__"] ∧
      ∀ entry ∈ after.entries, IsIdent entry.proxy.toList := by
  intro session method middle ctor after
  have grow : IsIdent "grow".toList := ⟨rfl, List.all_eq_true.mp rfl⟩
  have rooted : Unspaced "::geo::Node" := by decide +kernel
  have plain : Unspaced "geo::Node" := by decide +kernel
  have first : method session = .ok () middle := Declare.eq_ok_of_accepts (by decide +kernel)
  have second : ctor middle = .ok () after := Declare.eq_ok_of_accepts (by decide +kernel)
  have none : session.entries = [] := by decide +kernel
  obtain ⟨_, _, _, _, -, -, -, opened, methodIff⟩ :=
    (bound_symbol_is_identifier_iff_unspaced session middle).2 _ _ _ grow first
  obtain ⟨_, _, _, _, -, -, -, openedNext, ctorIff⟩ :=
    (bound_symbol_is_identifier_iff_unspaced middle after).1 _ _ second
  refine ⟨grow, rooted, plain, first, second, by decide +kernel, ?_⟩
  rw [openedNext, opened, none, List.nil_append, List.forall_mem_append,
    List.forall_mem_singleton, List.forall_mem_singleton]
  exact ⟨methodIff.mpr rooted, ctorIff.mpr plain⟩

/-- A method that is bound through a reference to its type has the mark in its symbol. -/
theorem owner_mark_stays_in_symbol :
    let session := (Session.start "demo" Dispatch.plainTarget {}).run [.beginClass "A"]
    let method := Declare.bindMethod "A &" "f" [⟨"void", []⟩]
    let after := method.leaves session
    IsIdent "f".toList ∧ method session = .ok () after ∧
      after.registry.converters.map (·.methods.map (·.proxy)) = [["_A &__f__"]] ∧
      after.entries = [⟨.method, "_A &__f__", 0⟩] ∧ ¬ IsIdent "_A &__f__".toList := by
  intro session method after
  have done : method session = .ok () after := Declare.eq_ok_of_accepts (by decide +kernel)
  refine ⟨⟨rfl, List.all_eq_true.mp rfl⟩, done, by decide +kernel, by decide +kernel, ?_⟩
  intro symbol
  cases symbol.parts '&' (by decide)

end Bindery
