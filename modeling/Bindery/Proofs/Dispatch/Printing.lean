import Bindery.Proofs.Dispatch.Building
import Bindery.Proofs.Dispatch.Statement
import Bindery.Proofs.Registry.Lookup

/-!
# Generated code prints a statement

The code of a dispatch tree is laid out step by step, with keywords chosen by
the place of a rung and with the level of indentation moved up and down around
every body.  For a target whose hooks leave the level alone, the result is the
text of the tree's statement, and the writer is back at its level at the end.
-/

namespace Bindery

/-- The hooks of a target leave the level of indentation as they find it, opening
and closing an entry point taken together.  Inside an entry point code stands at
least two levels deep. -/
structure Target.Neutral (target : Target) : Prop where
  scope : ∀ entry level,
    Code.levelAfter (target.openEntry entry ++ target.closeEntry entry.kind) level = level
  wrapResult : ∀ conv type name inPointer ownership level, 2 ≤ level →
    Code.levelAfter (target.wrapResult conv type name inPointer ownership).1 level = level
  commit : ∀ results level, 2 ≤ level → Code.levelAfter (target.commit results) level = level
  raise : ∀ category message level, 2 ≤ level →
    Code.levelAfter (target.raise category message) level = level

namespace Dispatch

variable {emitter : Emitter} {level : Nat}

section CallSequences

variable (neutral : emitter.target.Neutral) (deep : 2 ≤ level)

theorem steady_convertSelf : emitter.convertSelf.Steady level := by
  unfold Emitter.convertSelf
  split
  · exact Draft.Steady.andThen rfl fun _ => rfl
  · rfl

theorem steady_convertArgs (index : Nat) (slots : List Argument) :
    (emitter.convertArgs index slots).Steady level := by
  induction slots generalizing index with
  | nil => rfl
  | cons slot rest ih =>
      apply Draft.Steady.andThen
      · rfl
      intro conv
      apply Draft.Steady.andThen
      · rfl
      intro _
      exact Draft.Steady.andThen (ih (index + 1)) fun _ => rfl

include neutral deep

theorem steady_convertResult (conv : Converter) (type : NativeType) (ownership : Ownership) :
    (emitter.convertResult conv type ownership).Steady level :=
  neutral.wrapResult _ _ _ _ _ level deep

theorem steady_callNative (callee : String) (result : Return) (args : String) :
    (emitter.callNative callee result args).Steady level := by
  unfold Emitter.callNative
  split
  · apply Draft.Steady.andThen
    · rfl
    intro conv
    apply Draft.Steady.andThen
    · rfl
    intro _
    exact Draft.Steady.andThen (steady_convertResult neutral deep _ _ _) fun _ => rfl
  · exact Draft.Steady.andThen rfl fun _ => rfl

theorem steady_construct (owner : TypeKey) (result : Return) (args : String) :
    (emitter.construct owner result args).Steady level := by
  apply Draft.Steady.andThen
  · rfl
  intro conv
  apply Draft.Steady.andThen
  · rfl
  intro _
  exact Draft.Steady.andThen (steady_convertResult neutral deep _ _ _) fun _ => rfl

theorem steady_invoke (result : Return) (args : String) :
    (emitter.invoke result args).Steady level := by
  unfold Emitter.invoke
  split
  · exact steady_construct neutral deep _ _ _
  · exact steady_callNative neutral deep _ _ _
  · exact steady_callNative neutral deep _ _ _

/-- A call sequence comes back to its level, wherever it stops. -/
theorem steady_callAt (index : Nat) : (emitter.callAt index).Steady level := by
  unfold Emitter.callAt
  split
  · apply Draft.Steady.andThen steady_convertSelf
    intro _
    apply Draft.Steady.andThen (steady_convertArgs _ _)
    intro args
    apply Draft.Steady.andThen (steady_invoke neutral deep _ _)
    intro results
    exact neutral.commit _ level deep
  · rfl

end CallSequences

theorem outcome_converter_eq_ok_iff {registry : Registry} {key : TypeKey} {conv : Converter} :
    (Draft.converter registry key).outcome = .ok conv ↔ registry.find? key = some conv := by
  rw [← Registry.get_eq_ok_iff]
  exact Outcome.mapError_eq_ok_iff

theorem rungs_cons_of_ok {argIndex : Nat} {first : Bool} {key : TypeKey} {next : Node}
    {rest : List (TypeKey × Node)}
    (emitted : (emitter.rungs argIndex first ((key, next) :: rest)).outcome = .ok ()) :
    ∃ conv, emitter.registry.find? key = some conv ∧
      (emitter.node next).outcome = .ok () ∧
      (emitter.rungs argIndex false rest).outcome = .ok () ∧
      (emitter.rungs argIndex first ((key, next) :: rest)).code =
        [.line (rungLine first (conv.hooks.check conv.toProfile (emitter.target.arg argIndex))),
            .indent] ++
          ((emitter.node next).code ++ ([.dedent] ++ (emitter.rungs argIndex false rest).code)) := by
  rw [Emitter.rungs] at emitted ⊢
  obtain ⟨conv, found, later⟩ := Draft.outcome_andThen_eq_ok_iff.mp emitted
  obtain ⟨⟨⟩, -, later⟩ := Draft.outcome_andThen_eq_ok_iff.mp later
  obtain ⟨⟨⟩, nodeDone, later⟩ := Draft.outcome_andThen_eq_ok_iff.mp later
  obtain ⟨⟨⟩, -, restDone⟩ := Draft.outcome_andThen_eq_ok_iff.mp later
  refine ⟨conv, outcome_converter_eq_ok_iff.mp found, nodeDone, restDone, ?_⟩
  rw [Draft.bind_eq, Draft.code_andThen found, Draft.bind_eq, Draft.code_andThen rfl,
    Draft.bind_eq, Draft.code_andThen nodeDone, Draft.bind_eq, Draft.code_andThen rfl]
  rfl

theorem node_check_of_ok {argIndex : Nat} {branches : List (TypeKey × Node)}
    (emitted : (emitter.node (.check argIndex branches)).outcome = .ok ()) :
    (emitter.rungs argIndex true branches).outcome = .ok () ∧
      (emitter.node (.check argIndex branches)).code =
        (emitter.rungs argIndex true branches).code ++
          otherwise (emitter.reject (.argumentType argIndex emitter.context)) := by
  rw [Emitter.node] at emitted ⊢
  obtain ⟨⟨⟩, rungsDone, -⟩ := Draft.outcome_andThen_eq_ok_iff.mp emitted
  refine ⟨rungsDone, ?_⟩
  rw [Draft.bind_eq, Draft.code_andThen rungsDone]
  rfl

theorem arms_cons_of_ok {first : Bool} {arm : Arm} {rest : List Arm}
    (emitted : (emitter.arms first (arm :: rest)).outcome = .ok ()) :
    (emitter.node arm.root).outcome = .ok () ∧
      (emitter.arms false rest).outcome = .ok () ∧
      (emitter.arms first (arm :: rest)).code =
        [.line (rungLine first (emitter.target.argCount ++ " == " ++ toString arm.argCount)),
            .indent] ++
          ((emitter.node arm.root).code ++ ([.dedent] ++ (emitter.arms false rest).code)) := by
  rw [Emitter.arms] at emitted ⊢
  obtain ⟨⟨⟩, -, later⟩ := Draft.outcome_andThen_eq_ok_iff.mp emitted
  obtain ⟨⟨⟩, nodeDone, later⟩ := Draft.outcome_andThen_eq_ok_iff.mp later
  obtain ⟨⟨⟩, -, restDone⟩ := Draft.outcome_andThen_eq_ok_iff.mp later
  refine ⟨nodeDone, restDone, ?_⟩
  rw [Draft.bind_eq, Draft.code_andThen rfl, Draft.bind_eq, Draft.code_andThen nodeDone,
    Draft.bind_eq, Draft.code_andThen rfl]
  rfl

/-! ## Ladders -/

theorem otherwise_prints (unit : String) (neutral : emitter.target.Neutral) (nested : 1 ≤ level)
    (rejection : Rejection) :
    Code.Prints (otherwise (emitter.reject rejection)) unit level
      ((Alternative.otherwise (.raise rejection.message)).print emitter unit level) := by
  have raised : Code.Prints (emitter.reject rejection) unit (level + 1) _ :=
    .of_levelAfter (neutral.raise _ _ _ (Nat.succ_le_succ nested))
  have ladderEnd := raised.rung "\x7d else \x7b" (.line "\x7d")
  rw [Alternative.print, Statement.print]
  simpa [otherwise, Emitter.reject] using ladderEnd

/-- The further branches of a check, up to the end of its ladder. -/
theorem branchAlternative_prints (unit : String) (neutral : emitter.target.Neutral)
    (deep : 2 ≤ level) (argIndex : Nat) {branches : List (TypeKey × Node)}
    (below : ∀ branch ∈ branches, (emitter.node branch.2).outcome = .ok () →
      Code.Prints (emitter.node branch.2).code unit (level + 1)
        ((branch.2.statement emitter.context).print emitter unit (level + 1)))
    (emitted : (emitter.rungs argIndex false branches).outcome = .ok ()) :
    Code.Prints ((emitter.rungs argIndex false branches).code ++
        otherwise (emitter.reject (.argumentType argIndex emitter.context))) unit level
      ((branchAlternative emitter.context argIndex branches).print emitter unit level) := by
  induction branches with
  | nil =>
      rw [Emitter.rungs, branchAlternative]
      exact otherwise_prints unit neutral (Nat.le_of_succ_le deep) _
  | cons branch rest ih =>
      rcases branch with ⟨key, next⟩
      obtain ⟨conv, found, nextDone, restDone, code_eq⟩ := rungs_cons_of_ok emitted
      have nextPrints := below (key, next) List.mem_cons_self nextDone
      have restPrints := ih (fun branch member => below branch (List.mem_cons_of_mem _ member))
        restDone
      have ladder := nextPrints.rung
        ("\x7d else if (" ++ conv.hooks.check conv.toProfile (emitter.target.arg argIndex) ++
          ") \x7b") restPrints
      rw [code_eq, branchAlternative, Alternative.print, Test.text, found]
      simpa [rungLine] using ladder

/-- The code of a node prints its statement. -/
theorem node_prints (unit : String) (neutral : emitter.target.Neutral) {node : Node}
    (full : node.Branching) (deep : 2 ≤ level) (emitted : (emitter.node node).outcome = .ok ()) :
    Code.Prints (emitter.node node).code unit level
      ((node.statement emitter.context).print emitter unit level) := by
  induction node generalizing level with
  | call proto =>
      rw [Emitter.node, Node.statement, Statement.print]
      exact .of_levelAfter (steady_callAt neutral deep proto)
  | check argIndex branches below =>
      rcases full with _ | ⟨_, some, belowFull⟩
      obtain ⟨rungsDone, code_eq⟩ := node_check_of_ok emitted
      rcases branches with _ | ⟨⟨key, next⟩, rest⟩
      · exact absurd rfl some
      · obtain ⟨conv, found, nextDone, restDone, rungs_eq⟩ := rungs_cons_of_ok rungsDone
        have printsBelow : ∀ branch ∈ (key, next) :: rest,
            (emitter.node branch.2).outcome = .ok () →
              Code.Prints (emitter.node branch.2).code unit (level + 1)
                ((branch.2.statement emitter.context).print emitter unit (level + 1)) :=
          fun branch member => below branch member (belowFull branch member)
            (Nat.le_succ_of_le deep)
        have restPrints := branchAlternative_prints unit neutral deep argIndex
          (fun branch member => printsBelow branch (List.mem_cons_of_mem _ member)) restDone
        have ladder := (printsBelow (key, next) List.mem_cons_self nextDone).rung
          ("if (" ++ conv.hooks.check conv.toProfile (emitter.target.arg argIndex) ++ ") \x7b")
          restPrints
        rw [code_eq, rungs_eq, Node.statement, Statement.print, Test.text, found]
        simpa [rungLine] using ladder

/-- The further arms of a tree, up to the end of its ladder. -/
theorem armAlternative_prints (unit : String) (neutral : emitter.target.Neutral)
    (nested : 1 ≤ level) {arms : List Arm} (full : ∀ arm ∈ arms, arm.root.Branching)
    (emitted : (emitter.arms false arms).outcome = .ok ()) :
    Code.Prints ((emitter.arms false arms).code ++
        otherwise (emitter.reject (.argumentCount emitter.context))) unit level
      ((armAlternative emitter.context arms).print emitter unit level) := by
  induction arms with
  | nil =>
      rw [Emitter.arms, armAlternative]
      exact otherwise_prints unit neutral nested _
  | cons arm rest ih =>
      obtain ⟨rootDone, restDone, code_eq⟩ := arms_cons_of_ok emitted
      have rootPrints := node_prints unit neutral (full arm List.mem_cons_self)
        (Nat.succ_le_succ nested) rootDone
      have restPrints := ih (fun arm member => full arm (List.mem_cons_of_mem _ member)) restDone
      have ladder := rootPrints.rung
        ("\x7d else if (" ++ (emitter.target.argCount ++ " == " ++ toString arm.argCount) ++
          ") \x7b") restPrints
      rw [code_eq, armAlternative, Alternative.print, Test.text]
      simpa [rungLine] using ladder

/-! ## Entry points -/

/-- The code between opening and closing an entry point. -/
def Emitter.body (emitter : Emitter) (arms : List Arm) : Code :=
  (emitter.arms true arms).code ++
    ([.line (if arms.isEmpty then "\x7b" else "\x7d else \x7b"), .indent] ++
      (emitter.reject (.argumentCount emitter.context) ++ [.dedent, .line "\x7d"]))

/-- The body of an entry point prints the statement of the tree. -/
theorem body_prints (unit : String) (neutral : emitter.target.Neutral) (nested : 1 ≤ level)
    {arms : List Arm} (full : ∀ arm ∈ arms, arm.root.Branching)
    (emitted : (emitter.arms true arms).outcome = .ok ()) :
    Code.Prints (emitter.body arms) unit level
      ((Tree.statement ⟨emitter.context, arms⟩).print emitter unit level) := by
  rcases arms with _ | ⟨arm, rest⟩
  · have raised : Code.Prints (emitter.reject (.argumentCount emitter.context)) unit (level + 1) _ :=
      .of_levelAfter (neutral.raise _ _ _ (Nat.succ_le_succ nested))
    have inBraces := raised.rung "\x7b" (.line "\x7d")
    rw [Tree.statement, Statement.print, Statement.print]
    simpa [Emitter.body, Emitter.arms, Emitter.reject] using inBraces
  · obtain ⟨rootDone, restDone, code_eq⟩ := arms_cons_of_ok emitted
    have rootPrints := node_prints unit neutral (full arm List.mem_cons_self)
      (Nat.succ_le_succ nested) rootDone
    have restPrints := armAlternative_prints unit neutral nested
      (fun arm member => full arm (List.mem_cons_of_mem _ member)) restDone
    have ladder := rootPrints.rung
      ("if (" ++ (emitter.target.argCount ++ " == " ++ toString arm.argCount) ++ ") \x7b")
      restPrints
    rw [Emitter.body, code_eq, Tree.statement, Statement.print, Test.text]
    simpa [rungLine, otherwise] using ladder

theorem emit_of_ok {target : Target} {registry : Registry} {binding : Binding}
    {protos : List Prototype} {tree : Tree}
    (emitted : (tree.emit target registry binding protos).outcome = .ok ()) :
    let emitter : Emitter := ⟨target, registry, binding, protos, tree.context⟩
    (emitter.arms true tree.arms).outcome = .ok () ∧
      (tree.emit target registry binding protos).code =
        target.openEntry ⟨binding.entryKind, binding.proxy, tree.maxArgCount⟩ ++
          ((.indent :: emitter.body tree.arms ++ [.dedent]) ++
            target.closeEntry binding.entryKind) := by
  intro emitter
  obtain ⟨⟨⟩, -, later⟩ := Draft.outcome_andThen_eq_ok_iff.mp emitted
  obtain ⟨⟨⟩, -, later⟩ := Draft.outcome_andThen_eq_ok_iff.mp later
  obtain ⟨⟨⟩, armsDone, -⟩ := Draft.outcome_andThen_eq_ok_iff.mp later
  have done : (emitter.arms true tree.arms).outcome = .ok () := armsDone
  refine ⟨done, ?_⟩
  rw [Tree.emit, Draft.bind_eq, Draft.code_andThen rfl, Draft.bind_eq, Draft.code_andThen rfl,
    Draft.bind_eq, Draft.code_andThen done]
  change target.openEntry _ ++ ([.indent] ++ ((emitter.arms true tree.arms).code ++
    ([.line _, .indent] ++ (emitter.reject _ ++
      ([.dedent, .line "\x7d", .dedent] ++ target.closeEntry _))))) = _
  simp [Emitter.body, emitter]

/-- What writing the code of a tree does to a writer. -/
theorem write_emit_of_ok {target : Target} {registry : Registry} {binding : Binding}
    {protos : List Prototype} {tree : Tree} (neutral : target.Neutral) (full : tree.Branching)
    (emitted : (tree.emit target registry binding protos).outcome = .ok ()) (writer : Writer) :
    let openCode := target.openEntry ⟨binding.entryKind, binding.proxy, tree.maxArgCount⟩
    let inner := Code.levelAfter openCode writer.level
    writer.write (tree.emit target registry binding protos).code =
      { writer with
        text := writer.text ++ (Code.textAt writer.unit writer.level openCode ++
          (tree.statement.print ⟨target, registry, binding, protos, tree.context⟩ writer.unit
              (inner + 1) ++
            Code.textAt writer.unit inner (target.closeEntry binding.entryKind))) } := by
  intro openCode inner
  obtain ⟨armsDone, code_eq⟩ := emit_of_ok emitted
  rcases writer with ⟨unit, level, before⟩
  have opened : Writer.write ⟨unit, level, before⟩ openCode =
      ⟨unit, inner, before ++ Code.textAt unit level openCode⟩ :=
    Writer.write_eq unit level before openCode
  have written := (body_prints unit neutral (Nat.le_add_left 1 inner) full armsDone).nested
    (before ++ Code.textAt unit level openCode)
  have returns : Code.levelAfter (target.closeEntry binding.entryKind) inner = level := by
    have scope := neutral.scope ⟨binding.entryKind, binding.proxy, tree.maxArgCount⟩ level
    rwa [Code.levelAfter_append] at scope
  rw [code_eq, Writer.write_append, opened, Writer.write_append, written, Writer.write_eq, returns]
  simp only [String.append_assoc]

/-- The code of an entry point decides every call as its tree does.  The code is
the text of a statement between what the target opens and closes the entry point
with, and it leaves the writer at its level; a run of the statement ends at the
call sequence of the prototype that the call is resolved to, or at the error
whose message is that of the rejection.  Trees that are built have a branch in
every check. -/
theorem emitted_code_decides_as_resolve :
    (∀ declared context tree, Tree.ofPrototypes declared context = .ok tree → tree.Branching) ∧
    ∀ (target : Target) (registry : Registry) (binding : Binding) (protos : List Prototype)
      (tree : Tree), target.Neutral → tree.Branching →
      (tree.emit target registry binding protos).outcome = .ok () →
      (∀ writer : Writer,
        let openCode := target.openEntry ⟨binding.entryKind, binding.proxy, tree.maxArgCount⟩
        let inner := Code.levelAfter openCode writer.level
        writer.write (tree.emit target registry binding protos).code =
          { writer with
            text := writer.text ++ (Code.textAt writer.unit writer.level openCode ++
              (tree.statement.print ⟨target, registry, binding, protos, tree.context⟩ writer.unit
                  (inner + 1) ++
                Code.textAt writer.unit inner (target.closeEntry binding.entryKind))) }) ∧
      (∀ argCount satisfies proto,
        tree.statement.run (Test.holds argCount satisfies) = .called proto ↔
          tree.resolve argCount satisfies = .ok proto) ∧
      ∀ argCount satisfies rejection,
        tree.statement.run (Test.holds argCount satisfies) = .raised rejection.message ↔
          tree.resolve argCount satisfies = .error rejection := by
  constructor
  · intro declared context tree built
    exact branching_ofPrototypes built
  · intro target registry binding protos tree neutral full emitted
    refine ⟨write_emit_of_ok neutral full emitted, ?_, ?_⟩
    · intro argCount satisfies proto
      rw [run_treeStatement, ending_eq_called_iff]
    · intro argCount satisfies rejection
      rw [run_treeStatement, ending_eq_raised_iff]

/-- Conversion texts that name what they do. -/
def plainHooks : Hooks where
  check profile input := "check_" ++ profile.clean ++ "(" ++ input ++ ")"
  toNative profile input outPointer :=
    "to_c_" ++ profile.clean ++ "(" ++ input ++ ", " ++ outPointer ++ ");\n"
  fromNative profile _ output inPointer ownership :=
    "value " ++ output ++ " = from_c_" ++ profile.clean ++ "(" ++ inPointer ++ ", " ++
      ownership.text ++ ");\n"

/-- A target whose entry points are blocks. -/
def plainTarget : Target where
  language := "Plain"
  openEntry entry := [.line ("proxy " ++ entry.proxy ++ " \x7b")]
  closeEntry _ := [.line "\x7d"]
  arg index := "args[" ++ toString index ++ "]"
  self := "self"
  commit results := [.line ("return " ++ ", ".intercalate results ++ ";")]
  raise category message := [.line ("error(" ++ category ++ ", " ++ message ++ ");")]
  classConverter name := Converter.make name none plainHooks

theorem plainTarget_neutral : plainTarget.Neutral :=
  ⟨fun _ _ => rfl, fun _ _ _ _ _ _ _ => rfl, fun _ _ _ => rfl, fun _ _ _ _ => rfl⟩

/-- The converter of `int`. -/
def intConverter : Converter :=
  .ofTypes ⟨false, none, .simple "int", []⟩ ⟨false, none, .simple "int", []⟩ plainHooks

/-- A registry of `int` and of a class `Node` that is stored by pointer. -/
def nodeRegistry : Except RegistryError Registry := do
  let registry ← Registry.register {} intConverter
  registry.register (.ofTypes ⟨false, none, .simple "Node", []⟩
    ⟨false, none, .simple "Node", [.pointer]⟩ plainHooks)

/-- Overloads for one argument of two types, and one for two arguments. -/
theorem emitted_code_decides_two_arms :
    let void : Return := ⟨⟨false, none, .simple "void", []⟩, none⟩
    let int : Argument := ⟨⟨intConverter.type, none⟩, intConverter.key⟩
    let node : Argument :=
      ⟨⟨⟨false, none, .simple "Node", [.pointer]⟩, none⟩, TypeKey.ofName "Node"⟩
    let protos : List Prototype := [⟨void, [int]⟩, ⟨void, [node]⟩, ⟨void, [int, node]⟩]
    let tree : Tree := ⟨"function f",
      [⟨1, .check 0 [(int.converter, .call 0), (node.converter, .call 1)]⟩,
        ⟨2, .check 0 [(int.converter, .check 1 [(node.converter, .call 2)])]⟩]⟩
    let lines : List String := [
      "proxy _f__ \x7b",
      "\tif (arg_count == 1) \x7b",
      "\t\tif (check_int(args[0])) \x7b",
      "\t\t\tint arg0;", "\t\t\tto_c_int(args[0], &arg0);", "\t\t\tf(arg0);", "\t\t\treturn ;",
      "\t\t\x7d else if (check_Node(args[0])) \x7b",
      "\t\t\tNode * arg0;", "\t\t\tto_c_Node(args[0], &arg0);", "\t\t\tf(arg0);",
      "\t\t\treturn ;",
      "\t\t\x7d else \x7b",
      "\t\t\terror(runtime, incorrect type for argument 0 to function f);",
      "\t\t\x7d",
      "\t\x7d else if (arg_count == 2) \x7b",
      "\t\tif (check_int(args[0])) \x7b",
      "\t\t\tif (check_Node(args[1])) \x7b",
      "\t\t\t\tint arg0;", "\t\t\t\tto_c_int(args[0], &arg0);",
      "\t\t\t\tNode * arg1;", "\t\t\t\tto_c_Node(args[1], &arg1);",
      "\t\t\t\tf(arg0, arg1);", "\t\t\t\treturn ;",
      "\t\t\t\x7d else \x7b",
      "\t\t\t\terror(runtime, incorrect type for argument 1 to function f);",
      "\t\t\t\x7d",
      "\t\t\x7d else \x7b",
      "\t\t\terror(runtime, incorrect type for argument 0 to function f);",
      "\t\t\x7d",
      "\t\x7d else \x7b",
      "\t\terror(runtime, incorrect number of arguments to function f);",
      "\t\x7d",
      "\x7d"]
    Tree.ofPrototypes protos "function f" = .ok tree ∧
      ∃ registry, nodeRegistry = .ok registry ∧
        (tree.emit plainTarget registry (.function "f") protos).outcome = .ok () ∧
        (Writer.write {} (tree.emit plainTarget registry (.function "f") protos).code).text =
          String.join (lines.map (· ++ "\n")) ∧
        "proxy _f__ \x7b\n" ++ (tree.statement.print
            ⟨plainTarget, registry, .function "f", protos, "function f"⟩ "\t" 1 ++ "\x7d\n") =
          String.join (lines.map (· ++ "\n")) ∧
        tree.statement.run (Test.holds 1 fun _ _ => true) = .called 0 ∧
        tree.statement.run (Test.holds 1 fun _ key => key = node.converter) = .called 1 ∧
        tree.statement.run (Test.holds 2 fun index key => index = 0 && key = int.converter) =
          .raised "incorrect type for argument 1 to function f" ∧
        tree.statement.run (Test.holds 3 fun _ _ => true) =
          .raised "incorrect number of arguments to function f" := by
  intro void int node protos tree lines
  have succeeds : (do
      let registry ← nodeRegistry.mapError .registry
      let draft := tree.emit plainTarget registry (.function "f") protos
      draft.outcome
      return (Writer.write {} draft.code).text : Except BindError String) =
      .ok (String.join (lines.map (· ++ "\n"))) := by
    decide +kernel
  obtain ⟨registry, made, succeeds⟩ := Outcome.bind_eq_ok_iff.mp succeeds
  obtain ⟨⟨⟩, emitted, same⟩ := Outcome.bind_eq_ok_iff.mp succeeds
  have text := Outcome.pure_eq_ok_iff.mp same
  have built : Tree.ofPrototypes protos "function f" = .ok tree := rfl
  obtain ⟨branching, decides⟩ := emitted_code_decides_as_resolve
  obtain ⟨prints, calls, raises⟩ := decides plainTarget registry (.function "f") protos tree
    plainTarget_neutral (branching _ _ _ built) emitted
  have printed := (congrArg Writer.text (prints {})).symm.trans text
  refine ⟨built, registry, Outcome.mapError_eq_ok_iff.mp made, emitted, text, ?_,
    (calls _ _ _).mpr (by decide +kernel), (calls _ _ _).mpr (by decide +kernel),
    (raises _ _ (.argumentType 1 "function f")).mpr (by decide +kernel),
    (raises _ _ (.argumentCount "function f")).mpr (by decide +kernel)⟩
  rw [← printed]
  rfl

end Dispatch

end Bindery
