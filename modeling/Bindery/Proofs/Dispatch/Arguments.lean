import Bindery.Proofs.Dispatch.Trie
import Bindery.Proofs.Generation

/-!
# Generated code stays within the arguments of a call

An entry point looks at the number of arguments first, and what stands behind
that test was put together by other loops: one over the levels of a tree, one
over the parameters of a prototype.  That neither reads past the arguments that
a call has, and that a prototype is handed as many as it takes, comes from how
the tree was built: a prototype is only ever called in the arm of its own number
of arguments.
-/

namespace Bindery.Dispatch

/-- A node checks arguments that a call with `argCount` arguments has, and calls
prototypes that take as many. -/
inductive Node.Serves (protos : List Prototype) (argCount : Nat) : Node → Prop where
  | call {index : Nat} {proto : Prototype} (declared : protos[index]? = some proto)
      (arity : proto.arity = argCount) : Serves protos argCount (.call index)
  | check {argIndex : Nat} {branches : List (TypeKey × Node)} (present : argIndex < argCount)
      (below : ∀ branch ∈ branches, Serves protos argCount branch.2) :
      Serves protos argCount (.check argIndex branches)

section Building

variable {protos : List Prototype} {context : String}

theorem serves_ofCandidates {argCount remaining argIndex : Nat} {candidates : List Candidate}
    {node : Node} (whole : argIndex + remaining = argCount)
    (declared : ∀ candidate ∈ candidates, ∃ proto,
      protos[candidate.index]? = some proto ∧ proto.arity = argCount)
    (built : Node.ofCandidates context remaining argIndex candidates = .ok node) :
    node.Serves protos argCount := by
  induction remaining generalizing argIndex candidates node with
  | zero =>
      rcases ofCandidates_zero_eq_ok_iff.mp built with ⟨candidate, rfl, rfl⟩
      rcases declared candidate List.mem_cons_self with ⟨proto, stands, arity⟩
      exact .call stands arity
  | succ remaining ih =>
      rcases ofCandidates_succ_eq_ok_iff.mp built with ⟨branches, rfl, branchesBuilt⟩
      apply Node.Serves.check
      -- One argument at least remains from here on.
      · omega
      · intro branch member
        rcases Outcome.exists_of_mem_right branchesBuilt member with
          ⟨group, groupMember, -, branchBuilt⟩
        apply ih (by omega) _ branchBuilt
        intro candidate inGroup
        exact declared candidate (mem_and_key_of_mem_group groupMember inGroup).1

/-- Every arm of a tree that is built is for the calls that reach it. -/
theorem serves_ofPrototypes {tree : Tree} (built : Tree.ofPrototypes protos context = .ok tree) :
    ∀ arm ∈ tree.arms, arm.root.Serves protos arm.argCount := by
  rcases ofPrototypes_eq_ok_iff.mp built with ⟨-, -, armsBuilt⟩
  intro arm member
  rcases Outcome.exists_of_mem_right armsBuilt member with
    ⟨group, groupMember, sameCount, rootBuilt⟩
  rw [sameCount]
  apply serves_ofCandidates (Nat.zero_add group.1) _ rootBuilt
  intro candidate inGroup
  rcases mem_and_key_of_mem_group groupMember inGroup with ⟨listed, arity⟩
  rcases List.mem_map.mp listed with ⟨⟨proto, index⟩, entry, rfl⟩
  exact ⟨proto, List.mem_zipIdx_iff_getElem?.mp entry, proto.length_converters.symm.trans arity⟩

/-- No arm is for more arguments than its tree takes. -/
theorem argCount_le_maxArgCount {tree : Tree} {arm : Arm} (member : arm ∈ tree.arms) :
    arm.argCount ≤ tree.maxArgCount := by
  have most := List.max?_eq_some_iff.mp (max?_argCounts (List.ne_nil_of_mem member))
  exact most.2 _ (List.mem_map_of_mem member)

end Building

/-- The emitter, with another way to write the arguments of a call. -/
def Emitter.fetching (emitter : Emitter) (fetch : Nat → String) : Emitter :=
  { emitter with target := { emitter.target with arg := fetch } }

section Fetching

variable {emitter : Emitter} {fetch : Nat → String}

theorem convertArgs_fetching {index argCount : Nat} {slots : List Argument}
    (same : ∀ i < argCount, fetch i = emitter.target.arg i)
    (present : index + slots.length ≤ argCount) :
    (emitter.fetching fetch).convertArgs index slots = emitter.convertArgs index slots := by
  induction slots generalizing index with
  | nil => rfl
  | cons slot rest ih =>
      rw [List.length_cons] at present
      rw [Emitter.convertArgs, Emitter.convertArgs, ih (by omega)]
      have here : (emitter.fetching fetch).target.arg index = emitter.target.arg index :=
        same index (by omega)
      rw [here]
      rfl

theorem callAt_fetching {index argCount : Nat} {proto : Prototype}
    (same : ∀ i < argCount, fetch i = emitter.target.arg i)
    (declared : emitter.protos[index]? = some proto) (arity : proto.arity = argCount) :
    (emitter.fetching fetch).callAt index = emitter.callAt index := by
  have converted : (emitter.fetching fetch).convertArgs 0 proto.args =
      emitter.convertArgs 0 proto.args :=
    convertArgs_fetching same ((Nat.zero_add _).le.trans arity.le)
  have declared' : (emitter.fetching fetch).protos[index]? = some proto := declared
  rw [Emitter.callAt, Emitter.callAt, declared, declared']
  simp only [Emitter.callSequence]
  rw [converted]
  rfl

theorem rungs_fetching {argIndex : Nat} {first : Bool} {branches : List (TypeKey × Node)}
    (same : fetch argIndex = emitter.target.arg argIndex)
    (below : ∀ branch ∈ branches, (emitter.fetching fetch).node branch.2 = emitter.node branch.2) :
    (emitter.fetching fetch).rungs argIndex first branches =
      emitter.rungs argIndex first branches := by
  induction branches generalizing first with
  | nil => rw [Emitter.rungs, Emitter.rungs]
  | cons branch rest ih =>
      rcases branch with ⟨key, next⟩
      have here : (emitter.fetching fetch).target.arg argIndex = emitter.target.arg argIndex := same
      rw [Emitter.rungs, Emitter.rungs, here, below (key, next) List.mem_cons_self,
        ih fun branch member => below branch (List.mem_cons_of_mem _ member)]
      rfl

/-- The code of a node does not depend on how arguments would be written that the call
does not have. -/
theorem node_fetching {argCount : Nat} {node : Node} (serves : node.Serves emitter.protos argCount)
    (same : ∀ i < argCount, fetch i = emitter.target.arg i) :
    (emitter.fetching fetch).node node = emitter.node node := by
  induction serves with
  | call declared arity =>
      rw [Emitter.node, Emitter.node, callAt_fetching same declared arity]
  | check present _ ih =>
      rw [Emitter.node, Emitter.node, rungs_fetching (same _ present) ih]
      rfl

end Fetching

/-! ## The statements of a call -/

namespace Emitter

/-- The statements that convert one argument into a variable of its own: its declaration,
and what the hooks of the type give for the argument, as the target writes it, and the address
of the variable. -/
def conversion (emitter : Emitter) (conv : Converter) (index : Nat) : Code :=
  let name := "arg" ++ toString index
  [.line (conv.storage.declare name ++ ";"),
    .block (conv.hooks.toNative conv.toProfile (emitter.target.arg index) ("&" ++ name))]

/-- The variable of an argument, as it is handed to a native call. -/
def handed (slot : Argument) (conv : Converter) (index : Nat) : String :=
  adjust ("arg" ++ toString index) conv.storage.marks slot.param.type.marks

/-- Where the result of a function or method goes. -/
def received (result : Return) : String :=
  match result.converter with
  | some _ => result.type.declare "rval" ++ " = "
  | none => ""

/-- A native call, up to its arguments. -/
def opening (emitter : Emitter) (result : Return) : String :=
  match emitter.binding with
  | .ctor _ _ =>
      (result.type.withMark .pointer).declare "rval" ++ " = new " ++ result.type.canonical
  | .function name => received result ++ name
  | .method _ name _ => received result ++ ("_self->" ++ name)

/-- `code` calls a prototype with `argCount` arguments: it converts each of them
once, in order, and hands all of them over, in order, and nothing else.  What
follows the call does not depend on what was handed over. -/
def CallsWith (emitter : Emitter) (argCount : Nat) (proto : Prototype) (code : Code) : Prop :=
  ∃ (used : List (Argument × Converter)) (wrapped : Code) (results : List String),
    used.length = argCount ∧ used.map Prod.fst = proto.args ∧
    (∀ entry ∈ used, emitter.registry.find? entry.1.converter = some entry.2) ∧
    (∀ args, emitter.invoke proto.result args =
      ⟨.line (emitter.opening proto.result ++ "(" ++ args ++ ");") :: wrapped, [], .ok results⟩) ∧
    code = emitter.convertSelf.code ++
      (used.zipIdx.flatMap (fun entry => emitter.conversion entry.1.2 entry.2) ++
        (.line (emitter.opening proto.result ++ "(" ++
            ", ".intercalate (used.zipIdx.map fun entry => handed entry.1.1 entry.1.2 entry.2) ++
              ");") ::
          (wrapped ++ emitter.target.commit results)))

end Emitter

section Calls

variable {emitter : Emitter}

theorem converter_eq_of_ok {registry : Registry} {key : TypeKey} {conv : Converter}
    (found : (Draft.converter registry key).outcome = .ok conv) :
    Draft.converter registry key = ⟨[], [], .ok conv⟩ := by
  rw [← found]
  rfl

theorem convertArgs_of_ok {index : Nat} {slots : List Argument} {handed : List String}
    (done : (emitter.convertArgs index slots).outcome = .ok handed) :
    ∃ used : List (Argument × Converter), used.map Prod.fst = slots ∧
      (∀ entry ∈ used, emitter.registry.find? entry.1.converter = some entry.2) ∧
      (emitter.convertArgs index slots).code =
        (used.zipIdx index).flatMap (fun entry => emitter.conversion entry.1.2 entry.2) ∧
      handed = (used.zipIdx index).map fun entry =>
        Emitter.handed entry.1.1 entry.1.2 entry.2 := by
  induction slots generalizing index handed with
  | nil =>
      cases done
      exact ⟨[], rfl, by simp, rfl, rfl⟩
  | cons slot rest ih =>
      rw [Emitter.convertArgs] at done ⊢
      rcases Draft.outcome_andThen_eq_ok_iff.mp done with ⟨conv, found, later⟩
      rcases Draft.outcome_andThen_eq_ok_iff.mp later with ⟨⟨⟩, -, later⟩
      rcases Draft.outcome_andThen_eq_ok_iff.mp later with ⟨others, restDone, last⟩
      cases last
      rcases ih restDone with ⟨used, slots_eq, registered, code_eq, rfl⟩
      refine ⟨(slot, conv) :: used, by rw [List.map_cons, slots_eq], ?_, ?_, rfl⟩
      · intro entry member
        rcases List.mem_cons.mp member with rfl | member
        · exact outcome_converter_eq_ok_iff.mp found
        · exact registered entry member
      · rw [Draft.bind_eq, Draft.code_andThen found, Draft.bind_eq, Draft.code_andThen rfl,
          Draft.bind_eq, Draft.code_andThen restDone, code_eq, List.zipIdx_cons,
          List.flatMap_cons]
        simp [Emitter.conversion, Converter.toNative, Draft.converter, Draft.ofExcept, Draft.write]

theorem callNative_of_ok {callee args : String} {result : Return} {results : List String}
    (done : (emitter.callNative callee result args).outcome = .ok results) :
    ∃ wrapped, ∀ args, emitter.callNative callee result args =
      ⟨.line (Emitter.received result ++ callee ++ "(" ++ args ++ ");") :: wrapped, [],
        .ok results⟩ := by
  unfold Emitter.callNative at done ⊢
  unfold Emitter.received
  cases selected : result.converter with
  | none =>
      simp only [selected] at done ⊢
      cases done
      exact ⟨[], fun args => by simp [Draft.write]⟩
  | some key =>
      simp only [selected] at done ⊢
      rcases Draft.outcome_andThen_eq_ok_iff.mp done with ⟨conv, found, later⟩
      cases later
      rw [converter_eq_of_ok found]
      exact ⟨_, fun args => rfl⟩

theorem invoke_of_ok {args : String} {result : Return} {results : List String}
    (done : (emitter.invoke result args).outcome = .ok results) :
    ∃ wrapped, ∀ args, emitter.invoke result args =
      ⟨.line (emitter.opening result ++ "(" ++ args ++ ");") :: wrapped, [], .ok results⟩ := by
  unfold Emitter.invoke at done ⊢
  unfold Emitter.opening
  cases bound : emitter.binding with
  | function name =>
      simp only [bound] at done ⊢
      exact callNative_of_ok done
  | method owner name key =>
      simp only [bound] at done ⊢
      exact callNative_of_ok done
  | ctor owner key =>
      simp only [bound] at done ⊢
      rcases Draft.outcome_andThen_eq_ok_iff.mp done with ⟨conv, found, later⟩
      cases later
      unfold Emitter.construct
      rw [converter_eq_of_ok found]
      exact ⟨_, fun args => rfl⟩

theorem callsWith_of_ok {proto : Prototype}
    (done : (emitter.callSequence proto).outcome = .ok ()) :
    emitter.CallsWith proto.arity proto (emitter.callSequence proto).code := by
  rcases Draft.outcome_andThen_eq_ok_iff.mp done with ⟨⟨⟩, selfDone, later⟩
  rcases Draft.outcome_andThen_eq_ok_iff.mp later with ⟨handed, argsDone, later⟩
  rcases Draft.outcome_andThen_eq_ok_iff.mp later with ⟨results, invoked, -⟩
  rcases convertArgs_of_ok argsDone with ⟨used, slots_eq, registered, code_eq, rfl⟩
  rcases invoke_of_ok invoked with ⟨wrapped, invoke_eq⟩
  refine ⟨used, wrapped, results, ?_, slots_eq, registered, invoke_eq, ?_⟩
  · rw [Prototype.arity, ← slots_eq, List.length_map]
  · rw [Emitter.callSequence, Draft.bind_eq, Draft.code_andThen selfDone, Draft.bind_eq,
      Draft.code_andThen argsDone, Draft.bind_eq, Draft.code_andThen invoked, code_eq, invoke_eq]
    rfl

end Calls

/-! ## Ladders -/

namespace Emitter

/-- A rung of a ladder, at its place. -/
def rung (place : Nat) (condition : String) (body : Code) : Code :=
  .line ((if place = 0 then "if (" else "\x7d else if (") ++ condition ++ ") \x7b") ::
    .indent :: (body ++ [.dedent])

/-- The last rung of a ladder, which raises an error. -/
def lastRung (emitter : Emitter) (rejection : Rejection) : Code :=
  .line "\x7d else \x7b" :: .indent ::
    (emitter.target.raise Rejection.category rejection.message ++ [.dedent, .line "\x7d"])

/-- `code` decides among calls with `argCount` arguments as a node does: by
checks of arguments that such calls have, down to the statements that call a
prototype with as many. -/
inductive CodeFor (emitter : Emitter) (argCount : Nat) : Node → Code → Prop where
  | call {index : Nat} {proto : Prototype} {code : Code}
      (declared : emitter.protos[index]? = some proto)
      (calls : emitter.CallsWith argCount proto code) : CodeFor emitter argCount (.call index) code
  | check {argIndex : Nat} {branches : List (TypeKey × Node)} {bodies : List (Converter × Code)}
      (present : argIndex < argCount)
      (known : List.Forall₂ (fun branch body => emitter.registry.find? branch.1 = some body.1)
        branches bodies)
      (below : List.Forall₂ (fun branch body => CodeFor emitter argCount branch.2 body.2)
        branches bodies) :
      CodeFor emitter argCount (.check argIndex branches)
        (bodies.zipIdx.flatMap (fun entry =>
            rung entry.2
              (entry.1.1.hooks.check entry.1.1.toProfile (emitter.target.arg argIndex))
              entry.1.2) ++
          emitter.lastRung (.argumentType argIndex emitter.context))

end Emitter

section Ladders

variable {emitter : Emitter} {argCount : Nat}

theorem rungs_of_ok {argIndex place : Nat} {branches : List (TypeKey × Node)}
    (below : ∀ branch ∈ branches, (emitter.node branch.2).outcome = .ok () →
      emitter.CodeFor argCount branch.2 (emitter.node branch.2).code)
    (emitted : (emitter.rungs argIndex (place == 0) branches).outcome = .ok ()) :
    ∃ bodies : List (Converter × Code),
      List.Forall₂ (fun branch body => emitter.registry.find? branch.1 = some body.1)
        branches bodies ∧
      List.Forall₂ (fun branch body => emitter.CodeFor argCount branch.2 body.2)
        branches bodies ∧
      (emitter.rungs argIndex (place == 0) branches).code =
        (bodies.zipIdx place).flatMap fun entry =>
          Emitter.rung entry.2
            (entry.1.1.hooks.check entry.1.1.toProfile (emitter.target.arg argIndex))
            entry.1.2 := by
  induction branches generalizing place with
  | nil =>
      rw [Emitter.rungs]
      exact ⟨[], .nil, .nil, rfl⟩
  | cons branch rest ih =>
      rcases branch with ⟨key, next⟩
      rcases rungs_cons_of_ok emitted with ⟨conv, found, nextDone, restDone, code_eq⟩
      have notFirst : (place + 1 == 0) = false := rfl
      rw [← notFirst] at restDone code_eq
      rcases ih (fun branch member => below branch (List.mem_cons_of_mem _ member)) restDone with
        ⟨bodies, known, laidOut, rest_eq⟩
      refine ⟨(conv, (emitter.node next).code) :: bodies, .cons found known,
        .cons (below (key, next) List.mem_cons_self nextDone) laidOut, ?_⟩
      rw [code_eq, rest_eq, List.zipIdx_cons, List.flatMap_cons]
      simp [Emitter.rung, rungLine]

theorem node_codeFor {node : Node} (serves : node.Serves emitter.protos argCount)
    (emitted : (emitter.node node).outcome = .ok ()) :
    emitter.CodeFor argCount node (emitter.node node).code := by
  induction serves with
  | @call index proto declared arity =>
      rw [Emitter.node, Emitter.callAt, declared] at emitted ⊢
      rw [← arity]
      exact .call declared (callsWith_of_ok emitted)
  | check present _ ih =>
      rcases node_check_of_ok emitted with ⟨rungsDone, code_eq⟩
      have firstDone : (emitter.rungs _ (0 == 0) _).outcome = .ok () := rungsDone
      rcases rungs_of_ok ih firstDone with ⟨bodies, known, below, rungs_eq⟩
      have ladder_eq : (emitter.rungs _ true _).code = _ := rungs_eq
      rw [code_eq, ladder_eq]
      exact .check present known below

theorem arms_of_ok {place : Nat} {arms : List Arm}
    (emitted : (emitter.arms (place == 0) arms).outcome = .ok ()) :
    (∀ arm ∈ arms, (emitter.node arm.root).outcome = .ok ()) ∧
      (emitter.arms (place == 0) arms).code = (arms.zipIdx place).flatMap fun entry =>
        Emitter.rung entry.2 (emitter.target.argCount ++ " == " ++ toString entry.1.argCount)
          (emitter.node entry.1.root).code := by
  induction arms generalizing place with
  | nil => exact ⟨by simp, rfl⟩
  | cons arm rest ih =>
      rcases arms_cons_of_ok emitted with ⟨rootDone, restDone, code_eq⟩
      have notFirst : (place + 1 == 0) = false := rfl
      rw [← notFirst] at restDone code_eq
      rcases ih restDone with ⟨rootsDone, rest_eq⟩
      constructor
      · intro other member
        rcases List.mem_cons.mp member with rfl | member
        · exact rootDone
        · exact rootsDone other member
      · rw [code_eq, rest_eq, List.zipIdx_cons, List.flatMap_cons]
        simp [Emitter.rung, rungLine]

/-- The body of an entry point that has arms is one ladder. -/
theorem body_of_ok {arms : List Arm} (some : arms ≠ [])
    (emitted : (emitter.arms true arms).outcome = .ok ()) :
    emitter.body arms = arms.zipIdx.flatMap (fun entry =>
        Emitter.rung entry.2 (emitter.target.argCount ++ " == " ++ toString entry.1.argCount)
          (emitter.node entry.1.root).code) ++
      emitter.lastRung (.argumentCount emitter.context) := by
  have firstDone : (emitter.arms (0 == 0) arms).outcome = .ok () := emitted
  have ladder_eq : (emitter.arms true arms).code = _ := (arms_of_ok firstDone).2
  have lastLine : arms.isEmpty = false := by simpa using some
  rw [Emitter.body, ladder_eq, lastLine]
  rfl

end Ladders

theorem arms_ne_nil {protos : List Prototype} {context : String} {tree : Tree}
    (built : Tree.ofPrototypes protos context = .ok tree) : tree.arms ≠ [] := by
  rcases ofPrototypes_eq_ok_iff.mp built with ⟨someProto, -, armsBuilt⟩
  have someCandidate : Candidate.ofPrototypes protos ≠ [] := by
    simpa [Candidate.ofPrototypes] using someProto
  intro noArm
  rw [noArm] at armsBuilt
  exact groupBy_ne_nil Candidate.arity someCandidate (List.forall₂_nil_right_iff.mp armsBuilt)

/-- Generated code never reads an argument that a call does not have.  An entry point is
a ladder on the number of arguments.  Behind the test for `argCount` stand checks of
arguments below `argCount`, and call sequences that convert exactly those arguments, each
once and in order, and hand exactly those over; how any other argument would be written
makes no difference there.  No rung is for more arguments than the entry point is opened
with. -/
theorem emit_within_arguments {protos : List Prototype} {context : String} {tree : Tree}
    (built : Tree.ofPrototypes protos context = .ok tree) {target : Target} {registry : Registry}
    {binding : Binding} (emitted : (tree.emit target registry binding protos).outcome = .ok ()) :
    let emitter : Emitter := ⟨target, registry, binding, protos, tree.context⟩
    (tree.emit target registry binding protos).code =
        target.openEntry ⟨binding.entryKind, binding.proxy, tree.maxArgCount⟩ ++
          ((.indent ::
              (tree.arms.zipIdx.flatMap (fun entry =>
                  Emitter.rung entry.2 (target.argCount ++ " == " ++ toString entry.1.argCount)
                    (emitter.node entry.1.root).code) ++
                emitter.lastRung (.argumentCount tree.context)) ++ [.dedent]) ++
            target.closeEntry binding.entryKind) ∧
      ∀ arm ∈ tree.arms,
        arm.argCount ≤ tree.maxArgCount ∧
        emitter.CodeFor arm.argCount arm.root (emitter.node arm.root).code ∧
        ∀ fetch : Nat → String, (∀ i < arm.argCount, fetch i = target.arg i) →
          (emitter.fetching fetch).node arm.root = emitter.node arm.root := by
  intro emitter
  rcases emit_of_ok emitted with ⟨armsDone, code_eq⟩
  constructor
  · rw [code_eq, body_of_ok (arms_ne_nil built) armsDone]
  · intro arm member
    have serves : arm.root.Serves emitter.protos arm.argCount :=
      serves_ofPrototypes built arm member
    have firstDone : (emitter.arms (0 == 0) tree.arms).outcome = .ok () := armsDone
    have rootDone := (arms_of_ok firstDone).1 arm member
    exact ⟨argCount_le_maxArgCount member, node_codeFor serves rootDone,
      fun fetch same => node_fetching serves same⟩

/-- A method with an overload for two arguments and one for a single argument. -/
theorem emit_within_arguments_node :
    let binding : Binding := .method "Node" "set" (TypeKey.ofName "Node")
    let signatures : List Signature := [⟨"void", ["int id", "Node *next"]⟩, ⟨"Node &", ["int"]⟩]
    let codes : List (Nat × Code) := [
      (2, [.line "if (check_int(args[0])) \x7b", .indent,
        .line "if (check_Node(args[1])) \x7b", .indent,
        .line "Node * _self;", .block "to_c_Node(self, &_self);\n",
        .line "int arg0;", .block "to_c_int(args[0], &arg0);\n",
        .line "Node * arg1;", .block "to_c_Node(args[1], &arg1);\n",
        .line "_self->set(arg0, arg1);", .line "return ;",
        .dedent, .line "\x7d else \x7b", .indent,
        .line "error(runtime, incorrect type for argument 1 to Node.set method);",
        .dedent, .line "\x7d",
        .dedent, .line "\x7d else \x7b", .indent,
        .line "error(runtime, incorrect type for argument 0 to Node.set method);",
        .dedent, .line "\x7d"]),
      (1, [.line "if (check_int(args[0])) \x7b", .indent,
        .line "Node * _self;", .block "to_c_Node(self, &_self);\n",
        .line "int arg0;", .block "to_c_int(args[0], &arg0);\n",
        .line "Node & rval = _self->set(arg0);",
        .block "value rval_out = from_c_Node(&rval, NonOwning);\n", .line "return rval_out;",
        .dedent, .line "\x7d else \x7b", .indent,
        .line "error(runtime, incorrect type for argument 0 to Node.set method);",
        .dedent, .line "\x7d"])]
    ∃ registry protos tree, nodeRegistry = .ok registry ∧
      Signature.resolveAll registry binding signatures = .ok protos ∧
      Tree.ofPrototypes protos binding.text = .ok tree ∧ tree.maxArgCount = 2 ∧
      (tree.emit plainTarget registry binding protos).outcome = .ok () ∧
      let emitter : Emitter := ⟨plainTarget, registry, binding, protos, tree.context⟩
      tree.arms.map (fun arm => (arm.argCount, (emitter.node arm.root).code)) = codes ∧
        ∀ arm ∈ tree.arms,
          emitter.CodeFor arm.argCount arm.root (emitter.node arm.root).code ∧
          (emitter.fetching fun i => if i < arm.argCount then plainTarget.arg i else "").node
            arm.root = emitter.node arm.root := by
  intro binding signatures codes
  have succeeds : (do
      let registry ← nodeRegistry.mapError .registry
      let protos ← Signature.resolveAll registry binding signatures
      let tree ← Tree.ofPrototypes protos binding.text
      (tree.emit plainTarget registry binding protos).outcome
      let emitter : Emitter := ⟨plainTarget, registry, binding, protos, tree.context⟩
      return (tree.maxArgCount, tree.arms.map fun arm =>
        (arm.argCount, (emitter.node arm.root).code)) :
        Except BindError (Nat × List (Nat × Code))) = .ok (2, codes) := by
    decide +kernel
  rcases Outcome.bind_eq_ok_iff.mp succeeds with ⟨registry, made, succeeds⟩
  rcases Outcome.bind_eq_ok_iff.mp succeeds with ⟨protos, resolved, succeeds⟩
  rcases Outcome.bind_eq_ok_iff.mp succeeds with ⟨tree, built, succeeds⟩
  rcases Outcome.bind_eq_ok_iff.mp succeeds with ⟨⟨⟩, emitted, same⟩
  injection Outcome.pure_eq_ok_iff.mp same with most laidOut
  refine ⟨registry, protos, tree, Outcome.mapError_eq_ok_iff.mp made, resolved, built, most,
    emitted, laidOut, ?_⟩
  intro arm member
  rcases (emit_within_arguments built emitted).2 arm member with ⟨-, codeFor, unread⟩
  exact ⟨codeFor, unread _ fun i present => if_pos present⟩

end Bindery.Dispatch
