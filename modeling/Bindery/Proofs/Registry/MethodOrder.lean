import Bindery.Proofs.Registry.Ancestors
import Bindery.Proofs.Registry.Growth

/-!
# The order of inherited methods

A type lists its own methods first.  Then its bases are gone up, one after the other
and each with its own bases, and a method is added unless one of its name is listed.
A base that is shared is gone up again every time it is met; by then all the names in
and above it are listed, so this adds nothing, and the methods are those met along the
ancestors, where every type stands once.
-/

namespace Bindery.Registry

variable {registry : Registry}

section Listing

variable {listed methods : List OverloadSet}

theorem addInherited_of_mem {method : OverloadSet} (known : method.name ∈ listed.map (·.name)) :
    addInherited listed method = listed := by
  rw [addInherited, if_pos]
  simpa using known

theorem addInherited_of_not_mem {method : OverloadSet}
    (new : method.name ∉ listed.map (·.name)) :
    addInherited listed method = listed ++ [method] := by
  rw [addInherited, if_neg]
  simpa using new

theorem mem_names_foldl_addInherited {name : String} :
    name ∈ (methods.foldl addInherited listed).map (·.name) ↔
      name ∈ listed.map (·.name) ∨ name ∈ methods.map (·.name) := by
  induction methods generalizing listed with
  | nil => simp
  | cons method methods ih =>
      rw [List.foldl_cons, ih, List.map_cons, List.mem_cons]
      by_cases known : method.name ∈ listed.map (·.name)
      · rw [addInherited_of_mem known]
        constructor
        · rintro (old | later)
          · exact .inl old
          · exact .inr (.inr later)
        · rintro (old | rfl | later)
          · exact .inl old
          · exact .inl known
          · exact .inr later
      · rw [addInherited_of_not_mem known, List.map_append, List.mem_append, List.map_singleton,
          List.mem_singleton, or_assoc]

/-- Methods whose names are listed add nothing. -/
theorem foldl_addInherited_of_forall
    (known : ∀ method ∈ methods, method.name ∈ listed.map (·.name)) :
    methods.foldl addInherited listed = listed := by
  induction methods with
  | nil => rfl
  | cons method methods ih =>
      rw [List.forall_mem_cons] at known
      rw [List.foldl_cons, addInherited_of_mem known.1, ih known.2]

/-- What is added stands behind what was listed; every new name is added once, by the
first method that has it. -/
theorem exists_added (listed methods : List OverloadSet) :
    ∃ added, methods.foldl addInherited listed = listed ++ added ∧ (added.map (·.name)).Nodup ∧
      ∀ method ∈ added, method.name ∉ listed.map (·.name) ∧
        methods.find? (·.name = method.name) = some method := by
  induction methods generalizing listed with
  | nil => exact ⟨[], by simp⟩
  | cons method methods ih =>
      by_cases known : method.name ∈ listed.map (·.name)
      · rcases ih listed with ⟨added, same, nodup, first⟩
        refine ⟨added, by rw [List.foldl_cons, addInherited_of_mem known, same], nodup, ?_⟩
        intro other member
        rcases first other member with ⟨new, isFirst⟩
        have apart : method.name ≠ other.name := fun equal => new (equal ▸ known)
        exact ⟨new, by rwa [List.find?_cons_of_neg (by simpa using apart)]⟩
      · rcases ih (listed ++ [method]) with ⟨added, same, nodup, first⟩
        have new : ∀ other ∈ added, other.name ∉ listed.map (·.name) ∧ method.name ≠ other.name := by
          intro other member
          have absent := (first other member).1
          rw [List.map_append, List.mem_append, not_or] at absent
          exact ⟨absent.1, fun equal => absent.2 (by simp [equal])⟩
        refine ⟨method :: added, ?_, ?_, ?_⟩
        · rw [List.foldl_cons, addInherited_of_not_mem known, same, List.append_assoc]
          rfl
        · rw [List.map_cons, List.nodup_cons]
          refine ⟨?_, nodup⟩
          intro repeated
          rcases List.mem_map.mp repeated with ⟨other, member, equal⟩
          exact (new other member).2 equal.symm
        · rw [List.forall_mem_cons]
          refine ⟨⟨known, by simp⟩, ?_⟩
          intro other member
          rcases new other member with ⟨absent, apart⟩
          exact ⟨absent, by
            rw [List.find?_cons_of_neg (by simpa using apart)]
            exact (first other member).2⟩

end Listing

/-- The methods declared on a type itself; an unregistered key has none. -/
def methodsOf (registry : Registry) (key : TypeKey) : List OverloadSet :=
  match registry.find? key with
  | some conv => conv.methods
  | none => []

/-- What becomes of a list of methods when the given types are gone up: the methods of
each are added, and its bases are gone up before the next.  Nothing bounds the chains
of bases, and no type is remembered. -/
inductive Gathers (registry : Registry) : (keys : List TypeKey) →
    (listed result : List OverloadSet) → Prop where
  | nil (listed : List OverloadSet) : Gathers registry [] listed listed
  | cons {key : TypeKey} {keys : List TypeKey} {listed middle result : List OverloadSet}
      (above : Gathers registry (registry.basesOf key)
        ((registry.methodsOf key).foldl addInherited listed) middle)
      (others : Gathers registry keys middle result) :
      Gathers registry (key :: keys) listed result

theorem basesOf_of_find? {key : TypeKey} {conv : Converter}
    (found : registry.find? key = some conv) : registry.basesOf key = conv.bases := by
  rw [basesOf, found]

theorem methodsOf_of_find? {key : TypeKey} {conv : Converter}
    (found : registry.find? key = some conv) : registry.methodsOf key = conv.methods := by
  rw [methodsOf, found]

theorem inherit_succ (depth : Nat) (listed : List OverloadSet) (key : TypeKey) :
    registry.inherit (depth + 1) listed key =
      (registry.basesOf key).foldl (registry.inherit depth)
        ((registry.methodsOf key).foldl addInherited listed) := by
  rw [inherit, basesOf, methodsOf]
  cases registry.find? key <;> rfl

/-- A bound on the depth is not felt as long as the types have fewer ancestors. -/
theorem Sound.gathers_inherit (sound : registry.Sound) {depth : Nat} {keys : List TypeKey}
    (enough : ∀ key ∈ keys, (registry.ancestors key).length < depth) (listed : List OverloadSet) :
    registry.Gathers keys listed (keys.foldl (registry.inherit depth) listed) := by
  induction depth generalizing keys listed with
  | zero =>
      cases keys with
      | nil => exact .nil listed
      | cons key keys => exact absurd (enough key List.mem_cons_self) (Nat.not_lt_zero _)
  | succ depth ih =>
      induction keys generalizing listed with
      | nil => exact .nil listed
      | cons key keys others =>
          rw [List.forall_mem_cons] at enough
          rw [List.foldl_cons, inherit_succ]
          refine .cons (ih ?_ _) (others enough.2 _)
          intro base link
          have fewer := sound.length_ancestors_lt link
          omega

theorem Sound.gathers_allMethods (sound : registry.Sound) {conv : Converter}
    (registered : conv ∈ registry.converters) :
    registry.Gathers conv.bases conv.methods (registry.allMethods conv.key) := by
  have found := find?_eq_some_iff.mpr ⟨registered, rfl⟩
  have methods : registry.allMethods conv.key =
      conv.bases.foldl (registry.inherit registry.size) conv.methods := by
    rw [allMethods, found]
  rw [methods]
  apply sound.gathers_inherit
  intro base listed
  rw [← basesOf_of_find? found] at listed
  exact Nat.lt_of_lt_of_le (sound.length_ancestors_lt listed) (sound.length_ancestors_le conv.key)

/-! ## Along the ancestors -/

/-- Every method of a type is listed by name. -/
def Covers (registry : Registry) (listed : List OverloadSet) (key : TypeKey) : Prop :=
  ∀ method ∈ registry.methodsOf key, method.name ∈ listed.map (·.name)

section Covering

variable {listed : List OverloadSet} {key : TypeKey}

theorem Covers.foldl (covers : registry.Covers listed key) (methods : List OverloadSet) :
    registry.Covers (methods.foldl addInherited listed) key :=
  fun method member => mem_names_foldl_addInherited.mpr (.inl (covers method member))

theorem covers_foldl_of_mem {keys : List TypeKey} (member : key ∈ keys) :
    registry.Covers ((keys.flatMap registry.methodsOf).foldl addInherited listed) key := by
  intro method declared
  apply mem_names_foldl_addInherited.mpr
  exact .inr (List.mem_map_of_mem (List.mem_flatMap.mpr ⟨key, member, declared⟩))

/-- Going up types adds nothing if they and all that they lead to are covered. -/
theorem Gathers.eq_of_covers {keys : List TypeKey} {result : List OverloadSet}
    (gathers : registry.Gathers keys listed result)
    (covers : ∀ key ∈ keys, ∀ other, Relation.ReflTransGen registry.DirectBase key other →
      registry.Covers listed other) : result = listed := by
  induction gathers with
  | nil listed => rfl
  | @cons key keys listed middle result _ _ aboveIh othersIh =>
      rw [List.forall_mem_cons] at covers
      have own : (registry.methodsOf key).foldl addInherited listed = listed :=
        foldl_addInherited_of_forall (covers.1 key .refl)
      rw [own] at aboveIh
      have unchanged : middle = listed := aboveIh fun base link other chain =>
        covers.1 other (.head link chain)
      subst unchanged
      exact othersIh covers.2

end Covering

/-- Going up types adds the methods along the walk over them, where every type is met
once: what the walk passes over is finished, hence covered. -/
theorem Gathers.eq_of_walk (acyclic : ∀ key, ¬ Relation.TransGen registry.DirectBase key key)
    {seen agenda met : List TypeKey} (walk : Graph.Walk registry.basesOf seen agenda met)
    (underway : Graph.Underway registry.basesOf seen agenda) {listed result : List OverloadSet}
    (covers : ∀ key ∈ seen, registry.Covers listed key)
    (gathers : registry.Gathers agenda listed result) :
    result = (met.flatMap registry.methodsOf).foldl addInherited listed := by
  induction walk generalizing listed result with
  | done seen =>
      cases gathers
      rfl
  | pass known _ ih =>
      rcases gathers with _ | ⟨above, others⟩
      have finished := underway.finished acyclic known
      have unchanged := Gathers.eq_of_covers (.cons above (.nil _)) fun key listedKey other chain =>
        covers other (finished other (List.mem_singleton.mp listedKey ▸ chain))
      subst unchanged
      exact ih underway.tail covers others
  | @visit seen agenda first later node _ below _ belowIh behindIh =>
      rcases gathers with _ | ⟨above, others⟩
      have nodeCovered : ∀ key ∈ seen ++ [node],
          registry.Covers ((registry.methodsOf node).foldl addInherited listed) key := by
        rw [List.forall_mem_append, List.forall_mem_singleton]
        refine ⟨fun key member => (covers key member).foldl _, ?_⟩
        simpa using covers_foldl_of_mem (List.mem_singleton_self node)
      have through := belowIh underway.below nodeCovered above
      subst through
      rw [← List.foldl_append, ← List.flatMap_cons] at others
      have allCovered : ∀ key ∈ seen ++ node :: first,
          registry.Covers (((node :: first).flatMap registry.methodsOf).foldl addInherited listed)
            key := by
        rw [List.forall_mem_append]
        exact ⟨fun key member => (covers key member).foldl _, fun _ => covers_foldl_of_mem⟩
      rw [behindIh (underway.of_visit acyclic below) allCovered others, ← List.foldl_append,
        ← List.flatMap_append, List.cons_append]

/-- Going up the bases of a type comes to the methods along its ancestors. -/
theorem Sound.gathers_iff (sound : registry.Sound) {conv : Converter}
    (registered : conv ∈ registry.converters) (result : List OverloadSet) :
    registry.Gathers conv.bases conv.methods result ↔
      result = ((registry.ancestors conv.key).flatMap registry.methodsOf).foldl addInherited
        conv.methods := by
  have bases := basesOf_of_find? (find?_eq_some_iff.mpr ⟨registered, rfl⟩)
  have walk := registry.walk_ancestors conv.key
  rw [bases] at walk
  have along {other : List OverloadSet} (gathers : registry.Gathers conv.bases conv.methods other) :
      other = _ :=
    gathers.eq_of_walk sound.acyclic walk (by simp [Graph.Underway]) (by simp)
  constructor
  · exact along
  · rintro rfl
    have gathers := sound.gathers_allMethods registered
    rwa [along gathers] at gathers

/-- The methods of a registered type, in every registry that has grown.  Going up its
bases, however often that meets a type, comes to an end, and to this list: its own
methods, and then those met along its ancestors whose names are not listed yet.  So
every name that is declared on the type or on an ancestor is listed, and each one that
it inherits is listed once, as declared on the first ancestor that has it. -/
theorem allMethods_resolution_order (grown : registry.Grown) {conv : Converter}
    (registered : conv ∈ registry.converters) :
    (∀ result, registry.Gathers conv.bases conv.methods result ↔
        result = registry.allMethods conv.key) ∧
      registry.allMethods conv.key =
        ((registry.ancestors conv.key).flatMap registry.methodsOf).foldl addInherited
          conv.methods ∧
      (∀ owner ∈ conv.key :: registry.ancestors conv.key, ∀ method ∈ registry.methodsOf owner,
        method.name ∈ (registry.allMethods conv.key).map (·.name)) ∧
      ∃ inherited, registry.allMethods conv.key = conv.methods ++ inherited ∧
        (inherited.map (·.name)).Nodup ∧
        ∀ method ∈ inherited, method.name ∉ conv.methods.map (·.name) ∧
          ∃ nearer owner farther, registry.ancestors conv.key = nearer ++ owner :: farther ∧
            (∀ other ∈ nearer, method.name ∉ (registry.methodsOf other).map (·.name)) ∧
            (registry.methodsOf owner).find? (·.name = method.name) = some method := by
  have along := grown.sound.gathers_iff registered
  have listing := (along _).mp (grown.sound.gathers_allMethods registered)
  rw [← listing] at along
  refine ⟨along, listing, ?_, ?_⟩
  · rw [listing]
    intro owner member method declared
    rw [mem_names_foldl_addInherited]
    rcases List.mem_cons.mp member with rfl | above
    · rw [methodsOf_of_find? (find?_eq_some_iff.mpr ⟨registered, rfl⟩)] at declared
      exact .inl (List.mem_map_of_mem declared)
    · exact .inr (List.mem_map_of_mem (List.mem_flatMap.mpr ⟨owner, above, declared⟩))
  · rcases exists_added conv.methods ((registry.ancestors conv.key).flatMap registry.methodsOf) with
      ⟨inherited, same, nodup, first⟩
    refine ⟨inherited, listing.trans same, nodup, ?_⟩
    intro method member
    rcases first method member with ⟨new, isFirst⟩
    refine ⟨new, ?_⟩
    rw [List.find?_flatMap, List.findSome?_eq_some_iff] at isFirst
    rcases isFirst with ⟨nearer, owner, farther, split, declared, before⟩
    refine ⟨nearer, owner, farther, split, ?_, declared⟩
    intro other isNearer
    have absent := List.find?_eq_none.mp (before other isNearer)
    simpa using absent

/-- `Disc` keeps its own two methods of one name.  It takes `area` from `Round`, which
stands before `Flat` and `Shape`, and meets `Shape` through both. -/
theorem allMethods_resolution_order_diamond :
    let nullary : List Signature := [⟨"void", []⟩]
    let decls : List Declaration := [.beginClass "Shape", .beginClass "Round", .beginClass "Flat",
      .beginClass "Disc", .addBase "Round" "Shape", .addBase "Flat" "Shape",
      .addBase "Disc" "Round", .addBase "Disc" "Flat", .bindMethod "Shape" "area" nullary,
      .bindMethod "Shape" "name" nullary, .bindMethod "Round" "area" nullary,
      .bindMethod "Flat" "area" nullary, .bindMethod "Flat" "side" nullary,
      .bindMethod "Disc" "name" nullary, .bindMethod "Disc" "name" nullary]
    let registry := ((Session.start "demo" Dispatch.plainTarget {}).run decls).registry
    registry.Grown ∧ ∃ disc ∈ registry.converters, disc.canonical = "Disc" ∧
      (registry.allMethods disc.key).map (·.proxy) =
        ["_Disc__name__", "_Disc__name__", "_Round__area__", "_Flat__side__"] ∧
      registry.allMethods disc.key =
        ((registry.ancestors disc.key).flatMap registry.methodsOf).foldl addInherited
          disc.methods := by
  intro nullary decls registry
  have brings : Session.Brings Dispatch.plainTarget decls :=
    Session.brings_plainTarget (by simp [decls])
  have begun : (Session.start "demo" Dispatch.plainTarget {}).registry.Grown := .empty
  have grown : registry.Grown := begun.session brings
  have listed : registry.converters.map (fun conv => (conv.canonical, conv.key)) =
      ["Shape", "Round", "Flat", "Disc"].map fun name => (name, TypeKey.ofSpelling name) := by
    decide +kernel
  have last : ("Disc", TypeKey.ofSpelling "Disc") ∈
      registry.converters.map fun conv => (conv.canonical, conv.key) := by
    rw [listed]
    simp
  rcases List.mem_map.mp last with ⟨disc, registered, same⟩
  rcases Prod.mk.inj same with ⟨isDisc, isKey⟩
  refine ⟨grown, disc, registered, isDisc, ?_, (allMethods_resolution_order grown registered).2.1⟩
  rw [isKey]
  decide +kernel

end Bindery.Registry
