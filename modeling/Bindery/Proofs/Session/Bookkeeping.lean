import Bindery.Proofs.Session.Finishing

/-!
# What a session has on its books

The bound functions of a session are those of its accepted calls, in order, and
every registered type carries what accepted calls bound on it: the methods and
members in order, and the constructor that was bound last.  A call touches the
one type that its text selects and there only the one list that it adds to.
Whatever has been noted refers to registered types.
-/

namespace Bindery

namespace Entry

/-- The registered type that the entry changes. -/
def owner? : Entry → Option TypeKey
  | .link derived _ => some derived
  | .ctor owner _ => some owner
  | .method owner _ => some owner
  | .member owner _ => some owner
  | .type _ => none
  | .function _ => none

/-- The constructor that the entry gives to a type. -/
def ctorOf? (key : TypeKey) : Entry → Option OverloadSet
  | .ctor owner bound => if key = owner then some bound else none
  | _ => none

/-- The method that the entry adds to a type. -/
def methodOf? (key : TypeKey) : Entry → Option OverloadSet
  | .method owner bound => if key = owner then some bound else none
  | _ => none

/-- The member that the entry adds to a type. -/
def memberOf? (key : TypeKey) : Entry → Option Param
  | .member owner param => if key = owner then some param else none
  | _ => none

variable {entry : Entry} {conv : Converter}

theorem amend_eq_self (apart : entry.owner? ≠ some conv.key) : entry.amend conv = conv := by
  cases entry with
  | type _ => rfl
  | function _ => rfl
  | _ => exact if_neg fun same => apart (congrArg some same.symm)

/-- What is declared on a type does not make it another one. -/
theorem type_amend (entry : Entry) (conv : Converter) : (entry.amend conv).type = conv.type := by
  cases entry with
  | type _ => rfl
  | function _ => rfl
  | link derived base =>
      rw [amend, Converter.withBase]
      split
      · split <;> rfl
      · rfl
  | _ =>
      rw [amend]
      split <;> rfl

theorem key_amend (entry : Entry) (conv : Converter) : (entry.amend conv).key = conv.key := by
  rw [Profile.key_eq, Profile.key_eq, type_amend]

/-- What is bound on a type after an entry. -/
theorem bound_amend (entry : Entry) (conv : Converter) :
    (entry.amend conv).ctor = (entry.ctorOf? conv.key).or conv.ctor ∧
      (entry.amend conv).methods = conv.methods ++ (entry.methodOf? conv.key).toList ∧
      (entry.amend conv).members = conv.members ++ (entry.memberOf? conv.key).toList := by
  cases entry with
  | type _ => simp [amend, ctorOf?, methodOf?, memberOf?]
  | function _ => simp [amend, ctorOf?, methodOf?, memberOf?]
  | link derived base =>
      have kept : (conv.withBase base).ctor = conv.ctor ∧
          (conv.withBase base).methods = conv.methods ∧
          (conv.withBase base).members = conv.members := by
        unfold Converter.withBase
        split <;> exact ⟨rfl, rfl, rfl⟩
      by_cases here : conv.key = derived <;> simp [amend, ctorOf?, methodOf?, memberOf?, here, kept]
  | ctor owner bound =>
      by_cases here : conv.key = owner <;> simp [amend, ctorOf?, methodOf?, memberOf?, here]
  | method owner bound =>
      by_cases here : conv.key = owner <;> simp [amend, ctorOf?, methodOf?, memberOf?, here]
  | member owner param =>
      by_cases here : conv.key = owner <;> simp [amend, ctorOf?, methodOf?, memberOf?, here]

/-- A type after entries. -/
def amendAll (entries : List Entry) (conv : Converter) : Converter :=
  entries.foldl (fun amended entry => entry.amend amended) conv

theorem type_amendAll (entries : List Entry) (conv : Converter) :
    (amendAll entries conv).type = conv.type := by
  induction entries generalizing conv with
  | nil => rfl
  | cons entry rest ih => exact (ih (entry.amend conv)).trans (entry.type_amend conv)

theorem key_amendAll (entries : List Entry) (conv : Converter) :
    (amendAll entries conv).key = conv.key := by
  rw [Profile.key_eq, Profile.key_eq, type_amendAll]

/-- What is bound on a type after entries: all methods and members that they add,
and the last constructor. -/
theorem bound_amendAll (entries : List Entry) (conv : Converter) :
    (amendAll entries conv).ctor =
        ((entries.filterMap (ctorOf? conv.key)).getLast?).or conv.ctor ∧
      (amendAll entries conv).methods =
        conv.methods ++ entries.filterMap (methodOf? conv.key) ∧
      (amendAll entries conv).members =
        conv.members ++ entries.filterMap (memberOf? conv.key) := by
  induction entries generalizing conv with
  | nil => simp [amendAll]
  | cons entry rest ih =>
      obtain ⟨ctor, methods, members⟩ := entry.bound_amend conv
      obtain ⟨restCtor, restMethods, restMembers⟩ := ih (entry.amend conv)
      rw [entry.key_amend] at restCtor restMethods restMembers
      rw [ctor] at restCtor
      rw [methods, List.append_assoc] at restMethods
      rw [members, List.append_assoc] at restMembers
      refine ⟨restCtor.trans ?_, restMethods.trans ?_, restMembers.trans ?_⟩
      · cases given : entry.ctorOf? conv.key with
        | none => simp [given]
        | some bound =>
            cases later : (rest.filterMap (ctorOf? conv.key)).getLast? <;>
              simp [given, List.getLast?_cons, later]
      · cases given : entry.methodOf? conv.key <;> simp [given]
      · cases given : entry.memberOf? conv.key <;> simp [given]

end Entry

namespace Registry

variable {registry next : Registry}

theorem Takes.keys_eq {entry : Entry} (taken : registry.Takes entry next) :
    next.keys = registry.keys ++ entry.types.map (·.key) := by
  rw [keys, taken.converters_eq, Entry.apply, List.map_append, List.map_map, keys]
  congr 1
  apply List.map_congr_left
  intro conv _
  exact entry.key_amend conv

/-- Entries are about registered types. -/
theorem Takes.contains_owner {entry : Entry} (taken : registry.Takes entry next) {key : TypeKey}
    (owned : entry.owner? = some key) : key ∈ registry.keys := by
  rw [← contains_iff_mem_keys]
  cases taken with
  | type _ => cases owned
  | function _ => cases owned
  | link accepted =>
      cases owned
      exact (addBase_eq_ok_iff.mp accepted).1.1
  | ctor known _ =>
      cases owned
      exact known
  | method known _ =>
      cases owned
      exact known
  | member known =>
      cases owned
      exact known

namespace TakesAll

variable {entries : List Entry}

theorem keys_eq (taken : registry.TakesAll entries next) :
    next.keys = registry.keys ++ (entries.flatMap Entry.types).map (·.key) := by
  induction taken with
  | nil => simp
  | cons first _ ih =>
      rw [ih, first.keys_eq, List.flatMap_cons, List.map_append, List.append_assoc]

/-- A type that is entered was not registered before. -/
theorem not_mem_keys (taken : registry.TakesAll entries next) {conv : Converter}
    (member : conv ∈ entries.flatMap Entry.types) : conv.key ∉ registry.keys := by
  have nodup := next.nodup_keys
  rw [taken.keys_eq, List.nodup_append] at nodup
  intro known
  exact nodup.2.2 _ known _ (List.mem_map_of_mem member) rfl

/-- The registered types are those from before and those entered, in order, each
amended by the entries.  An entry in front of a type's own does not concern it,
since it is about a type that is registered already. -/
theorem converters_eq_map (taken : registry.TakesAll entries next) :
    next.converters =
      (registry.converters ++ entries.flatMap Entry.types).map (Entry.amendAll entries) := by
  induction taken with
  | nil registry =>
      have unchanged : Entry.amendAll [] = id := rfl
      simp [unchanged]
  | @cons registry middle next entry rest first later ih =>
      have untouched {conv : Converter} (member : conv ∈ rest.flatMap Entry.types) :
          entry.amend conv = conv := by
        apply Entry.amend_eq_self
        intro owned
        have known := first.contains_owner owned
        exact later.not_mem_keys member (first.keys_eq ▸ List.mem_append_left _ known)
      have own : entry.types.map entry.amend = entry.types := by
        cases entry <;> rfl
      have amended : (registry.converters ++ (entry :: rest).flatMap Entry.types).map entry.amend =
          middle.converters ++ rest.flatMap Entry.types := by
        rw [List.flatMap_cons, List.map_append, List.map_append, own,
          List.map_congr_left fun conv member => untouched member, List.map_id',
          first.converters_eq, Entry.apply, List.append_assoc]
      rw [ih, ← amended, List.map_map]
      rfl

/-- A registered type is found under its key as the entries have amended it. -/
theorem find?_amendAll (taken : registry.TakesAll entries next) {key : TypeKey} {conv : Converter}
    (found : registry.find? key = some conv) :
    next.find? key = some (Entry.amendAll entries conv) := by
  obtain ⟨member, rfl⟩ := find?_eq_some_iff.mp found
  rw [find?_eq_some_iff, taken.converters_eq_map]
  exact ⟨List.mem_map_of_mem (List.mem_append_left _ member), Entry.key_amendAll entries conv⟩

/-- What is entered leaves registered types what they are. -/
theorem exists_find? (taken : registry.TakesAll entries next) {key : TypeKey} {conv : Converter}
    (found : registry.find? key = some conv) :
    ∃ later, next.find? key = some later ∧ later.type = conv.type :=
  ⟨_, taken.find?_amendAll found, Entry.type_amendAll entries conv⟩

end TakesAll

end Registry

/-- The overload set that the entry notes. -/
def Entry.sets : Entry → List OverloadSet
  | .function bound => [bound]
  | .ctor _ bound => [bound]
  | .method _ bound => [bound]
  | .type _ => []
  | .link _ _ => []
  | .member _ _ => []

section Settled

variable {registry next : Registry}

/-- What is settled stays so, since no type is ever taken off the registry. -/
theorem OverloadSet.Settled.mono {bound : OverloadSet} (settled : bound.Settled registry)
    (grown : registry.keys ⊆ next.keys) : bound.Settled next := by
  intro proto member
  obtain ⟨⟨args, result⟩, void⟩ := settled proto member
  refine ⟨⟨?_, ?_⟩, void⟩
  · intro slot isArg
    exact Registry.contains_of_subset grown (args slot isArg)
  · intro key isResult
    exact Registry.contains_of_subset grown (result key isResult)

theorem Registry.Takes.settled {entry : Entry} (taken : registry.Takes entry next) :
    ∀ bound ∈ entry.sets, bound.Settled registry := by
  intro bound member
  cases taken with
  | function settled =>
      cases List.mem_singleton.mp member
      exact settled
  | ctor _ settled =>
      cases List.mem_singleton.mp member
      exact settled
  | method _ settled =>
      cases List.mem_singleton.mp member
      exact settled
  | _ => cases member

theorem Registry.TakesAll.settled {entries : List Entry} (taken : registry.TakesAll entries next) :
    ∀ entry ∈ entries, ∀ bound ∈ entry.sets, bound.Settled next := by
  induction taken with
  | nil =>
      intro entry member
      cases member
  | @cons registry middle next entry rest first later ih =>
      intro other member bound isBound
      rcases List.mem_cons.mp member with rfl | member
      · apply (first.settled bound isBound).mono
        rw [later.keys_eq, first.keys_eq, List.append_assoc]
        exact List.subset_append_left _ _
      · exact ih other member bound isBound

end Settled

/-! ## Accepted calls -/

/-- Whether a call that is accepted leaves an entry of its own.  A list of members
leaves those of its members. -/
def Declaration.posts : Declaration → Bool
  | .bindType _ => true
  | .beginClass _ => true
  | .addBase _ _ => true
  | .bindFunction _ _ => true
  | .bindConstructor _ _ => true
  | .bindMethod _ _ _ => true
  | .bindMember _ _ => true
  | .bindTemplate _ _ _ => true
  | _ => false

namespace Declare

variable {α β : Type} {session : Session}

theorem exists_ok_of_accepts {decl : Declaration} {step : Declare α} {result : α → Option TypeKey}
    (performs : decl.perform = step >>= fun value => pure (result value))
    (accepted : decl.perform.accepts session = true) :
    ∃ value after, step session = .ok value after := by
  rw [Session.accepts_of_step performs] at accepted
  cases outcome : step session with
  | ok value after => exact ⟨value, after, rfl⟩
  | error error after =>
      rw [accepts_of_error outcome] at accepted
      cases accepted

theorem exists_bound?_of_bindOverloads {binding : Binding} {signatures : List Signature}
    {front : String} {result : Unit} {after : Session}
    (done : bindOverloads binding signatures front session = .ok result after) :
    ∃ bound, binding.bound? session.registry signatures = some bound := by
  change (ofExcept (Signature.resolveAll session.registry binding signatures) >>= _) session = _
    at done
  obtain ⟨protos, resolved, -⟩ := exists_of_ofExcept_bind done
  exists ⟨binding.boundName, binding.proxy, protos⟩
  rw [Binding.bound?, resolved]
  rfl

theorem exists_owner_of_ownerFor_bind {context text : String} {next : TypeKey → Declare β}
    {result : β} {after : Session}
    (done : (ownerFor context text >>= next) session = .ok result after) :
    ∃ key, session.registry.owner text = .ok key ∧ next key session = .ok result after := by
  rw [ownerFor, bind_assoc] at done
  rcases bind_eq_ok_iff.mp done with ⟨_, _, got, checked⟩
  cases got
  obtain ⟨key, owned, done⟩ := exists_of_ofExcept_bind checked
  exact ⟨key, Outcome.mapError_eq_ok_iff.mp owned, done⟩

end Declare

namespace Declaration

open Declare

variable {session : Session}

/-- A call that is accepted and leaves an entry had one to ask for. -/
theorem exists_posted?_of_accepts {decl : Declaration}
    (accepted : decl.perform.accepts session = true) (posts : decl.posts = true) :
    ∃ entry, decl.posted? session = some entry := by
  rw [posted?, if_pos accepted]
  cases decl with
  | bindType conv => exact ⟨_, rfl⟩
  | beginClass name =>
      obtain ⟨key, after, done⟩ : ∃ key after, Declare.beginClass name session = .ok key after :=
        exists_ok_of_accepts rfl accepted
      change (ofExcept ((session.target.classConverter name).mapError .malformed) >>= _) session = _
        at done
      obtain ⟨conv, made, -⟩ := exists_of_ofExcept_bind done
      exists .type conv
      rw [request?, Outcome.mapError_eq_ok_iff.mp made]
      rfl
  | addBase derived base =>
      obtain ⟨_, after, done⟩ : ∃ value after, Declare.addBase derived base session = .ok value after :=
        exists_ok_of_accepts rfl accepted
      change (ofExcept ((session.registry.require derived).mapError .registry) >>= _) session = _
        at done
      obtain ⟨derivedKey, derivedFound, done⟩ := exists_of_ofExcept_bind done
      obtain ⟨baseKey, baseFound, -⟩ := exists_of_ofExcept_bind done
      exists .link derivedKey baseKey
      rw [request?, Outcome.mapError_eq_ok_iff.mp derivedFound,
        Outcome.mapError_eq_ok_iff.mp baseFound]
      rfl
  | bindFunction name signatures =>
      obtain ⟨_, after, done⟩ : ∃ value after,
          Declare.bindFunction name signatures session = .ok value after :=
        exists_ok_of_accepts rfl accepted
      obtain ⟨bound, isBound⟩ := exists_bound?_of_bindOverloads done
      exists .function bound
      rw [request?, isBound]
      rfl
  | bindConstructor type overloads =>
      obtain ⟨_, after, done⟩ : ∃ value after,
          Declare.bindConstructor type overloads session = .ok value after :=
        exists_ok_of_accepts rfl accepted
      obtain ⟨key, owned, done⟩ := exists_owner_of_ownerFor_bind done
      obtain ⟨bound, isBound⟩ := exists_bound?_of_bindOverloads done
      exists .ctor key bound
      rw [request?, owned]
      exact congrArg (Option.map (Entry.ctor key)) isBound
  | bindMethod type name signatures =>
      obtain ⟨_, after, done⟩ : ∃ value after,
          Declare.bindMethod type name signatures session = .ok value after :=
        exists_ok_of_accepts rfl accepted
      obtain ⟨key, owned, done⟩ := exists_owner_of_ownerFor_bind done
      obtain ⟨bound, isBound⟩ := exists_bound?_of_bindOverloads done
      exists .method key bound
      rw [request?, owned]
      exact congrArg (Option.map (Entry.method key)) isBound
  | bindMember type member =>
      obtain ⟨_, after, done⟩ : ∃ value after,
          Declare.bindMember type member session = .ok value after :=
        exists_ok_of_accepts rfl accepted
      change (ofExcept (Accessors.plan session.registry type member) >>= _) session = _ at done
      obtain ⟨accessors, planned, -⟩ := exists_of_ofExcept_bind done
      obtain ⟨owned, parsed⟩ := Accessors.owner_member_of_plan planned
      exists .member accessors.owner accessors.member
      rw [request?, owned, parsed]
      rfl
  | bindTemplate template name types =>
      obtain ⟨_, after, done⟩ : ∃ value after,
          Declare.bindTemplate template name types session = .ok value after :=
        exists_ok_of_accepts rfl accepted
      have opened : (get : Declare Session) session = .ok session session := rfl
      rw [Declare.bindTemplate, bind_of_ok opened] at done
      cases declared : session.template? template with
      | none =>
          rw [declared] at done
          cases done
      | some found =>
          rw [declared] at done
          obtain ⟨inst, instantiated, done⟩ := exists_of_ofExcept_bind done
          obtain ⟨bound, isBound⟩ := exists_bound?_of_bindOverloads done
          exists .function bound
          rw [request?, declared, Option.bind_eq_bind, Option.bind_some, instantiated]
          exact congrArg (Option.map Entry.function) isBound
  | _ => cases posts

end Declaration

/-! ## The books -/

namespace Entry

/-- A type that no entry is about stays as it is. -/
theorem amendAll_eq_self {entries : List Entry} {conv : Converter}
    (apart : ∀ entry ∈ entries, entry.owner? ≠ some conv.key) : amendAll entries conv = conv := by
  induction entries with
  | nil => rfl
  | cons entry rest ih =>
      have untouched := amend_eq_self (apart entry List.mem_cons_self)
      have later := ih fun other member => apart other (List.mem_cons_of_mem entry member)
      exact (congrArg (amendAll rest) untouched).trans later

theorem mem_sets_of_functions {entry : Entry} {bound : OverloadSet}
    (member : bound ∈ entry.functions) : bound ∈ entry.sets := by
  cases entry with
  | function _ => exact member
  | _ => cases member

theorem mem_sets_of_ctorOf? {entry : Entry} {key : TypeKey} {bound : OverloadSet}
    (given : entry.ctorOf? key = some bound) : bound ∈ entry.sets := by
  cases entry with
  | ctor owner other =>
      rw [ctorOf?, Option.ite_none_right_eq_some] at given
      cases given.2
      exact List.mem_cons_self
  | _ => cases given

theorem mem_sets_of_methodOf? {entry : Entry} {key : TypeKey} {bound : OverloadSet}
    (given : entry.methodOf? key = some bound) : bound ∈ entry.sets := by
  cases entry with
  | method owner other =>
      rw [methodOf?, Option.ite_none_right_eq_some] at given
      cases given.2
      exact List.mem_cons_self
  | _ => cases given

end Entry

namespace Registry.TakesAll

variable {entries : List Entry} {next : Registry}

/-- What is bound on the types of a registry that has taken entries from the
beginning. -/
theorem bound (taken : TakesAll {} entries next)
    (blank : ∀ conv ∈ entries.flatMap Entry.types, conv.Blank) {conv : Converter}
    (member : conv ∈ next.converters) :
    conv.methods = entries.filterMap (Entry.methodOf? conv.key) ∧
      conv.members = entries.filterMap (Entry.memberOf? conv.key) ∧
      conv.ctor = (entries.filterMap (Entry.ctorOf? conv.key)).getLast? := by
  rw [taken.converters_eq_map] at member
  obtain ⟨given, brought, rfl⟩ := List.mem_map.mp member
  obtain ⟨ctor, methods, members⟩ := Entry.bound_amendAll entries given
  have isBlank := blank given brought
  rw [Entry.key_amendAll, ctor, methods, members, isBlank.ctor, isBlank.methods, isBlank.members]
  simp

theorem settled_of_bound (taken : TakesAll {} entries next)
    (blank : ∀ conv ∈ entries.flatMap Entry.types, conv.Blank) {conv : Converter}
    (member : conv ∈ next.converters) :
    ∀ bound ∈ conv.ctor.toList ++ conv.methods, bound.Settled next := by
  obtain ⟨methods, -, ctor⟩ := taken.bound blank member
  intro bound noted
  rw [List.mem_append, Option.mem_toList, ctor, methods] at noted
  rcases noted with isCtor | isMethod
  · obtain ⟨entry, posted, given⟩ := List.mem_filterMap.mp (List.mem_of_getLast? isCtor)
    exact taken.settled entry posted bound (Entry.mem_sets_of_ctorOf? given)
  · obtain ⟨entry, posted, given⟩ := List.mem_filterMap.mp isMethod
    exact taken.settled entry posted bound (Entry.mem_sets_of_methodOf? given)

end Registry.TakesAll

theorem Session.mem_after_of_untouched {session : Session} {decl : Declaration} {conv : Converter}
    (member : conv ∈ session.registry.converters)
    (apart : ∀ entry ∈ session.recordedBy decl, entry.owner? ≠ some conv.key) :
    conv ∈ (session.after decl).registry.converters := by
  rw [(session.books_after decl).registry.converters_eq_map]
  exact List.mem_map.mpr ⟨conv, List.mem_append_left _ member, Entry.amendAll_eq_self apart⟩

/-- The books of a session after any declarations.  The bound functions, and the
methods, members and constructor of every registered type, are those of the
accepted calls; a call changes of the registered types what its entries say and
nothing else; and all that is noted refers to registered types. -/
theorem run_books (name : String) (target : Target) (options : Options)
    (decls : List Declaration) (brings : Session.Brings target decls) :
    let start := Session.start name target options
    let reached := start.run decls
    let entries := start.recorded decls
    reached.functions = entries.flatMap Entry.functions ∧
      (∀ conv ∈ reached.registry.converters,
        conv.methods = entries.filterMap (Entry.methodOf? conv.key) ∧
          conv.members = entries.filterMap (Entry.memberOf? conv.key) ∧
          conv.ctor = (entries.filterMap (Entry.ctorOf? conv.key)).getLast?) ∧
      (∀ (session : Session) (decl : Declaration),
        (decl.perform.accepts session = true → decl.posts = true →
          ∃ entry, decl.posted? session = some entry) ∧
        (session.after decl).registry.converters =
          (session.registry.converters ++ (session.recordedBy decl).flatMap Entry.types).map
            (Entry.amendAll (session.recordedBy decl)) ∧
        ∀ conv ∈ session.registry.converters,
          (∀ entry ∈ session.recordedBy decl, entry.owner? ≠ some conv.key) →
            conv ∈ (session.after decl).registry.converters) ∧
      (∀ bound ∈ reached.functions, bound.Settled reached.registry) ∧
      ∀ conv ∈ reached.registry.converters,
        (∀ bound ∈ conv.ctor.toList ++ conv.methods, bound.Settled reached.registry) ∧
          ∀ base ∈ conv.bases, base ∈ reached.registry.keys := by
  intro start reached entries
  have books : start.Books reached entries := start.books_run decls
  have taken : Registry.TakesAll {} entries reached.registry := books.registry
  have blank : ∀ conv ∈ entries.flatMap Entry.types, conv.Blank :=
    fun conv member => (brings.made conv member).blank
  have functions : reached.functions = entries.flatMap Entry.functions := books.functions
  have sound : reached.registry.Sound := Session.sound_run brings Registry.Sound.empty
  refine ⟨functions, fun conv member => taken.bound blank member, ?_, ?_, ?_⟩
  · intro session decl
    exact ⟨Declaration.exists_posted?_of_accepts,
      (session.books_after decl).registry.converters_eq_map,
      fun conv member apart => Session.mem_after_of_untouched member apart⟩
  · intro bound member
    rw [functions] at member
    obtain ⟨entry, posted, isFunction⟩ := List.mem_flatMap.mp member
    exact taken.settled entry posted bound (Entry.mem_sets_of_functions isFunction)
  · intro conv member
    exact ⟨taken.settled_of_bound blank member, sound.registered conv member⟩

/-- A constructor that is bound again is replaced, a method is found through a
pointer to its type, and refused calls leave nothing. -/
theorem run_books_rebound :
    let decls : List Declaration := [.beginClass "Shape", .beginClass "Circle",
      .bindConstructor "Shape" [[]], .bindMethod "Shape *" "draw" [⟨"void", []⟩],
      .bindMethod "Circle" "grow" [⟨"void", ["Square"]⟩],
      .bindMembers "Circle" ["Shape outline", "Square box", "Shape shade"],
      .bindFunction "area" [⟨"Shape", ["Circle"]⟩], .bindConstructor "Shape" [["Circle"]]]
    let start := Session.start "demo" Dispatch.plainTarget {}
    let reached := start.run decls
    let entries := start.recorded decls
    Session.Brings Dispatch.plainTarget decls ∧
      entries.length = 7 ∧
      reached.functions.map (·.name) = ["area"] ∧
      reached.registry.converters.map (fun conv => (conv.methods.map (·.name),
        conv.members.map Param.text, conv.ctor.map fun bound => bound.protos.map (·.args.length))) =
        [(["draw"], [], some [1]), ([], ["Shape outline"], none)] ∧
      reached.functions = entries.flatMap Entry.functions ∧
      ∀ conv ∈ reached.registry.converters,
        conv.ctor = (entries.filterMap (Entry.ctorOf? conv.key)).getLast? := by
  intro decls start reached entries
  have brings : Session.Brings Dispatch.plainTarget decls :=
    Session.brings_plainTarget (by simp [decls])
  obtain ⟨functions, bound, -⟩ := run_books "demo" Dispatch.plainTarget {} decls brings
  exact ⟨brings, by decide +kernel, by decide +kernel, by decide +kernel, functions,
    fun conv member => (bound conv member).2.2⟩

/-- What a type is handed over with is on no books: a method that no call bound, and a base
that is not registered.  Of a list of members that is refused, those in front of the refused
one are on the books of the type. -/
theorem filled_converter_off_books :
    let ring : NativeType := ⟨false, none, .simple "Ring", []⟩
    let filled : Converter := { Converter.ofTypes ring ring Dispatch.plainHooks with
      methods := [⟨"spin", "_Ring__spin__", []⟩], bases := [TypeKey.ofSpelling "Disc"] }
    let start := Session.start "demo" Dispatch.plainTarget {}
    let entered : Declaration := .bindType filled
    let declared := start.run [.bindType Dispatch.intConverter, .beginClass "A"]
    let refused : Declaration := .bindMembers "A" ["int x", "B y"]
    (entered.perform.accepts start = true ∧
      (start.recorded [entered]).filterMap (Entry.methodOf? filled.key) = [] ∧
      ((start.run [entered]).registry.find? filled.key).map (fun conv =>
        (conv.methods.map (·.name), conv.bases)) = some (["spin"], [TypeKey.ofSpelling "Disc"]) ∧
      TypeKey.ofSpelling "Disc" ∉ (start.run [entered]).registry.keys) ∧
      refused.perform.accepts declared = false ∧
      ((declared.after refused).registry.find? (TypeKey.ofSpelling "A")).map (fun conv =>
        conv.members.map Param.text) = some ["int x"] := by
  decide +kernel

end Bindery
