import Bindery.Proofs.Dispatch.Arguments
import Bindery.Proofs.Indirection
import Bindery.Proofs.NativeType.Injectivity
import Bindery.Proofs.Registry.Naming

/-!
# What conversions work on

A conversion works on a pointer to the type of its converter.  Generated code writes
that pointer with one operator in front of a value.  If the type of the value is
registered itself, the operator takes the address.  If only the bare name is, the
value has to lose all its pointers but one, and one operator can do that from two
pointers at most.
-/

namespace Bindery

namespace TypeKey

/-- The names have different keys. -/
def Separates (names : List String) : Prop :=
  ∀ name ∈ names, ∀ other ∈ names, ofName name = ofName other → name = other

instance (names : List String) : Decidable (Separates names) :=
  inferInstanceAs (Decidable (∀ name ∈ names, ∀ other ∈ names, _))

end TypeKey

theorem Profile.key_eq_ofName (profile : Profile) :
    profile.key = TypeKey.ofName profile.canonical := by
  rw [key_eq, canonical_eq, NativeType.key]

namespace Registry

/-- The names whose keys are compared when a type is selected. -/
def namesFor (registry : Registry) (type : NativeType) : List String :=
  type.canonical :: type.bareName :: registry.converters.map (·.canonical)

/-- A type of this canonical spelling is registered. -/
def Lists (registry : Registry) (spelling : String) : Prop :=
  ∃ conv ∈ registry.converters, conv.canonical = spelling

section Selection

variable {registry : Registry} {type : NativeType} {key : TypeKey}
  (distinct : TypeKey.Separates (registry.namesFor type))
include distinct

/-- Keys that are told apart find a name itself. -/
theorem find?_ofName_iff {name : String} {conv : Converter}
    (asked : name ∈ registry.namesFor type) :
    registry.find? (TypeKey.ofName name) = some conv ↔
      conv ∈ registry.converters ∧ conv.canonical = name := by
  rw [find?_eq_some_iff, Profile.key_eq_ofName]
  apply and_congr_right
  intro member
  have listed : conv.canonical ∈ registry.namesFor type :=
    List.mem_cons_of_mem _ (List.mem_cons_of_mem _ (List.mem_map_of_mem member))
  exact ⟨distinct _ listed _ asked, congrArg TypeKey.ofName⟩

theorem contains_ofName_iff {name : String} (asked : name ∈ registry.namesFor type) :
    registry.contains (TypeKey.ofName name) = true ↔ registry.Lists name := by
  rw [contains_iff_exists_find?]
  exact exists_congr fun conv => find?_ofName_iff distinct asked

/-- What is selected is the type itself if it is registered, and else the value type of
the same name. -/
theorem exists_of_select (made : ∀ conv ∈ registry.converters, conv.type.WellNamed)
    (named : type.WellNamed) (selected : registry.select type = .ok (some key)) :
    ∃ conv, registry.find? key = some conv ∧
      (registry.Lists type.canonical ∧ conv.type = type ∨
        ¬ registry.Lists type.canonical ∧ conv.type = ⟨false, none, type.name, []⟩) := by
  have canonicalAsked : type.canonical ∈ registry.namesFor type := List.mem_cons_self
  have bareAsked : type.bareName ∈ registry.namesFor type :=
    List.mem_cons_of_mem _ List.mem_cons_self
  have listed := contains_ofName_iff distinct canonicalAsked
  rcases contains_iff_exists_find?.mp (contains_of_select selected) with ⟨conv, found⟩
  refine ⟨conv, found, ?_⟩
  rcases select_eq_some_iff.mp selected with ⟨-, ⟨known, rfl⟩ | ⟨unknown, -, rfl⟩⟩
  · rcases (find?_ofName_iff distinct canonicalAsked).mp found with ⟨member, same⟩
    rw [Profile.canonical_eq] at same
    exact .inl ⟨listed.mp known, NativeType.eq_of_canonical_eq (made conv member) named same⟩
  · rcases (find?_ofName_iff distinct bareAsked).mp found with ⟨member, same⟩
    -- The bare name is the canonical spelling of the value type.
    have bare : type.bareName = NativeType.canonical ⟨false, none, type.name, []⟩ := by
      simp [NativeType.bareName, NativeType.canonical]
    rw [Profile.canonical_eq, bare] at same
    have missing : ¬ registry.Lists type.canonical := by
      intro lists
      have known : registry.contains type.key = true := listed.mpr lists
      rw [unknown] at known
      cases known
    exact .inr ⟨missing, NativeType.eq_of_canonical_eq (made conv member) named same⟩

end Selection

end Registry

namespace Profile

/-- The operator in front of a value that a conversion works on. -/
def adjustment (profile : Profile) (marks : Indirection) : Adjustment :=
  .between marks profile.conversionMarks

theorem prepare_eq (profile : Profile) (expression : String) (marks : Indirection) :
    profile.prepare expression marks = (profile.adjustment marks).operator ++ expression := rfl

/-- A value of the type itself is handed over by its address. -/
theorem adjustment_self (profile : Profile) :
    profile.adjustment profile.type.marks = .addressOf := by
  have appended := Adjustment.between_append profile.type.marks [] [.pointer]
  rw [List.append_nil] at appended
  rw [adjustment, conversionMarks, appended]
  rfl

/-- For a value type, the operator goes towards one pointer. -/
theorem adjustment_of_value {profile : Profile} {marks : Indirection}
    (value : profile.type.marks = []) (ordered : marks.PointersFirst) :
    profile.adjustment marks = .towards marks.depth 1 := by
  rw [adjustment, conversionMarks, value]
  exact Adjustment.between_eq_towards ordered (List.pairwise_singleton _ _)

end Profile

/-- What generated code calls for a function or a method; a constructor is not called
by a name. -/
def Binding.callee? : Binding → Option String
  | .function name => some name
  | .method _ name _ => some ("_self->" ++ name)
  | .ctor _ _ => none

/-- The result of a function or method is converted through a pointer to `rval`. -/
theorem Dispatch.invoke_of_callee? {emitter : Emitter} {callee args : String} {type : NativeType}
    {key : TypeKey} {conv : Converter} (bound : emitter.binding.callee? = some callee)
    (found : emitter.registry.find? key = some conv) :
    emitter.invoke ⟨type, some key⟩ args = (do
      .write [.line (type.declare "rval" ++ " = " ++ callee ++ "(" ++ args ++ ");")]
      return [← emitter.target.wrap conv type "rval" (conv.prepare "rval" type.marks)
        (.ofResult type.marks)]) := by
  have called : emitter.invoke ⟨type, some key⟩ args =
      emitter.callNative callee ⟨type, some key⟩ args := by
    rcases emitter with ⟨target, registry, binding, protos, context⟩
    cases binding with
    | function name =>
        cases bound
        rfl
    | method owner name converter =>
        cases bound
        rfl
    | ctor owner converter => cases bound
  rw [called, Emitter.callNative]
  simp only [converter_eq_of_ok (outcome_converter_eq_ok_iff.mpr found)]
  rfl

/-- The pointer that generated code hands to a conversion.  It is written with the same
operators for the result of a function or method and for a member of the type.  Where
pointers come before references it has one pointer more than the type of the converter
exactly if the type of the value is registered itself or has two pointers at most; in
the first case the operator takes the address. -/
theorem conversion_pointer_depth {registry : Registry} {type : NativeType} {key : TypeKey}
    (made : ∀ conv ∈ registry.converters, conv.type.WellNamed) (named : type.WellNamed)
    (ordered : type.marks.PointersFirst) (distinct : TypeKey.Separates (registry.namesFor type))
    (selected : registry.select type = .ok (some key)) :
    ∃ conv operators, registry.find? key = some conv ∧
      (∀ (emitter : Dispatch.Emitter) (callee args : String), emitter.registry = registry →
        emitter.binding.callee? = some callee →
        emitter.invoke ⟨type, some key⟩ args = (do
          .write [.line (type.declare "rval" ++ " = " ++ callee ++ "(" ++ args ++ ");")]
          return [← emitter.target.wrap conv type "rval" (operators ++ "rval")
            (.ofResult type.marks)])) ∧
      (∀ (owner member : String) (accessors : Accessors),
        Accessors.plan registry owner member = .ok accessors → accessors.member.type = type →
        accessors.converter = key ∧
          accessors.fieldPointer = operators ++ ("_self->" ++ accessors.name)) ∧
      (depthBehind? operators.toList type.marks.depth = some (conv.type.marks.depth + 1) ↔
        registry.Lists type.canonical ∨ type.marks.depth ≤ 2) ∧
      (registry.Lists type.canonical → operators = "&") := by
  rcases Registry.exists_of_select distinct made named selected with ⟨conv, found, isType⟩
  refine ⟨conv, (conv.adjustment type.marks).operator, found, ?_, ?_, ?_⟩
  · intro emitter callee args sameRegistry bound
    rw [← sameRegistry] at found
    rw [Dispatch.invoke_of_callee? bound found, Profile.prepare_eq]
  · intro owner member accessors planned sameType
    rcases Accessors.exists_of_plan planned with
      ⟨_, _, _, _, fieldConv, -, -, -, -, -, fieldChosen, fieldFound, rfl⟩
    cases sameType
    cases fieldChosen.symm.trans selected
    cases fieldFound.symm.trans found
    exact ⟨rfl, Profile.prepare_eq _ _ _⟩
  · rcases isType with ⟨listed, rfl⟩ | ⟨missing, isBare⟩
    · rw [Profile.adjustment_self]
      exact ⟨iff_of_true (Adjustment.depthBehind?_addressOf _) (.inl listed), fun _ => rfl⟩
    · have value : conv.type.marks = [] := congrArg NativeType.marks isBare
      refine ⟨?_, fun listed => absurd listed missing⟩
      rw [Profile.adjustment_of_value value ordered, value, Indirection.depth_nil,
        Adjustment.depthBehind?_towards_iff, or_iff_right missing]
      omega

/-- Only the class itself is registered.  One `*` is written in front of a member with two
pointers and of one with three; it leaves the first with the pointer that the conversion
works on, and the second with one too many. -/
theorem conversion_pointer_depth_node :
    let node : NativeType := ⟨false, none, .simple "Node", []⟩
    let double : NativeType := ⟨false, none, .simple "Node", [.pointer, .pointer]⟩
    let triple : NativeType := ⟨true, none, .simple "Node", [.pointer, .pointer, .pointer]⟩
    let registry := Registry.run {} [.register (Registry.bareConverter node)]
    let written (member : String) :=
      (Accessors.plan registry "Node" member).map fun accessors =>
        (accessors.member.type, accessors.name, accessors.fieldPointer)
    (∀ conv ∈ registry.converters, conv.type.WellNamed) ∧
      (∀ type ∈ [double, triple], type.WellNamed ∧ type.marks.PointersFirst ∧
        TypeKey.Separates (registry.namesFor type) ∧
        registry.select type = .ok (some node.key) ∧ ¬ registry.Lists type.canonical) ∧
      (registry.find? node.key).map (·.type) = some node ∧
      written "Node **next" = .ok (double, "next", "*_self->next") ∧
      depthBehind? ['*'] double.marks.depth = some (node.marks.depth + 1) ∧
      written "const Node ***next" = .ok (triple, "next", "*_self->next") ∧
      depthBehind? ['*'] triple.marks.depth ≠ some (node.marks.depth + 1) := by
  intro node double triple registry written
  have parsed : NativeType.parse "Node" = .ok node := by decide +kernel
  have doubleParsed : NativeType.parse "Node **" = .ok double := by decide +kernel
  have tripleParsed : NativeType.parse "const Node ***" = .ok triple := by decide +kernel
  have single : registry.converters = [Registry.bareConverter node] := rfl
  have made : ∀ conv ∈ registry.converters, conv.type.WellNamed := by
    rw [single, List.forall_mem_singleton]
    exact NativeType.wellNamed_of_parse parsed
  have named : ∀ type ∈ [double, triple], type.WellNamed := by
    simp [NativeType.wellNamed_of_parse doubleParsed, NativeType.wellNamed_of_parse tripleParsed]
  have ordered : ∀ type ∈ [double, triple], type.marks.PointersFirst := by decide
  have distinct : ∀ type ∈ [double, triple], TypeKey.Separates (registry.namesFor type) := by
    decide +kernel
  have selected : ∀ type ∈ [double, triple], registry.select type = .ok (some node.key) := by
    decide +kernel
  have missing : ∀ type ∈ [double, triple], ¬ registry.Lists type.canonical := by
    simp only [Registry.Lists, single, List.mem_singleton, exists_eq_left]
    decide +kernel
  have isNode : (registry.find? node.key).map (·.type) = some node := by decide +kernel
  have doubleWritten : written "Node **next" = .ok (double, "next", "*_self->next") := by
    decide +kernel
  have tripleWritten : written "const Node ***next" = .ok (triple, "next", "*_self->next") := by
    decide +kernel
  have behindStar {member : String} {type : NativeType} (either : type ∈ [double, triple])
      (isWritten : written member = .ok (type, "next", "*_self->next")) :
      depthBehind? ['*'] type.marks.depth = some (node.marks.depth + 1) ↔
        type.marks.depth ≤ 2 := by
    rcases conversion_pointer_depth made (named type either) (ordered type either)
      (distinct type either) (selected type either) with
      ⟨conv, operators, found, -, members, depth, -⟩
    rcases Outcome.map_eq_ok_iff.mp isWritten with ⟨accessors, planned, same⟩
    injection same with sameType rest
    injection rest with sameName samePointer
    have pointer := (members _ _ _ planned sameType).2
    rw [samePointer, sameName] at pointer
    have star : operators = "*" := (String.append_left_inj "_self->next").mp pointer.symm
    rw [found] at isNode
    have isType : conv.type = node := Option.some.inj isNode
    rwa [star, isType, or_iff_right (missing type either)] at depth
  exact ⟨made, fun type either => ⟨named type either, ordered type either, distinct type either,
    selected type either, missing type either⟩, isNode, doubleWritten,
    (behindStar (by simp) doubleWritten).mpr (by decide), tripleWritten,
    mt (behindStar (by simp) tripleWritten).mp (by decide)⟩

end Bindery
