import Bindery.Proofs.Making
import Bindery.Proofs.NativeType.Respelling
import Bindery.Proofs.NativeType.Separation
import Bindery.Proofs.Registry.History

/-!
# Names of registered types

A registered type goes by a canonical spelling, by which it is looked up, and by a
tag, which generated code compares.  The spelling leads back to the type unless it is
read as that of another type, and the tag tells the type from others unless their
identifier-safe forms are the same.
-/

namespace Bindery

namespace Profile

theorem tag_eq_iff {profile other : Profile} :
    profile.tag = other.tag ↔ cleanName profile.canonical = cleanName other.canonical := by
  rw [tag, tag, String.append_left_inj, String.append_right_inj, clean_eq, clean_eq, canonical_eq,
    canonical_eq]

end Profile

namespace Registry

variable {registry : Registry}

theorem mem_registers_of_mem_accepted {calls : List Call} {conv : Converter}
    (member : conv ∈ registry.accepted calls) : conv ∈ calls.flatMap Call.registers := by
  induction calls generalizing registry with
  | nil => cases member
  | cons call calls ih =>
      rw [accepted, List.mem_append] at member
      rw [List.flatMap_cons, List.mem_append]
      rcases member with here | later
      · unfold acceptedBy at here
        split at here
        · exact .inl here
        · cases here
      · exact .inr (ih later)

/-- What is registered was read from a text. -/
theorem exists_parse_of_mem_run {calls : List Call}
    (made : ∀ conv ∈ calls.flatMap Call.registers, conv.Made) {conv : Converter}
    (member : conv ∈ (run {} calls).converters) :
    ∃ text, NativeType.parse text = .ok conv.type := by
  have fresh : ∀ call ∈ calls, call.Fresh := by
    intro call listed
    cases call with
    | register given =>
        have registers : given ∈ calls.flatMap Call.registers :=
          List.mem_flatMap.mpr ⟨_, listed, List.mem_singleton_self given⟩
        exact (made given registers).blank.bases
    | addBase derived base => trivial
  have given : conv.withoutBases ∈ (run {} calls).converters.map Converter.withoutBases :=
    List.mem_map_of_mem member
  rw [withoutBases_run {} fresh] at given
  exact (made _ (mem_registers_of_mem_accepted given)).parsed

/-- The registered types have different tags exactly if their canonical spellings have
different identifier-safe forms, which those of types with plain names have. -/
theorem run_empty_tags (calls : List Call)
    (made : ∀ conv ∈ calls.flatMap Call.registers, conv.Made) :
    ∀ conv ∈ (run {} calls).converters, ∀ other ∈ (run {} calls).converters,
      (conv.tag = other.tag ↔ cleanName conv.canonical = cleanName other.canonical) ∧
      (conv.type.Plain → other.type.Plain →
        (conv.tag = other.tag ↔ conv.canonical = other.canonical)) := by
  intro conv member other otherMember
  refine ⟨Profile.tag_eq_iff, fun plain otherPlain => ?_⟩
  rw [Profile.tag_eq_iff]
  constructor
  · intro same
    obtain ⟨text, parsed⟩ := exists_parse_of_mem_run made member
    obtain ⟨otherText, otherParsed⟩ := exists_parse_of_mem_run made otherMember
    rw [Profile.canonical_eq, Profile.canonical_eq] at same ⊢
    rw [NativeType.eq_of_cleanName_eq parsed otherParsed plain otherPlain same]
  · exact congrArg cleanName

/-- A converter with empty texts. -/
def bareConverter (type : NativeType) : Converter :=
  .ofTypes type type ⟨fun _ _ => "", fun _ _ _ => "", fun _ _ _ _ _ => "", fun _ _ => "",
    fun _ _ => ""⟩

theorem made_bareConverter {text : String} {type : NativeType}
    (parsed : NativeType.parse text = .ok type) : (bareConverter type).Made :=
  Converter.made_ofTypes parsed _

/-- Underscores inside the parts of a name do no harm. -/
theorem run_empty_tags_snake_case :
    let points : NativeType := ⟨false, none, ⟨["geo"], "point_list"⟩, []⟩
    let marked : NativeType := ⟨true, none, ⟨["geo"], "point_list"⟩, [.pointer, .reference]⟩
    let calls : List Call := [.register (bareConverter points), .register (bareConverter marked)]
    (∀ conv ∈ calls.flatMap Call.registers, conv.Made) ∧ points.Plain ∧ marked.Plain ∧
      (run {} calls).converters.map (fun conv => (conv.type, conv.tag)) =
        [(points, "__geo__point_list_type_tag"),
          (marked, "__const_geo__point_list_ptr_r_type_tag")] ∧
      ∀ conv ∈ (run {} calls).converters, ∀ other ∈ (run {} calls).converters,
        (conv.tag = other.tag ↔ conv.canonical = other.canonical) := by
  intro points marked calls
  have parsed : NativeType.parse "geo::point_list" = .ok points := by decide +kernel
  have markedParsed : NativeType.parse "const geo::point_list *&" = .ok marked := by decide +kernel
  have made : ∀ conv ∈ calls.flatMap Call.registers, conv.Made := by
    simp [calls, Call.registers, made_bareConverter parsed, made_bareConverter markedParsed]
  have plain : points.Plain ∧ marked.Plain := by decide +kernel
  have types : (run {} calls).converters.map (·.type) = [points, marked] := by decide +kernel
  have allPlain : ∀ conv ∈ (run {} calls).converters, conv.type.Plain := by
    rw [← List.forall_mem_map, types]
    simp [plain]
  refine ⟨made, plain.1, plain.2, by decide +kernel, ?_⟩
  intro conv member other otherMember
  exact (run_empty_tags calls made conv member other otherMember).2 (allPlain conv member)
    (allPlain other otherMember)

/-- A blank and an underscore come to the same: two types share a tag, and the one is taken
for the other. -/
theorem run_empty_tags_shared :
    let qualified : NativeType := ⟨true, none, ⟨[], "int"⟩, []⟩
    let named : NativeType := ⟨false, none, ⟨[], "const_int"⟩, []⟩
    let calls : List Call := [.register (bareConverter qualified), .register (bareConverter named)]
    (∀ conv ∈ calls.flatMap Call.registers, conv.Made) ∧
      (run {} calls).converters.map (fun conv => (conv.canonical, conv.tag)) =
        [("const int", "__const_int_type_tag"), ("const_int", "__const_int_type_tag")] ∧
      (run {} calls).usableAs (TypeKey.ofSpelling "const_int") "const int" = true := by
  intro qualified named calls
  have parsed : NativeType.parse "const int" = .ok qualified := by decide +kernel
  have namedParsed : NativeType.parse "const_int" = .ok named := by decide +kernel
  refine ⟨?_, by decide +kernel, by decide +kernel⟩
  simp [calls, Call.registers, made_bareConverter parsed, made_bareConverter namedParsed]

theorem eq_of_mem_of_key_eq {conv other : Converter} (member : conv ∈ registry.converters)
    (otherMember : other ∈ registry.converters) (same : other.key = conv.key) : other = conv := by
  have found : registry.find? conv.key = some conv := find?_eq_some_iff.mpr ⟨member, rfl⟩
  rw [find?_eq_some_iff.mpr ⟨otherMember, same⟩] at found
  exact Option.some.inj found

/-- What is reached stands on a chain of base links. -/
theorem exists_of_reachesClean {target : String} {depth : Nat} {key : TypeKey}
    (reached : registry.reachesClean target depth key = true) :
    ∃ conv ∈ registry.converters, conv.clean = target ∧
      Relation.ReflTransGen registry.DirectBase key conv.key := by
  induction depth generalizing key with
  | zero => cases reached
  | succ depth ih =>
      rw [reachesClean] at reached
      split at reached
      · cases reached
      · next conv isFound =>
          obtain ⟨member, sameKey⟩ := find?_eq_some_iff.mp isFound
          rw [Bool.or_eq_true, beq_iff_eq, List.any_eq_true] at reached
          rcases reached with here | ⟨base, listed, later⟩
          · exact ⟨conv, member, here, sameKey ▸ .refl⟩
          · obtain ⟨other, otherMember, clean, chain⟩ := ih later
            have link := directBase_iff.mpr ⟨conv, member, sameKey, listed⟩
            exact ⟨other, otherMember, clean, .head link chain⟩

theorem reachesClean_self {conv : Converter} (member : conv ∈ registry.converters) :
    registry.reachesClean conv.clean registry.size conv.key = true := by
  have some : registry.size ≠ 0 := by
    simpa [size] using List.ne_nil_of_mem member
  obtain ⟨depth, isSize⟩ := Nat.exists_eq_succ_of_ne_zero some
  rw [isSize, reachesClean, find?_eq_some_iff.mpr ⟨member, rfl⟩]
  simp

theorem lookup?_eq_some_iff {text : String} {key : TypeKey} :
    registry.lookup? text = some key ↔
      TypeKey.ofName (canonicalSpelling text) = key ∧ registry.contains key = true := by
  rw [lookup?]
  split
  · next known =>
      rw [Option.some.injEq]
      constructor
      · rintro rfl
        exact ⟨rfl, known⟩
      · exact And.left
  · next unknown =>
      constructor
      · intro impossible
        cases impossible
      · rintro ⟨rfl, known⟩
        exact absurd known unknown

/-- A type that is registered is found under its canonical spelling, and its values can be
used as that type, unless the spelling is read as that of another type.  Then it is found
only if the two spellings have one key, and its values can be used so only through a base
of the same identifier-safe form as the other type. -/
theorem canonical_names_type_unless_respelled {text : String} {storage : Option String}
    {hooks : Hooks} {given conv : Converter} (made : Converter.make text storage hooks = .ok given)
    (sameType : conv.type = given.type) (registered : conv ∈ registry.converters) :
    (canonicalSpelling conv.canonical = conv.canonical ↔ ¬ conv.type.Respelled) ∧
      (¬ conv.type.Respelled →
        registry.lookup? conv.canonical = some conv.key ∧
          registry.usableAs conv.key conv.canonical = true) ∧
      (conv.type.Respelled →
        (registry.lookup? conv.canonical = some conv.key ↔
          TypeKey.ofName (canonicalSpelling conv.canonical) = TypeKey.ofName conv.canonical) ∧
        (registry.usableAs conv.key conv.canonical = true →
          ∃ base ∈ registry.converters, Relation.TransGen registry.DirectBase conv.key base.key ∧
            base.clean = cleanName (canonicalSpelling conv.canonical))) := by
  obtain ⟨parsed, stored, isParsed, rfl⟩ := Converter.exists_of_make made
  have isType : NativeType.parse text = .ok conv.type := sameType ▸ isParsed
  have known : registry.contains conv.key = true :=
    contains_iff_mem_keys.mpr (List.mem_map_of_mem registered)
  have isKey : conv.key = TypeKey.ofName conv.canonical := by
    rw [Profile.key_eq, Profile.canonical_eq]
    rfl
  have stable : canonicalSpelling conv.canonical = conv.canonical ↔ ¬ conv.type.Respelled := by
    rw [Profile.canonical_eq]
    exact NativeType.canonicalSpelling_canonical_iff isType
  have clean : conv.clean = cleanName conv.canonical := by
    rw [Profile.clean_eq, Profile.canonical_eq]
  refine ⟨stable, fun fine => ?_, fun respelled => ⟨?_, fun usable => ?_⟩⟩
  · have same := stable.mpr fine
    rw [lookup?_eq_some_iff, usableAs, same, ← isKey, ← clean]
    exact ⟨⟨rfl, known⟩, reachesClean_self registered⟩
  · rw [lookup?_eq_some_iff, isKey]
    simp [← isKey, known]
  · obtain ⟨base, member, isClean, chain⟩ := exists_of_reachesClean usable
    rcases Relation.reflTransGen_iff_eq_or_transGen.mp chain with same | links
    · cases eq_of_mem_of_key_eq registered member same
      rw [clean, Profile.canonical_eq] at isClean
      exact absurd isClean.symm (NativeType.cleanName_canonicalSpelling_ne isType respelled)
    · exact ⟨base, member, links, isClean⟩

/-- The spelling `const *` is no type, and stands for itself. -/
theorem canonical_names_type_lone_const :
    let lone : NativeType := ⟨false, none, ⟨[], "const"⟩, [.pointer]⟩
    let conv := bareConverter lone
    let registry := run {} [.register conv]
    Converter.make "::const*" none conv.hooks = .ok conv ∧ conv ∈ registry.converters ∧
      ¬ lone.Respelled ∧ canonicalSpelling "const *" = "const *" ∧
      registry.lookup? "const *" = some conv.key ∧ registry.usableAs conv.key "const *" = true := by
  intro lone conv registry
  have parsed : NativeType.parse "::const*" = .ok lone := by decide +kernel
  have made : Converter.make "::const*" none conv.hooks = .ok conv := by
    rw [Converter.make, parsed]
    rfl
  have member : conv ∈ registry.converters := List.mem_singleton_self conv
  have fine : ¬ lone.Respelled := by decide +kernel
  have isCanonical : conv.canonical = "const *" := by decide +kernel
  obtain ⟨stable, found, -⟩ := canonical_names_type_unless_respelled made rfl member
  rw [isCanonical] at stable found
  exact ⟨made, member, fine, stable.mpr fine, found fine⟩

/-- The spelling `const::x` is read as that of another type. -/
theorem canonical_names_other_type :
    let masked : NativeType := ⟨false, none, ⟨["const"], "x"⟩, []⟩
    let conv := bareConverter masked
    let registry := run {} [.register conv]
    NativeType.parse "::const::x" = .ok masked ∧ registry.keys = [conv.key] ∧
      conv.canonical = "const::x" ∧ canonicalSpelling "const::x" = "const x" ∧
      registry.lookup? "const::x" = none ∧ registry.usableAs conv.key "const::x" = false := by
  decide +kernel

end Registry

end Bindery
