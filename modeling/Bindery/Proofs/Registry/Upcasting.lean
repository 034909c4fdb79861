import Bindery.Proofs.CastTable.Ancestry
import Bindery.Proofs.Registry.Ancestors
import Bindery.Proofs.Registry.Growth
import Bindery.Proofs.Registry.Naming

/-!
# What a value can be used as

Whether a value of one type can be used as another is asked type by type: of the type
itself, and then of each of its bases in turn, which ask their own bases.  No type is
remembered, so nothing but the lack of circles brings the question to an end.  Where it
ends, its answer is yes exactly if a type of the wanted identifier-safe spelling stands
on a chain of links, and in a registry that has grown it ends for every type.
-/

namespace Bindery.Registry

variable {registry : Registry} {target : String} {key : TypeKey} {keys : List TypeKey}

/-- A type of the given identifier-safe spelling stands on a chain of links that starts
at a key. -/
def Offers (registry : Registry) (target : String) (key : TypeKey) : Prop :=
  ∃ conv ∈ registry.converters, conv.clean = target ∧
    Relation.ReflTransGen registry.DirectBase key conv.key

/-- The answer to the question whether one of the given types, taken in order, can be
used under an identifier-safe spelling.  A type that has another spelling asks its bases
before the next type is taken.  Nothing bounds the chains of bases. -/
inductive Answers (registry : Registry) (target : String) : (keys : List TypeKey) →
    (answer : Bool) → Prop where
  | none : Answers registry target [] false
  | unknown {key : TypeKey} {keys : List TypeKey} {answer : Bool}
      (missing : registry.find? key = none) (others : Answers registry target keys answer) :
      Answers registry target (key :: keys) answer
  | here {key : TypeKey} {keys : List TypeKey} {conv : Converter}
      (found : registry.find? key = some conv) (same : conv.clean = target) :
      Answers registry target (key :: keys) true
  | above {key : TypeKey} {keys : List TypeKey} {conv : Converter}
      (found : registry.find? key = some conv) (apart : conv.clean ≠ target)
      (bases : Answers registry target conv.bases true) :
      Answers registry target (key :: keys) true
  | behind {key : TypeKey} {keys : List TypeKey} {conv : Converter} {answer : Bool}
      (found : registry.find? key = some conv) (apart : conv.clean ≠ target)
      (bases : Answers registry target conv.bases false)
      (others : Answers registry target keys answer) :
      Answers registry target (key :: keys) answer

theorem not_offers_of_find?_eq_none (missing : registry.find? key = none) :
    ¬ registry.Offers target key := by
  have unregistered {conv : Converter} (member : conv ∈ registry.converters) :
      conv.key ≠ key := by
    intro same
    rw [find?_eq_some_iff.mpr ⟨member, same⟩] at missing
    cases missing
  rintro ⟨conv, member, -, chain⟩
  rcases Relation.ReflTransGen.cases_head chain with same | ⟨_, link, _⟩
  · exact unregistered member same.symm
  · rcases directBase_iff.mp link with ⟨other, otherMember, same, -⟩
    exact unregistered otherMember same

/-- A registered type offers its own spelling and what its bases offer. -/
theorem offers_iff_of_find? {conv : Converter} (found : registry.find? key = some conv) :
    registry.Offers target key ↔
      conv.clean = target ∨ ∃ base ∈ conv.bases, registry.Offers target base := by
  rcases find?_eq_some_iff.mp found with ⟨member, rfl⟩
  constructor
  · rintro ⟨other, otherMember, same, chain⟩
    rcases Relation.ReflTransGen.cases_head chain with sameKey | ⟨base, link, rest⟩
    · cases eq_of_mem_of_key_eq member otherMember sameKey.symm
      exact .inl same
    · rw [DirectBase, basesOf, found] at link
      exact .inr ⟨base, link, other, otherMember, same, rest⟩
  · rintro (same | ⟨base, listed, other, otherMember, same, chain⟩)
    · exact ⟨conv, member, same, .refl⟩
    · have link := directBase_iff.mpr ⟨conv, member, rfl, listed⟩
      exact ⟨other, otherMember, same, .head link chain⟩

/-- Whatever the links of a registry are, an answer is yes exactly if one of the types
asked offers the spelling. -/
theorem Answers.eq_true_iff {answer : Bool} (answers : registry.Answers target keys answer) :
    answer = true ↔ ∃ key ∈ keys, registry.Offers target key := by
  induction answers with
  | none => simp
  | @unknown key keys answer missing _ ih =>
      have offersNot : ¬ registry.Offers target key := not_offers_of_find?_eq_none missing
      rw [ih, List.exists_mem_cons_iff, or_iff_right offersNot]
  | here found same =>
      have offers := (offers_iff_of_find? found).mpr (.inl same)
      exact ⟨fun _ => ⟨_, List.mem_cons_self, offers⟩, fun _ => rfl⟩
  | above found _ _ ih =>
      have offers := (offers_iff_of_find? found).mpr (.inr (ih.mp rfl))
      exact ⟨fun _ => ⟨_, List.mem_cons_self, offers⟩, fun _ => rfl⟩
  | @behind key keys conv answer found apart _ _ basesIh othersIh =>
      have offersNot : ¬ registry.Offers target key := by
        rw [offers_iff_of_find? found, not_or]
        exact ⟨apart, fun offered => Bool.false_ne_true (basesIh.mpr offered)⟩
      rw [othersIh, List.exists_mem_cons_iff, or_iff_right offersNot]

namespace Sound

/-- A bound on the depth is not felt as long as the types have fewer ancestors. -/
theorem answers_reachesClean (sound : registry.Sound) {depth : Nat}
    (enough : ∀ key ∈ keys, (registry.ancestors key).length < depth) :
    registry.Answers target keys (keys.any (registry.reachesClean target depth)) := by
  induction depth generalizing keys with
  | zero =>
      cases keys with
      | nil => exact .none
      | cons key keys => exact absurd (enough key List.mem_cons_self) (Nat.not_lt_zero _)
  | succ depth ih =>
      induction keys with
      | nil => exact .none
      | cons key keys others =>
          rw [List.forall_mem_cons] at enough
          have behind := others enough.2
          rw [List.any_cons, reachesClean]
          cases found : registry.find? key with
          | none => exact .unknown found behind
          | some conv =>
              have bases : registry.Answers target conv.bases
                  (conv.bases.any (registry.reachesClean target depth)) := by
                apply ih
                intro base listed
                have link : registry.DirectBase key base := by
                  rwa [DirectBase, basesOf, found]
                have fewer := sound.length_ancestors_lt link
                omega
              by_cases same : conv.clean = target
              · simpa [same] using Answers.here found same
              · have differs : (conv.clean == target) = false := by simpa using same
                cases answer : conv.bases.any (registry.reachesClean target depth) with
                | true =>
                    rw [answer] at bases
                    simpa [answer] using Answers.above found same bases
                | false =>
                    rw [answer] at bases
                    simpa [differs, answer] using Answers.behind found same bases behind

/-- A registered type has fewer ancestors than there are types. -/
theorem length_ancestors_lt_size (sound : registry.Sound) (registered : key ∈ registry.keys) :
    (registry.ancestors key).length < registry.size := by
  have known : key :: registry.ancestors key ⊆ registry.keys := by
    intro other member
    rcases List.mem_cons.mp member with rfl | above
    · exact registered
    · exact (Closed.registered_of_mem_ancestors sound.registered above).2
  have distinct := (nodup_ancestors registry key).cons (sound.not_mem_ancestors_self key)
  have fewer := (List.subperm_of_subset distinct known).length_le
  simpa [keys, size, Nat.succ_le_iff] using fewer

theorem answers_usableAs (sound : registry.Sound) (registered : key ∈ registry.keys)
    (text : String) :
    registry.Answers (cleanName (canonicalSpelling text)) [key] (registry.usableAs key text) := by
  have enough : ∀ other ∈ [key], (registry.ancestors other).length < registry.size := by
    simpa using sound.length_ancestors_lt_size registered
  simpa [usableAs] using sound.answers_reachesClean enough

theorem usableAs_iff_offers (sound : registry.Sound) (registered : key ∈ registry.keys)
    (text : String) :
    registry.usableAs key text = true ↔
      registry.Offers (cleanName (canonicalSpelling text)) key := by
  rw [(sound.answers_usableAs registered text).eq_true_iff]
  simp

end Sound

/-- In a registry that has grown, the question whether a value of a registered type can be
used as another comes to an end, and its answer is yes exactly if the type or one of its
ancestors has the wanted identifier-safe spelling.  So what can be asked of an ancestor
can be asked of the type, over any number of links. -/
theorem usableAs_along_ancestors (grown : registry.Grown) (registered : key ∈ registry.keys)
    (text : String) :
    (∀ answer, registry.Answers (cleanName (canonicalSpelling text)) [key] answer ↔
        answer = registry.usableAs key text) ∧
      (registry.usableAs key text = true ↔
        ∃ conv ∈ registry.converters, conv.key ∈ key :: registry.ancestors key ∧
          conv.clean = cleanName (canonicalSpelling text)) ∧
      ∀ conv ∈ registry.converters, conv.key ∈ key :: registry.ancestors key →
        conv.clean = cleanName (canonicalSpelling text) →
        ∀ further, registry.usableAs conv.key further = true →
          registry.usableAs key further = true := by
  have chain_iff (other : TypeKey) :
      other ∈ key :: registry.ancestors key ↔
        Relation.ReflTransGen registry.DirectBase key other := by
    rw [Relation.reflTransGen_iff_eq_or_transGen, ← mem_ancestors_iff, List.mem_cons]
  constructor
  · intro answer
    have answered := grown.sound.answers_usableAs registered text
    constructor
    · intro answers
      rw [Bool.eq_iff_iff, answers.eq_true_iff, answered.eq_true_iff]
    · rintro rfl
      exact answered
  constructor
  · rw [grown.sound.usableAs_iff_offers registered]
    constructor
    · rintro ⟨conv, member, same, chain⟩
      exact ⟨conv, member, (chain_iff conv.key).mpr chain, same⟩
    · rintro ⟨conv, member, onChain, same⟩
      exact ⟨conv, member, same, (chain_iff conv.key).mp onChain⟩
  · intro conv member onChain _ further usable
    have convRegistered : conv.key ∈ registry.keys := List.mem_map_of_mem member
    rw [grown.sound.usableAs_iff_offers convRegistered] at usable
    rw [grown.sound.usableAs_iff_offers registered]
    rcases usable with ⟨last, lastMember, same, rest⟩
    exact ⟨last, lastMember, same, ((chain_iff conv.key).mp onChain).trans rest⟩

/-- Over three links, `Disc` can be used as `Thing`, however the text writes it: as what
`Round` can be used as, which `Disc` itself can be used as. -/
theorem usableAs_along_ancestors_three_links :
    let thing := classConverter "Thing"
    let shape := classConverter "Shape"
    let round := classConverter "Round"
    let disc := classConverter "Disc"
    let registry := run {} [.register thing, .register shape, .register round, .register disc,
      .addBase shape.key thing.key, .addBase round.key shape.key, .addBase disc.key round.key]
    registry.Grown ∧ disc.key ∈ registry.keys ∧
      registry.usableAs disc.key "Round" = true ∧
      (∀ answer, registry.Answers (cleanName (canonicalSpelling " ::Thing ")) [disc.key] answer ↔
        answer = true) ∧
      registry.usableAs thing.key "Disc" = false := by
  intro thing shape round disc registry
  have grown : registry.Grown := by
    apply Grown.empty.run
    simp [Call.Fresh, thing, shape, round, disc, classConverter, Converter.ofTypes]
  have discKnown : disc.key ∈ registry.keys := by decide +kernel
  have listed : (round.key, "Round") ∈
      registry.converters.map fun conv => (conv.key, conv.clean) := by
    decide +kernel
  rcases List.mem_map.mp listed with ⟨found, member, same⟩
  rcases Prod.mk.inj same with ⟨isRound, isClean⟩
  have spelled : cleanName (canonicalSpelling "Round") = "Round" := by decide +kernel
  have above : found.key ∈ disc.key :: registry.ancestors disc.key := by
    rw [isRound]
    decide +kernel
  rcases usableAs_along_ancestors grown discKnown "Round" with ⟨-, usable, transitive⟩
  have onward : registry.usableAs found.key " ::Thing " = true := by
    rw [isRound]
    decide +kernel
  have throughout := transitive found member above (isClean.trans spelled.symm) " ::Thing " onward
  rcases usableAs_along_ancestors grown discKnown " ::Thing " with ⟨answers, -⟩
  rw [throughout] at answers
  exact ⟨grown, discKnown, usable.mpr ⟨found, member, above, isClean.trans spelled.symm⟩, answers,
    by decide +kernel⟩

end Bindery.Registry
