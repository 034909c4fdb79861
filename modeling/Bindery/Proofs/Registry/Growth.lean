import Bindery.Proofs.Session.Finishing
import Bindery.Proofs.Upcast.LinkOrder

/-!
# How registries grow

A registry grows by registrations, by base links that are accepted, and by whatever
else is declared on a registered type; calls that fail leave it as it is.  The
registry of a session grows in this way, and so does the registry of a history.

A link is tested on the links that are there before it.  In a registry that has grown
the test is exact: a link between two registered types is refused if and only if it
would close a circle.
-/

namespace Bindery.Registry

/-- A registry as it comes about.  A type is registered before bases are declared on
it, and what else is declared on it leaves its key and its bases alone. -/
inductive Grown : Registry → Prop where
  | empty : Grown {}
  | register {registry next : Registry} {conv : Converter} (grown : Grown registry)
      (fresh : conv.bases = []) (accepted : registry.register conv = .ok next) : Grown next
  | addBase {registry next : Registry} {derived base : TypeKey} (grown : Grown registry)
      (accepted : registry.addBase derived base = .ok next) : Grown next
  | declare {registry : Registry} (grown : Grown registry) (key : TypeKey)
      {change : Converter → Converter} (keeps : ∀ conv, (change conv).key = conv.key)
      (keepsBases : ∀ conv, (change conv).bases = conv.bases) :
      Grown (registry.modify key change keeps)

variable {registry next : Registry} {derived base : TypeKey}

namespace Grown

theorem sound (grown : registry.Grown) : registry.Sound := by
  induction grown with
  | empty => exact Sound.empty
  | register _ fresh accepted ih => exact ih.register fresh accepted
  | addBase _ accepted ih => exact ih.addBase accepted
  | declare _ _ keeps keepsBases ih => exact ih.of_links_eq (links_modify keeps keepsBases)

theorem after {call : Call} (grown : registry.Grown) (fresh : call.Fresh) :
    (registry.after call).Grown := by
  unfold Registry.after
  split
  · next next accepted =>
      cases call with
      | register conv => exact grown.register fresh accepted
      | addBase derived base => exact grown.addBase accepted
  · exact grown

theorem run {calls : List Call} (grown : registry.Grown) (fresh : ∀ call ∈ calls, call.Fresh) :
    (registry.run calls).Grown := by
  induction calls generalizing registry with
  | nil => exact grown
  | cons call calls ih =>
      rw [List.forall_mem_cons] at fresh
      exact ih (grown.after fresh.1) fresh.2

theorem takes {entry : Entry} (grown : registry.Grown) (taken : registry.Takes entry next)
    (fresh : ∀ conv ∈ entry.types, conv.bases = []) : next.Grown := by
  cases taken with
  | type accepted => exact grown.register (fresh _ List.mem_cons_self) accepted
  | link accepted => exact grown.addBase accepted
  | function _ => exact grown
  | ctor _ _ => exact grown.declare _ _ fun _ => rfl
  | method _ _ => exact grown.declare _ _ fun _ => rfl
  | member _ => exact grown.declare _ _ fun _ => rfl

theorem takesAll {entries : List Entry} (grown : registry.Grown)
    (taken : registry.TakesAll entries next)
    (fresh : ∀ conv ∈ entries.flatMap Entry.types, conv.bases = []) : next.Grown := by
  induction taken with
  | nil => exact grown
  | cons first _ ih =>
      rw [List.flatMap_cons, List.forall_mem_append] at fresh
      exact ih (grown.takes first fresh.1) fresh.2

/-- The registry of a session grows with every declaration. -/
theorem session {session : Session} {decls : List Declaration} (grown : session.registry.Grown)
    (brings : Session.Brings session.target decls) : (session.run decls).registry.Grown := by
  apply grown.takesAll (session.books_run decls).registry
  intro conv member
  exact (brings.made conv member).blank.bases

end Grown

theorem eq_of_converters_eq (index : next.index = registry.index)
    (converters : next.converters = registry.converters) : next = registry := by
  rcases next with ⟨_, _, _⟩
  cases index
  cases converters
  rfl

section Modify

variable {key : TypeKey} {change : Converter → Converter}
  (keeps : ∀ conv, (change conv).key = conv.key)

theorem index_modify : (registry.modify key change keeps).index = registry.index := by
  unfold modify
  split <;> rfl

/-- A change that has been made already changes nothing. -/
theorem modify_modify (again : ∀ conv, change (change conv) = change conv) :
    (registry.modify key change keeps).modify key change keeps =
      registry.modify key change keeps := by
  apply eq_of_converters_eq
  · exact index_modify keeps
  · rw [converters_modify, converters_modify, List.map_map]
    apply List.map_congr_left
    intro conv _
    by_cases here : conv.key = key
    · simp [here, keeps, again]
    · simp [here]

end Modify

theorem withBase_withBase (base : TypeKey) (conv : Converter) :
    (conv.withBase base).withBase base = conv.withBase base := by
  rw [Converter.withBase, if_pos (Converter.mem_bases_withBase.mpr (.inr rfl))]

/-- What comes of a link follows from whether its ends are registered, whether they
agree, and whether the base leads back to the derived type. -/
theorem addBase_outcomes (registry : Registry) (derived base : TypeKey) :
    ((∃ text, registry.addBase derived base = .error (.typeNotFound text)) ↔
        derived ∉ registry.keys ∨ base ∉ registry.keys) ∧
      ((∃ name, registry.addBase derived base = .error (.selfInheritance name)) ↔
        (derived ∈ registry.keys ∧ base ∈ registry.keys) ∧ derived = base) ∧
      ((∃ first second,
          registry.addBase derived base = .error (.cyclicInheritance first second)) ↔
        (derived ∈ registry.keys ∧ base ∈ registry.keys) ∧ derived ≠ base ∧
          derived ∈ registry.ancestors base) ∧
      ((∃ next, registry.addBase derived base = .ok next) ↔
        (derived ∈ registry.keys ∧ base ∈ registry.keys) ∧ derived ≠ base ∧
          derived ∉ registry.ancestors base) := by
  simp only [← contains_iff_mem_keys, contains_iff_exists_find?]
  unfold addBase get
  cases registry.find? derived with
  | none => simp [bind, Except.bind]
  | some derivedConv =>
      cases registry.find? base with
      | none => simp [bind, Except.bind]
      | some baseConv =>
          by_cases self : derived = base
          · simp [bind, Except.bind, throw, throwThe, MonadExceptOf.throw, self]
          · by_cases leadsBack : derived ∈ registry.ancestors base
            · simp [bind, Except.bind, throw, throwThe, MonadExceptOf.throw, self, leadsBack]
            · simp [bind, Except.bind, pure, Except.pure, self, leadsBack]

/-- A link closes a circle exactly if its base leads back to the derived type, or is
that type. -/
theorem closes_circle_iff (sound : registry.Sound) :
    (∃ key, Relation.TransGen (registry.Joined [(derived, base)]) key key) ↔
      derived = base ∨ derived ∈ registry.ancestors base := by
  have grown : ∀ first second, registry.Joined [(derived, base)] first second →
      registry.DirectBase first second ∨ first = derived ∧ second = base := by
    intro first second joined
    simpa [Joined] using joined
  rw [mem_ancestors_iff, ← Relation.reflTransGen_iff_eq_or_transGen]
  constructor
  · rintro ⟨key, circle⟩
    rcases Graph.transGen_insert grown circle with old | ⟨toDerived, fromBase⟩
    · exact absurd old (sound.acyclic key)
    · exact fromBase.trans toDerived
  · intro leadsBack
    have kept : Relation.ReflTransGen (registry.Joined [(derived, base)]) base derived :=
      Relation.ReflTransGen.mono (fun _ _ link => .inl link) _ _ leadsBack
    exact ⟨base, Relation.TransGen.tail' kept (.inr (by simp))⟩

/-- An accepted link is put behind the other bases of the derived type, unless it is
there already. -/
theorem converters_addBase (accepted : registry.addBase derived base = .ok next) :
    next.converters = registry.converters.map fun conv =>
      if conv.key = derived ∧ base ∉ conv.bases then { conv with bases := conv.bases ++ [base] }
      else conv := by
  rcases addBase_eq_ok_iff.mp accepted with ⟨_, rfl⟩
  rw [converters_modify]
  apply List.map_congr_left
  intro conv _
  by_cases here : conv.key = derived
  · by_cases listed : base ∈ conv.bases <;> simp [here, listed, Converter.withBase]
  · simp [here]

/-- An accepted link is there when it is declared again. -/
theorem addBase_again (sound : registry.Sound)
    (accepted : registry.addBase derived base = .ok next) :
    next.addBase derived base = .ok next := by
  have linked : next.DirectBase derived base :=
    (directBase_addBase_iff accepted).mpr (.inr ⟨rfl, rfl⟩)
  have apart : ¬ Relation.ReflTransGen next.DirectBase base derived := by
    intro leadsBack
    exact (sound.addBase accepted).acyclic derived (.head' linked leadsBack)
  have sameKeys := keys_addBase accepted
  rcases addBase_eq_ok_iff.mp accepted with ⟨⟨derivedKnown, baseKnown, _⟩, rfl⟩
  rw [contains_iff_mem_keys, ← sameKeys, ← contains_iff_mem_keys] at derivedKnown baseKnown
  rw [addBase_eq_ok_iff]
  exact ⟨⟨derivedKnown, baseKnown, apart⟩, (modify_modify _ (withBase_withBase base)).symm⟩

/-- In a registry that has grown, a link fails for lack of a type exactly if one of its
ends is not registered, as a self-link exactly if its ends agree, and as a circle
exactly if it would close one; otherwise it is accepted.  A link that fails changes
nothing.  One that is accepted is put behind the other bases of the derived type, unless
it is there already, and nothing else is changed; declared again it changes nothing. -/
theorem addBase_refuses_exactly (grown : registry.Grown) (derived base : TypeKey) :
    let known := derived ∈ registry.keys ∧ base ∈ registry.keys
    let closes := ∃ key, Relation.TransGen (registry.Joined [(derived, base)]) key key
    ((∃ text, registry.addBase derived base = .error (.typeNotFound text)) ↔
        derived ∉ registry.keys ∨ base ∉ registry.keys) ∧
      ((∃ name, registry.addBase derived base = .error (.selfInheritance name)) ↔
        known ∧ derived = base) ∧
      ((∃ first second,
          registry.addBase derived base = .error (.cyclicInheritance first second)) ↔
        known ∧ derived ≠ base ∧ closes) ∧
      ((∃ next, registry.addBase derived base = .ok next) ↔
        known ∧ derived ≠ base ∧ ¬ closes) ∧
      (∀ error, registry.addBase derived base = .error error →
        registry.after (.addBase derived base) = registry) ∧
      ∀ next, registry.addBase derived base = .ok next →
        registry.after (.addBase derived base) = next ∧
          next.index = registry.index ∧
          next.converters = (registry.converters.map fun conv =>
            if conv.key = derived ∧ base ∉ conv.bases then
              { conv with bases := conv.bases ++ [base] }
            else conv) ∧
          next.addBase derived base = .ok next := by
  intro known closes
  have closes_iff (apart : derived ≠ base) : closes ↔ derived ∈ registry.ancestors base :=
    (closes_circle_iff grown.sound).trans (or_iff_right apart)
  rcases addBase_outcomes registry derived base with ⟨notFound, self, cyclic, accepts⟩
  refine ⟨notFound, self, ?_, ?_, ?_, ?_⟩
  · rw [cyclic]
    exact and_congr_right fun _ => and_congr_right fun apart => (closes_iff apart).symm
  · rw [accepts]
    exact and_congr_right fun _ => and_congr_right fun apart => not_congr (closes_iff apart).symm
  · intro error failed
    simp [after, Call.perform, failed]
  · intro next accepted
    refine ⟨by simp [after, Call.perform, accepted], ?_, converters_addBase accepted,
      addBase_again grown.sound accepted⟩
    rcases addBase_eq_ok_iff.mp accepted with ⟨_, rfl⟩
    exact index_modify _

/-- Where two bases share a base, a link from the shared base back is refused over
either of them; a link that skips them is accepted, and is there from then on. -/
theorem addBase_refuses_exactly_diamond :
    let shape := classConverter "Shape"
    let round := classConverter "Round"
    let flat := classConverter "Flat"
    let disc := classConverter "Disc"
    let registry := run {} [.register disc, .register shape, .register round, .register flat,
      .addBase round.key shape.key, .addBase flat.key shape.key, .addBase disc.key round.key,
      .addBase disc.key flat.key]
    registry.Grown ∧
      (∃ key, Relation.TransGen (registry.Joined [(shape.key, disc.key)]) key key) ∧
      (∃ first second,
        registry.addBase shape.key disc.key = .error (.cyclicInheritance first second)) ∧
      (∃ name, registry.addBase disc.key disc.key = .error (.selfInheritance name)) ∧
      ∃ next, registry.addBase disc.key shape.key = .ok next ∧
        next.addBase disc.key shape.key = .ok next := by
  intro shape round flat disc registry
  have grown : registry.Grown := by
    apply Grown.empty.run
    simp [Call.Fresh, shape, round, flat, disc, classConverter, Converter.ofTypes]
  have shapeKnown : shape.key ∈ registry.keys := by decide +kernel
  have discKnown : disc.key ∈ registry.keys := by decide +kernel
  have apart : shape.key ≠ disc.key := by decide +kernel
  have leadsBack : shape.key ∈ registry.ancestors disc.key := by decide +kernel
  have leadsOn : disc.key ∉ registry.ancestors shape.key := by decide +kernel
  have closes := (closes_circle_iff grown.sound).mpr (.inr leadsBack)
  have opens := mt (closes_circle_iff grown.sound).mp
    (not_or.mpr ⟨apart.symm, leadsOn⟩)
  rcases addBase_refuses_exactly grown shape.key disc.key with ⟨-, -, cyclic, -⟩
  rcases addBase_refuses_exactly grown disc.key disc.key with ⟨-, self, -⟩
  rcases addBase_refuses_exactly grown disc.key shape.key with ⟨-, -, -, accepts, -, changes⟩
  rcases accepts.mpr ⟨⟨discKnown, shapeKnown⟩, apart.symm, opens⟩ with ⟨next, accepted⟩
  exact ⟨grown, closes, cyclic.mpr ⟨⟨shapeKnown, discKnown⟩, apart, closes⟩,
    self.mpr ⟨⟨discKnown, discKnown⟩, rfl⟩, next, accepted, (changes next accepted).2.2.2⟩

end Bindery.Registry
