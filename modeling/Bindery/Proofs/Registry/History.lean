import Bindery.Proofs.Registry.Inheritance

/-!
# Histories of a registry

A history is a sequence of registrations and base links, of which any may be
refused.  What holds of the registry after every history follows from what one
call keeps: links lead to registered types and never in a circle, and the types
stand in the order in which they were accepted.
-/

namespace Bindery.Registry

/-- What is asked of a registry. -/
inductive Call where
  | register (conv : Converter)
  | addBase (derived base : TypeKey)

namespace Call

/-- The outcome of a call. -/
def perform (registry : Registry) : Call → Except RegistryError Registry
  | .register conv => registry.register conv
  | .addBase derived base => registry.addBase derived base

/-- A type is registered before bases are declared on it. -/
def Fresh : Call → Prop
  | .register conv => conv.bases = []
  | .addBase _ _ => True

/-- The type that a call asks to be registered. -/
def registers : Call → List Converter
  | .register conv => [conv]
  | .addBase _ _ => []

end Call

/-- The registry after a call, which a refused call leaves as it was. -/
def after (registry : Registry) (call : Call) : Registry :=
  match call.perform registry with
  | .ok next => next
  | .error _ => registry

/-- The registry after a history. -/
def run (registry : Registry) (calls : List Call) : Registry :=
  calls.foldl after registry

/-- The types whose registration a call brings about. -/
def acceptedBy (registry : Registry) (call : Call) : List Converter :=
  match call.perform registry with
  | .ok _ => call.registers
  | .error _ => []

/-- The types that a history registers, in the order of the calls. -/
def accepted (registry : Registry) : List Call → List Converter
  | [] => []
  | call :: calls => registry.acceptedBy call ++ (registry.after call).accepted calls

/-- Bases are registered and listed once, and no type is its own ancestor. -/
structure Sound (registry : Registry) : Prop where
  registered : ∀ conv ∈ registry.converters, ∀ base ∈ conv.bases, base ∈ registry.keys
  nodup : ∀ conv ∈ registry.converters, conv.bases.Nodup
  acyclic : ∀ key, ¬ Relation.TransGen registry.DirectBase key key

namespace Sound

variable {registry next : Registry}

theorem empty : Sound {} := by
  constructor
  · intro conv member
    cases member
  · intro conv member
    cases member
  · intro key cycle
    obtain ⟨_, link, _⟩ := Relation.TransGen.head'_iff.mp cycle
    obtain ⟨_, member, _⟩ := directBase_iff.mp link
    cases member

/-- A type that names no base adds no link. -/
theorem register {conv : Converter} (sound : registry.Sound) (fresh : conv.bases = [])
    (accepted : registry.register conv = .ok next) : next.Sound := by
  obtain ⟨_, converters, _⟩ := register_eq_ok_iff.mp accepted
  have old {other : Converter} {base : TypeKey} (member : other ∈ next.converters)
      (listed : base ∈ other.bases) : other ∈ registry.converters := by
    rw [converters, List.mem_append, List.mem_singleton] at member
    rcases member with old | rfl
    · exact old
    · rw [fresh] at listed
      cases listed
  constructor
  · intro other member base listed
    have known := sound.registered other (old member listed) base listed
    rw [keys_of_register accepted]
    exact List.mem_append_left _ known
  · intro other member
    rw [converters, List.mem_append, List.mem_singleton] at member
    rcases member with member | rfl
    · exact sound.nodup other member
    · rw [fresh]
      exact List.nodup_nil
  · intro key cycle
    have older : next.DirectBase ≤ registry.DirectBase := by
      intro derived base link
      obtain ⟨other, member, sameKey, listed⟩ := directBase_iff.mp link
      exact directBase_iff.mpr ⟨other, old member listed, sameKey, listed⟩
    exact sound.acyclic key (Relation.TransGen.mono older key key cycle)

/-- An accepted link leads to a registered type that does not lead back. -/
theorem addBase {derived base : TypeKey} (sound : registry.Sound)
    (accepted : registry.addBase derived base = .ok next) : next.Sound := by
  obtain ⟨⟨_, baseKnown, apart⟩, rfl⟩ := addBase_eq_ok_iff.mp accepted
  constructor
  · intro conv member other listed
    rw [keys_modify]
    have link := directBase_modify (directBase_iff.mpr ⟨conv, member, rfl, listed⟩)
    rcases link with old | ⟨_, rfl⟩
    · obtain ⟨before, beforeMember, _, beforeListed⟩ := directBase_iff.mp old
      exact sound.registered before beforeMember other beforeListed
    · exact contains_iff_mem_keys.mp baseKnown
  · intro conv member
    rw [converters_modify] at member
    obtain ⟨before, beforeMember, rfl⟩ := List.mem_map.mp member
    have nodup := sound.nodup before beforeMember
    split
    · exact Converter.nodup_bases_withBase base nodup
    · exact nodup
  · exact Graph.acyclic_insert sound.acyclic (fun _ _ => directBase_modify) apart

theorem after {call : Call} (sound : registry.Sound) (fresh : call.Fresh) :
    (registry.after call).Sound := by
  unfold Registry.after
  split
  · next next accepted =>
      cases call with
      | register conv => exact sound.register fresh accepted
      | addBase derived base => exact sound.addBase accepted
  · exact sound

theorem run {calls : List Call} (sound : registry.Sound) (fresh : ∀ call ∈ calls, call.Fresh) :
    (registry.run calls).Sound := by
  induction calls generalizing registry with
  | nil => exact sound
  | cons call calls ih =>
      apply ih
      · exact sound.after (fresh call List.mem_cons_self)
      · intro later member
        exact fresh later (List.mem_cons_of_mem call member)

end Sound

section Order

variable {registry : Registry}

/-- A link changes nothing of a type but its bases. -/
theorem withoutBases_modify (derived base : TypeKey) :
    (registry.modify derived (·.withBase base) (·.key_withBase base)).converters.map
        Converter.withoutBases =
      registry.converters.map Converter.withoutBases := by
  rw [converters_modify, List.map_map]
  apply List.map_congr_left
  intro conv _
  by_cases here : conv.key = derived <;> simp [here, Converter.withoutBases_withBase]

theorem withoutBases_after {call : Call} (fresh : call.Fresh) :
    (registry.after call).converters.map Converter.withoutBases =
      registry.converters.map Converter.withoutBases ++ registry.acceptedBy call := by
  unfold after acceptedBy
  cases performed : call.perform registry with
  | error error => simp
  | ok next =>
      cases call with
      | register conv =>
          obtain ⟨_, converters, _⟩ := register_eq_ok_iff.mp performed
          simp [converters, Call.registers, Converter.withoutBases_eq_self fresh]
      | addBase derived base =>
          obtain ⟨_, rfl⟩ := addBase_eq_ok_iff.mp performed
          simpa [Call.registers] using withoutBases_modify derived base

theorem withoutBases_run (registry : Registry) {calls : List Call}
    (fresh : ∀ call ∈ calls, call.Fresh) :
    (registry.run calls).converters.map Converter.withoutBases =
      registry.converters.map Converter.withoutBases ++ registry.accepted calls := by
  induction calls generalizing registry with
  | nil => simp [run, accepted]
  | cons call calls ih =>
      have later := ih (registry.after call) fun later member =>
        fresh later (List.mem_cons_of_mem call member)
      rw [withoutBases_after (fresh call List.mem_cons_self), List.append_assoc] at later
      exact later

end Order

theorem run_empty_invariant (calls : List Call) (fresh : ∀ call ∈ calls, call.Fresh) :
    let reached := run {} calls
    reached.keys.Nodup ∧
      (∀ key place, reached.index.place? key = some place ↔
        (reached.converters[place]?).map (·.key) = some key) ∧
      reached.converters.map Converter.withoutBases = accepted {} calls ∧
      (∀ conv ∈ reached.converters, ∀ base ∈ conv.bases, base ∈ reached.keys) ∧
      (∀ conv ∈ reached.converters, conv.bases.Nodup) ∧
      (∀ key, ¬ Relation.TransGen reached.DirectBase key key) ∧
      ∀ key, key ∉ reached.ancestors key := by
  intro reached
  have sound : reached.Sound := Sound.empty.run fresh
  have ordered := withoutBases_run {} fresh
  refine ⟨reached.nodup_keys, reached.finds, ordered, sound.registered, sound.nodup,
    sound.acyclic, ?_⟩
  intro key self
  exact sound.acyclic key (mem_ancestors_iff.mp self)

/-- The converter of a class, with empty texts. -/
def classConverter (name : String) : Converter :=
  .ofTypes (.ofName name) (.ofName name) ⟨fun _ _ => "", fun _ _ _ => "", fun _ _ _ _ _ => "",
    fun _ _ => "", fun _ _ => ""⟩

theorem run_empty_invariant_refused_cycle :
    let shape := classConverter "Shape"
    let circle := classConverter "Circle"
    let calls : List Call := [.register shape, .register circle, .addBase circle.key shape.key,
      .addBase shape.key circle.key, .register shape]
    (∀ call ∈ calls, call.Fresh) ∧
      (run {} calls).keys = [shape.key, circle.key] ∧
      (run {} calls).ancestors circle.key = [shape.key] ∧
      ∀ key, key ∉ (run {} calls).ancestors key := by
  intro shape circle calls
  have fresh : ∀ call ∈ calls, call.Fresh := by
    simp [calls, Call.Fresh, shape, circle, classConverter, Converter.ofTypes]
  have invariant := run_empty_invariant calls fresh
  exact ⟨fresh, by decide +kernel, by decide +kernel, invariant.2.2.2.2.2.2⟩

end Bindery.Registry
