import Bindery.Proofs.Registry.Lookup
import Bindery.Signature

/-!
# Resolution of signatures

A signature is resolved text by text: what is read of a text is selected for in the
registry.  Neither the binding nor the place of an argument has a say in what an accepted
signature comes to.
-/

namespace Bindery

namespace Signature

variable {registry : Registry} {context : String}

/-- The text of a result comes to a type and what is selected for it. -/
def ResolvesResult (registry : Registry) (text : String) (result : Return) : Prop :=
  NativeType.parse text = .ok result.type ∧ registry.select result.type = .ok result.converter

/-- The text of an argument comes to a parameter and the registered type selected for it. -/
def ResolvesArg (registry : Registry) (text : String) (slot : Argument) : Prop :=
  Param.parse text = .ok slot.param ∧ registry.select slot.param.type = .ok (some slot.converter)

/-- The texts of a signature come to a prototype. -/
structure Resolves (registry : Registry) (signature : Signature) (proto : Prototype) : Prop where
  result : ResolvesResult registry signature.result proto.result
  args : List.Forall₂ (ResolvesArg registry) signature.args proto.args

theorem resolveResult_eq_ok_iff {text : String} {result : Return} :
    resolveResult registry text = .ok result ↔ ResolvesResult registry text result := by
  simp only [resolveResult, Outcome.bind_eq_ok_iff, Outcome.mapError_eq_ok_iff,
    Outcome.pure_eq_ok_iff]
  constructor
  · rintro ⟨type, parsed, converter, selected, rfl⟩
    exact ⟨parsed, selected⟩
  · rintro ⟨parsed, selected⟩
    exact ⟨result.type, parsed, result.converter, selected, rfl⟩

theorem resolveArg_eq_ok_iff {index : Nat} {text : String} {slot : Argument} :
    resolveArg registry context index text = .ok slot ↔ ResolvesArg registry text slot := by
  simp only [resolveArg, Outcome.bind_eq_ok_iff, Outcome.mapError_eq_ok_iff]
  constructor
  · rintro ⟨param, parsed, _ | converter, selected, done⟩
    · cases done
    · cases done
      exact ⟨parsed, selected⟩
  · rintro ⟨parsed, selected⟩
    exact ⟨slot.param, parsed, some slot.converter, selected, rfl⟩

theorem resolveArgs_eq_ok_iff {index : Nat} {texts : List String} {slots : List Argument} :
    resolveArgs registry context index texts = .ok slots ↔
      List.Forall₂ (ResolvesArg registry) texts slots := by
  induction texts generalizing index slots with
  | nil => rw [resolveArgs, Outcome.pure_eq_ok_iff, List.forall₂_nil_left_iff, eq_comm]
  | cons text rest ih =>
      simp only [resolveArgs, Outcome.bind_eq_ok_iff, Outcome.pure_eq_ok_iff, resolveArg_eq_ok_iff,
        ih, List.forall₂_cons_left_iff]
      constructor
      · rintro ⟨slot, resolved, others, othersResolved, rfl⟩
        exact ⟨slot, others, resolved, othersResolved, rfl⟩
      · rintro ⟨slot, others, resolved, othersResolved, rfl⟩
        exact ⟨slot, resolved, others, othersResolved, rfl⟩

theorem resolve_eq_ok_iff {signature : Signature} {proto : Prototype} :
    signature.resolve registry context = .ok proto ↔ signature.Resolves registry proto := by
  simp only [resolve, Outcome.bind_eq_ok_iff, Outcome.pure_eq_ok_iff, resolveResult_eq_ok_iff,
    resolveArgs_eq_ok_iff]
  constructor
  · rintro ⟨result, resultResolved, args, argsResolved, rfl⟩
    exact ⟨resultResolved, argsResolved⟩
  · rintro ⟨resultResolved, argsResolved⟩
    exact ⟨proto.result, resultResolved, proto.args, argsResolved, rfl⟩

theorem resolveEach_eq_mapM (registry : Registry) (context : String)
    (signatures : List Signature) :
    resolveEach registry context signatures = signatures.mapM (resolve registry context) := by
  induction signatures with
  | nil => rfl
  | cons signature rest ih => rw [resolveEach, List.mapM_cons, ih]

/-- An overload set is resolved signature by signature. -/
theorem resolveAll_eq_ok_iff {binding : Binding} {signatures : List Signature}
    {protos : List Prototype} :
    resolveAll registry binding signatures = .ok protos ↔
      List.Forall₂ (Resolves registry) signatures protos := by
  rw [resolveAll, Outcome.mapError_eq_ok_iff, resolveEach_eq_mapM, Outcome.mapM_eq_ok_iff]
  simp only [resolve_eq_ok_iff]

end Signature

end Bindery
