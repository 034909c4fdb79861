import Bindery.Proofs.CastTable.Ancestry
import Bindery.Proofs.Outcome
import Bindery.Upcast

/-!
# The code of the upcast function

The function knows a type by its label: the tag that tells it apart at run time
and the spelling that a pointer is cast to.  In a sound registry every type that
the cast table names has a label, so the function can be generated, and its code
is a function of the labels alone.
-/

namespace Bindery

/-- What the upcast function says of a type. -/
structure Upcast.Label where
  tag : String
  canonical : String
deriving DecidableEq, Inhabited

/-- What the upcast function says of a converter's type. -/
def Converter.label (conv : Converter) : Upcast.Label :=
  ⟨conv.tag, conv.canonical⟩

/-- The label of the type registered under a key; it is empty if there is none. -/
def Registry.labelOf (registry : Registry) (key : TypeKey) : Upcast.Label :=
  match registry.find? key with
  | some conv => conv.label
  | none => default

theorem Registry.labelOf_of_find? {registry : Registry} {key : TypeKey} {conv : Converter}
    (found : registry.find? key = some conv) : registry.labelOf key = conv.label := by
  rw [labelOf, found]

theorem Draft.converter_of_find? {registry : Registry} {key : TypeKey} {conv : Converter}
    (found : registry.find? key = some conv) : converter registry key = ⟨[], [], .ok conv⟩ := by
  have done : (registry.get key).mapError BindError.registry = .ok conv :=
    Outcome.mapError_eq_ok_iff.mpr (Registry.get_eq_ok_iff.mpr found)
  rw [converter, ofExcept, done]

namespace Upcast

/-- A base with the types that derive from it. -/
abbrev Rung := Label × List Label

/-- The code for the types that derive from one base. -/
def derivedCode (base : Label) : (first : Bool) → List Label → Code
  | _, [] => []
  | first, derived :: rest =>
      [.line ((if first then "if" else "else if") ++ " (in_type_tag == " ++ derived.tag ++ ")"),
        .indent,
        .line ("out_p = (" ++ base.canonical ++ " *)((" ++ derived.canonical ++ " *)in_p);"),
        .dedent] ++ derivedCode base false rest

/-- The code for the types that are asked for. -/
def baseCode : (first : Bool) → List Rung → Code
  | _, [] => []
  | first, (base, derived) :: rest =>
      [.line (Dispatch.rungLine first ("out_type_tag == " ++ base.tag)), .indent] ++
        (derivedCode base true derived ++ ([.dedent] ++ baseCode false rest))

/-- What stands in front of the ladder of bases. -/
def opening : Code :=
  [.line "// type_tag based cast system",
    .line (signature ++ " \x7b"),
    .indent,
    .line "if (out_type_tag == in_type_tag)",
    .indent,
    .line "return in_p;",
    .dedent,
    .blank,
    .line "void *out_p = NULL;",
    .blank]

/-- What stands behind the ladder of bases. -/
def closing : Code :=
  [.line "return out_p;", .dedent, .line "\x7d"]

/-- The code of the function for a ladder of bases. -/
def functionCode (ladder : List Rung) : Code :=
  opening ++ (baseCode true ladder ++
    ((if ladder.isEmpty then [] else [.line "\x7d", .blank]) ++ closing))

/-- The ladder of a cast table. -/
def ladder (registry : Registry) (table : CastTable) : List Rung :=
  table.bases.map fun entry => (registry.labelOf entry.1, entry.2.map registry.labelOf)

variable {registry : Registry}

theorem derivedRungs_eq (base : Converter) (first : Bool) (keys : List TypeKey)
    (known : ∀ key ∈ keys, registry.contains key = true) :
    derivedRungs registry base first keys =
      ⟨derivedCode base.label first (keys.map registry.labelOf), [], .ok ()⟩ := by
  induction keys generalizing first with
  | nil => rfl
  | cons key rest ih =>
      obtain ⟨derived, found⟩ := Registry.contains_iff_exists_find?.mp (known key List.mem_cons_self)
      have later := ih false fun other member => known other (List.mem_cons_of_mem key member)
      rw [derivedRungs, Draft.converter_of_find? found, List.map_cons,
        Registry.labelOf_of_find? found, derivedCode]
      simp only [Draft.bind_eq, Draft.andThen_ok, Draft.write, later, List.nil_append]
      rfl

theorem baseRungs_eq (first : Bool) (entries : List (TypeKey × List TypeKey))
    (known : ∀ entry ∈ entries, registry.contains entry.1 = true ∧
      ∀ key ∈ entry.2, registry.contains key = true) :
    baseRungs registry first entries =
      ⟨baseCode first (entries.map fun entry =>
        (registry.labelOf entry.1, entry.2.map registry.labelOf)), [], .ok ()⟩ := by
  induction entries generalizing first with
  | nil => rfl
  | cons entry rest ih =>
      obtain ⟨key, derived⟩ := entry
      obtain ⟨baseKnown, derivedKnown⟩ := known (key, derived) List.mem_cons_self
      obtain ⟨base, found⟩ := Registry.contains_iff_exists_find?.mp baseKnown
      have later := ih false fun other member => known other (List.mem_cons_of_mem _ member)
      rw [baseRungs, Draft.converter_of_find? found, List.map_cons,
        Registry.labelOf_of_find? found, baseCode]
      simp only [Draft.bind_eq, Draft.andThen_ok, Draft.write, later,
        derivedRungs_eq base true derived derivedKnown, List.nil_append]
      rfl

/-- If every type of the table is registered, the function is generated from
their labels. -/
theorem emit_eq {table : CastTable}
    (known : ∀ entry ∈ table.bases, registry.contains entry.1 = true ∧
      ∀ key ∈ entry.2, registry.contains key = true) :
    emit registry table = ⟨functionCode (ladder registry table), [], .ok ()⟩ := by
  have empty : (ladder registry table).isEmpty = table.bases.isEmpty := by
    rw [ladder, List.isEmpty_map]
  simp only [emit, Draft.bind_eq, Draft.write, Draft.andThen_ok, baseRungs_eq true _ known,
    functionCode, empty]
  rfl

/-- A table names registered types only. -/
theorem known_of_mem_bases {table : CastTable} (built : CastTable.build registry = .ok table) :
    ∀ entry ∈ table.bases, registry.contains entry.1 = true ∧
      ∀ key ∈ entry.2, registry.contains key = true := by
  rintro ⟨base, derived⟩ member
  obtain ⟨rfl, some⟩ := (CastTable.mem_bases_iff built).mp member
  have registered {key : TypeKey} (below : key ∈ registry.heirs base) :
      registry.contains key = true ∧ registry.contains base = true := by
    rw [Registry.heirs, List.mem_filter, decide_eq_true_eq] at below
    obtain ⟨keyKnown, baseKnown⟩ :=
      (CastTable.closed_of_build built).registered_of_mem_ancestors below.2
    exact ⟨Registry.contains_iff_mem_keys.mpr keyKnown,
      Registry.contains_iff_mem_keys.mpr baseKnown⟩
  obtain ⟨key, below⟩ := List.exists_mem_of_ne_nil _ some
  exact ⟨(registered below).2, fun key below => (registered below).1⟩

theorem emit_eq_of_build {table : CastTable} (built : CastTable.build registry = .ok table) :
    emit registry table = ⟨functionCode (ladder registry table), [], .ok ()⟩ :=
  emit_eq (known_of_mem_bases built)

end Upcast

end Bindery
