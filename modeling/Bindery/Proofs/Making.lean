import Bindery.Converter
import Bindery.Proofs.Outcome

/-!
# Converters as they are made

A converter comes from the texts of two types, perhaps under another name on the
host's side.  Its type has then been parsed, and nothing is declared on it.
-/

namespace Bindery.Converter

/-- Converters as they are brought to a session. -/
inductive Made : Converter → Prop where
  | make {type : String} {storage : Option String} {hooks : Hooks} {conv : Converter}
      (made : make type storage hooks = .ok conv) : Made conv
  | boundAs {conv : Converter} (made : Made conv) (name : String) : Made (conv.boundAs name)

/-- The type of the converter has been parsed. -/
def Parsed (conv : Converter) : Prop :=
  ∃ text, NativeType.parse text = .ok conv.type

/-- Nothing is declared on the converter. -/
structure Blank (conv : Converter) : Prop where
  ctor : conv.ctor = none
  methods : conv.methods = []
  members : conv.members = []
  bases : conv.bases = []

theorem exists_of_make {type : String} {storage : Option String} {hooks : Hooks}
    {conv : Converter} (made : make type storage hooks = .ok conv) :
    ∃ parsed stored, NativeType.parse type = .ok parsed ∧ conv = ofTypes parsed stored hooks := by
  obtain ⟨parsed, isParsed, made⟩ := Outcome.bind_eq_ok_iff.mp made
  cases storage with
  | none =>
      cases made
      exact ⟨parsed, parsed, isParsed, rfl⟩
  | some expression =>
      obtain ⟨stored, -, same⟩ := Outcome.bind_eq_ok_iff.mp made
      cases same
      exact ⟨parsed, stored, isParsed, rfl⟩

theorem made_ofTypes {text : String} {type : NativeType}
    (parsed : NativeType.parse text = .ok type) (hooks : Hooks) :
    (ofTypes type type hooks).Made := by
  have made : make text none hooks = .ok (ofTypes type type hooks) := by
    rw [make, parsed]
    rfl
  exact .make made

namespace Made

variable {conv : Converter}

theorem blank (made : conv.Made) : conv.Blank := by
  induction made with
  | make made =>
      obtain ⟨parsed, stored, -, rfl⟩ := exists_of_make made
      exact ⟨rfl, rfl, rfl, rfl⟩
  | boundAs _ name ih => exact ⟨ih.ctor, ih.methods, ih.members, ih.bases⟩

theorem parsed (made : conv.Made) : conv.Parsed := by
  induction made with
  | @make type storage hooks conv made =>
      obtain ⟨parsed, stored, isParsed, rfl⟩ := exists_of_make made
      exact ⟨type, isParsed⟩
  | boundAs _ name ih => exact ih

end Made

end Bindery.Converter
