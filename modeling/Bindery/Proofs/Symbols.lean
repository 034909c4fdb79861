import Bindery.Proofs.Generation
import Bindery.Proofs.Making
import Bindery.Proofs.NativeType.CleanName
import Bindery.Proofs.NativeType.Parameter

/-!
# Symbols made from types and members

A parsed type is spelled with identifier characters, blanks, marks and pairs of colons, and
starts with a word, so its identifier-safe form is an identifier.  The tag of a type and the
symbols of accessors put underscores, words and the name of a member around it.
-/

namespace Bindery

open Text Grammar

/-- Behind an underscore any identifier characters may come. -/
theorem isIdent_underscore_iff {text : String} :
    IsIdent ("_" ++ text).toList ↔ ∀ c ∈ text.toList, isIdentPart c = true := by
  have split : ("_" ++ text).toList = '_' :: text.toList := by simp
  rw [split]
  constructor
  · intro ident c member
    exact ident.parts c (List.mem_cons_of_mem '_' member)
  · intro parts
    exact ⟨rfl, List.forall_mem_cons.mpr ⟨rfl, parts⟩⟩

theorem forall_isIdentPart_append {first second : String} :
    (∀ c ∈ (first ++ second).toList, isIdentPart c = true) ↔
      (∀ c ∈ first.toList, isIdentPart c = true) ∧ ∀ c ∈ second.toList, isIdentPart c = true := by
  rw [String.toList_append, List.forall_mem_append]

namespace Grammar

/-- A canonical spelling starts with a qualifier or with the first part of the name. -/
theorem begins_isIdentStart_canonical {type : NativeType}
    (idents : ∀ part ∈ type.name.parts, IsIdent part.toList) :
    begins isIdentStart type.canonical.toList = true := by
  have name := begins_isIdentStart_pathChars type.name.parts_ne_nil idents
  rw [← text_canonicalPieces]
  rcases type with ⟨_ | _, _ | (_ | _), name, marks⟩
  · exact begins_append_of_begins name _
  all_goals rfl

theorem Spelling.begins_cleanChars {chars : List Char} (spelling : Spelling chars)
    (starts : begins isIdentStart chars = true) :
    begins isIdentStart (cleanChars chars) = true := by
  cases spelling with
  | nil => cases starts
  | scope _ => cases starts
  | plain isPlain _ =>
      rw [begins_cons] at starts
      rw [cleanChars_cons isPlain, cleanChar_of_isIdentPart (isIdentPart_of_isIdentStart starts)]
      exact starts

end Grammar

/-- The identifier-safe form of a parsed type is an identifier. -/
theorem NativeType.isIdent_cleanName {text : String} {type : NativeType}
    (parsed : parse text = .ok type) : IsIdent (cleanName type.canonical).toList := by
  obtain ⟨pieces, -, spelled⟩ := exists_spell_of_parse parsed
  have spelling := spelling_of_parse parsed
  have starts := begins_isIdentStart_canonical spelled.name.1
  constructor
  · rw [cleanName, String.toList_ofList]
    exact spelling.begins_cleanChars starts
  · rw [cleanName, String.toList_ofList]
    exact fun c => spelling.isIdentPart_cleanChars

namespace Profile

variable {profile : Profile}

theorem isIdent_clean {text : String} (parsed : NativeType.parse text = .ok profile.type) :
    IsIdent profile.clean.toList := by
  rw [clean_eq]
  exact NativeType.isIdent_cleanName parsed

theorem isIdent_tag (clean : IsIdent profile.clean.toList) : IsIdent profile.tag.toList := by
  have split : profile.tag = "_" ++ ("_" ++ profile.clean ++ "_type_tag") := by
    simp [tag, ← String.append_assoc]
  rw [split, isIdent_underscore_iff, forall_isIdentPart_append, forall_isIdentPart_append]
  exact ⟨⟨List.all_eq_true.mp rfl, clean.parts⟩, List.all_eq_true.mp rfl⟩

end Profile

namespace Accessors

/-- The symbol of an accessor, with the word in it that tells what it does. -/
theorem isIdent_append {clean word name : String} (cleanIdent : IsIdent clean.toList)
    (parts : ∀ c ∈ word.toList, isIdentPart c = true) (nameIdent : IsIdent name.toList) :
    IsIdent ("_" ++ clean ++ word ++ name).toList := by
  rw [String.append_assoc, String.append_assoc, isIdent_underscore_iff,
    forall_isIdentPart_append, forall_isIdentPart_append]
  exact ⟨cleanIdent.parts, parts, nameIdent.parts⟩

theorem isIdent_of_plan {registry : Registry} {owner member : String} {accessors : Accessors}
    (clean : ∀ conv ∈ registry.converters, IsIdent conv.clean.toList)
    (planned : plan registry owner member = .ok accessors) :
    IsIdent accessors.getter.toList ∧ IsIdent accessors.setter.toList := by
  obtain ⟨_, ownerConv, ⟨type, _⟩, name, _, -, -, found, memberParsed, rfl, -, -, rfl⟩ :=
    exists_of_plan planned
  obtain ⟨-, front, trail, -, nameIdent, -⟩ := Param.exists_front_of_parse memberParsed
  have ownerIdent := clean ownerConv (Registry.find?_eq_some_iff.mp found).1
  have get : ∀ c ∈ "_get_".toList, isIdentPart c = true := List.all_eq_true.mp rfl
  have set : ∀ c ∈ "_set_".toList, isIdentPart c = true := List.all_eq_true.mp rfl
  exact ⟨isIdent_append ownerIdent get nameIdent, isIdent_append ownerIdent set nameIdent⟩

theorem getter_ne_setter_of_plan {registry : Registry} {owner member : String}
    {accessors : Accessors} (planned : plan registry owner member = .ok accessors) :
    accessors.getter ≠ accessors.setter := by
  obtain ⟨_, ownerConv, _, name, _, -, -, -, -, -, -, -, rfl⟩ := exists_of_plan planned
  intro same
  rw [String.append_left_inj, String.append_right_inj] at same
  exact absurd same (by decide)

end Accessors

/-- Symbols made from types and members are identifiers: the identifier-safe form and the tag of
every converter that is made from a text, and the symbols of the accessors of every member of
types made so, which also differ from each other. -/
theorem derived_symbols_are_identifiers :
    (∀ (text : String) (storage : Option String) (hooks : Hooks) (conv : Converter),
        Converter.make text storage hooks = .ok conv →
          IsIdent conv.clean.toList ∧ IsIdent conv.tag.toList) ∧
      ∀ registry : Registry,
        (∀ conv ∈ registry.converters, ∃ made : Converter, made.Made ∧ made.type = conv.type) →
        ∀ (owner member : String) (accessors : Accessors),
          Accessors.plan registry owner member = .ok accessors →
            IsIdent accessors.getter.toList ∧ IsIdent accessors.setter.toList ∧
              accessors.getter ≠ accessors.setter := by
  constructor
  · intro text storage hooks conv made
    obtain ⟨parsed, stored, isParsed, rfl⟩ := Converter.exists_of_make made
    have clean : IsIdent (Converter.ofTypes parsed stored hooks).clean.toList :=
      Profile.isIdent_clean isParsed
    exact ⟨clean, Profile.isIdent_tag clean⟩
  · intro registry allMade owner member accessors planned
    have clean : ∀ conv ∈ registry.converters, IsIdent conv.clean.toList := by
      intro conv registered
      obtain ⟨given, made, sameType⟩ := allMade conv registered
      obtain ⟨text, parsed⟩ := made.parsed
      exact Profile.isIdent_clean (sameType ▸ parsed)
    obtain ⟨getter, setter⟩ := Accessors.isIdent_of_plan clean planned
    exact ⟨getter, setter, Accessors.getter_ne_setter_of_plan planned⟩

/-- Qualifiers, marks and white space become underscores and letters in the tag of a type, and
those in an owner's text are not in the symbols of its accessors. -/
theorem derived_symbols_are_identifiers_node :
    let marked : NativeType := ⟨true, none, ⟨["geo"], "Node"⟩, [.pointer, .reference]⟩
    let conv : Converter := .ofTypes marked marked Dispatch.plainHooks
    Converter.make "const\tgeo::Node*&" none Dispatch.plainHooks = .ok conv ∧
      conv.tag = "__const_geo__Node_ptr_r_type_tag" ∧ IsIdent conv.tag.toList ∧
      ∃ registry accessors, Dispatch.nodeRegistry = .ok registry ∧
        Accessors.plan registry "const Node &" "Node *next" = .ok accessors ∧
        accessors.getter = "_Node_get_next" ∧ IsIdent accessors.getter.toList ∧
        IsIdent accessors.setter.toList ∧ accessors.getter ≠ accessors.setter := by
  intro marked conv
  have parsed : NativeType.parse "const\tgeo::Node*&" = .ok marked := by decide +kernel
  have intParsed : NativeType.parse "int" = .ok ⟨false, none, .simple "int", []⟩ := by
    decide +kernel
  have nodeParsed : NativeType.parse "Node" = .ok ⟨false, none, .simple "Node", []⟩ := by
    decide +kernel
  have made : Converter.make "const\tgeo::Node*&" none Dispatch.plainHooks = .ok conv := by
    rw [Converter.make, parsed]
    rfl
  have isTag : conv.tag = "__const_geo__Node_ptr_r_type_tag" := by decide +kernel
  have succeeds : (do
      let registry ← Dispatch.nodeRegistry.mapError .registry
      let accessors ← Accessors.plan registry "const Node &" "Node *next"
      return (registry.converters.map (·.type), accessors.getter) :
        Except BindError (List NativeType × String)) =
      .ok ([⟨false, none, .simple "int", []⟩, ⟨false, none, .simple "Node", []⟩],
        "_Node_get_next") := by
    decide +kernel
  obtain ⟨registry, registered, succeeds⟩ := Outcome.bind_eq_ok_iff.mp succeeds
  obtain ⟨accessors, planned, same⟩ := Outcome.bind_eq_ok_iff.mp succeeds
  obtain ⟨types, getter⟩ := Prod.mk.inj (Outcome.pure_eq_ok_iff.mp same)
  have allMade : ∀ conv ∈ registry.converters,
      ∃ made : Converter, made.Made ∧ made.type = conv.type := by
    intro conv member
    have isType : conv.type ∈ registry.converters.map (·.type) := List.mem_map_of_mem member
    rw [types, List.mem_pair] at isType
    rcases isType with isInt | isNode
    · exact ⟨_, Converter.made_ofTypes intParsed Dispatch.plainHooks, isInt.symm⟩
    · exact ⟨_, Converter.made_ofTypes nodeParsed Dispatch.plainHooks, isNode.symm⟩
  obtain ⟨ofTypes, ofMembers⟩ := derived_symbols_are_identifiers
  exact ⟨made, isTag, (ofTypes _ _ _ _ made).2, registry, accessors,
    Outcome.mapError_eq_ok_iff.mp registered, planned, getter,
    ofMembers registry allMade _ _ accessors planned⟩

end Bindery
