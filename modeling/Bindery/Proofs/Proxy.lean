import Bindery.Binding
import Bindery.Proofs.NativeType.Grammar

/-!
# Symbols of bindings

The symbol of a generated entry point is a path of identifiers joined by two underscores.
A function goes by its own path, a constructor by that of its type and `constructor`, a
method by that of its type and its name.  So bindings of different kinds that go by one path
share a symbol.  Otherwise symbols are told apart as long as it is seen where an identifier
ends: none has two underscores in a row or one at its end.
-/

namespace Bindery

open Text Grammar

namespace Grammar

/-- The text is a path: identifiers joined by `::`. -/
structure IsPath (text : String) (parts : List String) : Prop where
  nonempty : parts ≠ []
  idents : ∀ part ∈ parts, IsIdent part.toList
  joined : text = "::".intercalate parts

instance (text : String) (parts : List String) : Decidable (IsPath text parts) :=
  decidable_of_iff (_ ∧ _ ∧ _)
    ⟨fun ⟨nonempty, idents, joined⟩ => ⟨nonempty, idents, joined⟩,
      fun path => ⟨path.nonempty, path.idents, path.joined⟩⟩

theorem intercalate_concat (separator : String) {parts : List String} (nonempty : parts ≠ [])
    (last : String) : separator.intercalate (parts ++ [last]) =
      separator.intercalate parts ++ separator ++ last := by
  rw [String.intercalate_append_of_ne_nil nonempty (List.cons_ne_nil _ _),
    String.intercalate_singleton]

theorem IsPath.text_eq {text other : String} {parts : List String} (path : IsPath text parts)
    (otherPath : IsPath other parts) : text = other :=
  path.joined.trans otherPath.joined.symm

theorem IsPath.concat {text last : String} {parts : List String} (path : IsPath text parts)
    (ident : IsIdent last.toList) : IsPath (text ++ "::" ++ last) (parts ++ [last]) := by
  refine ⟨by simp, List.forall_mem_append.mpr ⟨path.idents, ?_⟩, ?_⟩
  · rwa [List.forall_mem_singleton]
  · rw [intercalate_concat _ path.nonempty, path.joined]

/-- A path that goes on with an identifier is told apart by what goes on and by the identifier. -/
theorem IsPath.concat_inj {text other last otherLast : String} {parts others : List String}
    (path : IsPath text parts) (otherPath : IsPath other others)
    (same : parts ++ [last] = others ++ [otherLast]) : text = other ∧ last = otherLast := by
  rcases List.append_inj' same rfl with ⟨rfl, sameLast⟩
  exact ⟨path.text_eq otherPath, List.singleton_inj.mp sameLast⟩

theorem mangleChars_cons {c : Char} (noColon : c ≠ ':') (rest : List Char) :
    mangleChars (c :: rest) = c :: mangleChars rest := by
  rw [mangleChars]
  exact fun _ colon => absurd colon noColon

theorem ne_colon_of_isIdentPart {c : Char} (ident : isIdentPart c = true) : c ≠ ':' := by
  rintro rfl
  cases ident

/-- Identifiers are kept as they are. -/
theorem mangleChars_append {chars : List Char} (idents : ∀ c ∈ chars, isIdentPart c = true)
    (rest : List Char) : mangleChars (chars ++ rest) = chars ++ mangleChars rest := by
  induction chars with
  | nil => rfl
  | cons c chars ih =>
      rcases List.forall_mem_cons.mp idents with ⟨ident, idents⟩
      rw [List.cons_append, mangleChars_cons (ne_colon_of_isIdentPart ident), ih idents,
        List.cons_append]

theorem mangleChars_pathChars {parts : List String} (idents : ∀ part ∈ parts, IsIdent part.toList) :
    mangleChars (pathChars parts) = "__".toList.intercalate (parts.map String.toList) := by
  induction parts with
  | nil => rfl
  | cons part others ih =>
      rcases List.forall_mem_cons.mp idents with ⟨ident, otherIdents⟩
      have kept := mangleChars_append ident.parts
      by_cases single : others = []
      · simpa [single, pathChars, mangleChars] using kept []
      · have more : others.map String.toList ≠ [] := by simpa using single
        rw [pathChars_cons part single, kept, List.map_cons, List.intercalate_cons_of_ne_nil more,
          ← ih otherIdents, List.append_assoc]
        rfl

/-- In a symbol the identifiers of a path are joined by two underscores. -/
theorem IsPath.mangle_eq {text : String} {parts : List String} (path : IsPath text parts) :
    mangle text = "__".intercalate parts := by
  rw [← String.toList_inj, mangle, String.toList_ofList, String.toList_intercalate, path.joined,
    String.toList_intercalate]
  exact mangleChars_pathChars path.idents

/-- Even with an underscore behind it, the identifier has no two underscores in a row. -/
def Separable (part : String) : Prop :=
  ¬ "__".toList <:+: part.toList ++ ['_']

instance (part : String) : Decidable (Separable part) :=
  inferInstanceAs (Decidable (¬ _))

section Separable

variable {part other : String} {rest otherRest : List Char}

theorem Separable.toList_ne (separable : Separable part) (front : List Char) :
    part.toList ≠ front ++ '_' :: '_' :: rest := by
  intro split
  exact separable ⟨front, rest ++ ['_'], by simp [split]⟩

/-- The longer of two identifiers would have two underscores where the shorter one ends. -/
theorem Separable.eq_of_longer (separable : Separable other) {more : List Char}
    (longer : other.toList = part.toList ++ more)
    (same : '_' :: '_' :: rest = more ++ '_' :: '_' :: otherRest) :
    part = other ∧ rest = otherRest := by
  -- One character more is the first underscore, and two are both.
  rcases more with _ | ⟨c, _ | ⟨d, more⟩⟩
  · cases same
    rw [List.append_nil] at longer
    exact ⟨String.toList_inj.mp longer.symm, rfl⟩
  · cases same
    exact absurd ⟨part.toList, [], by simp [longer]⟩ separable
  · cases same
    exact absurd longer (separable.toList_ne part.toList)

/-- It is seen where an identifier ends in front of two underscores. -/
theorem Separable.cut (separable : Separable part) (otherSeparable : Separable other)
    (same : part.toList ++ '_' :: '_' :: rest = other.toList ++ '_' :: '_' :: otherRest) :
    part = other ∧ rest = otherRest := by
  rcases List.append_eq_append_iff.mp same with ⟨more, longer, behind⟩ | ⟨more, longer, behind⟩
  · exact otherSeparable.eq_of_longer longer behind
  · rcases separable.eq_of_longer longer behind with ⟨sameFirst, sameRest⟩
    exact ⟨sameFirst.symm, sameRest.symm⟩

end Separable

theorem toList_symbol_cons (part : String) {others : List String} (more : others ≠ []) :
    ("__".intercalate (part :: others)).toList =
      part.toList ++ '_' :: '_' :: ("__".intercalate others).toList := by
  rw [String.intercalate_cons_of_ne_nil more]
  simp

/-- A symbol tells the identifiers that it is joined from. -/
theorem parts_eq_of_symbol_eq {parts others : List String} (nonempty : parts ≠ [])
    (otherNonempty : others ≠ []) (separable : ∀ part ∈ parts, Separable part)
    (otherSeparable : ∀ part ∈ others, Separable part)
    (same : "__".intercalate parts = "__".intercalate others) : parts = others := by
  induction parts generalizing others with
  | nil => exact absurd rfl nonempty
  | cons part parts ih =>
      rcases List.exists_cons_of_ne_nil otherNonempty with ⟨other, others, rfl⟩
      rcases List.forall_mem_cons.mp separable with ⟨first, separable⟩
      rcases List.forall_mem_cons.mp otherSeparable with ⟨otherFirst, otherSeparable⟩
      rw [← String.toList_inj] at same
      by_cases single : parts = [] <;> by_cases otherSingle : others = []
      · rw [single, otherSingle, String.intercalate_singleton, String.intercalate_singleton,
          String.toList_inj] at same
        rw [single, otherSingle, same]
      · rw [single, String.intercalate_singleton, toList_symbol_cons other otherSingle] at same
        exact absurd same (first.toList_ne _)
      · rw [otherSingle, String.intercalate_singleton, toList_symbol_cons part single] at same
        exact absurd same.symm (otherFirst.toList_ne _)
      · rw [toList_symbol_cons part single, toList_symbol_cons other otherSingle] at same
        rcases first.cut otherFirst same with ⟨sameFirst, sameRest⟩
        have sameOthers := ih single otherSingle separable otherSeparable
          (String.toList_inj.mp sameRest)
        rw [sameFirst, sameOthers]

end Grammar

/-! ## Bindings -/

namespace Binding

/-- The path that a binding goes by. -/
def fullName : Binding → String
  | .function name => name
  | .ctor owner _ => owner ++ "::constructor"
  | .method owner name _ => owner ++ "::" ++ name

/-- The names in a binding are paths and identifiers, its type is known by its own key, and
the binding goes by these identifiers. -/
def NamedBy : Binding → List String → Prop
  | .function name, path => IsPath name path
  | .ctor owner key, path =>
      key = TypeKey.ofName owner ∧ ∃ parts, IsPath owner parts ∧ path = parts ++ ["constructor"]
  | .method owner name key, path =>
      key = TypeKey.ofName owner ∧ IsIdent name.toList ∧
        ∃ parts, IsPath owner parts ∧ path = parts ++ [name]

/-- Two bindings of different kinds go by one path. -/
inductive Clashes : Binding → Binding → Prop where
  | function_ctor (owner : String) (key : TypeKey) :
      Clashes (.function (owner ++ "::constructor")) (.ctor owner key)
  | function_method (owner name : String) (key : TypeKey) :
      Clashes (.function (owner ++ "::" ++ name)) (.method owner name key)
  | ctor_method (owner : String) (key : TypeKey) :
      Clashes (.ctor owner key) (.method owner "constructor" key)

theorem Clashes.fullName_eq {first second : Binding} (clash : first.Clashes second) :
    first.fullName = second.fullName := by
  cases clash with
  | function_ctor owner key => rfl
  | function_method owner name key => rfl
  | ctor_method owner key =>
      rw [fullName, fullName, String.append_assoc]
      rfl

theorem isIdent_constructor : IsIdent "constructor".toList := by
  decide +kernel

namespace NamedBy

variable {binding first second : Binding} {path otherPath : List String}

theorem isPath (named : binding.NamedBy path) : IsPath binding.fullName path := by
  cases binding with
  | function name => exact named
  | ctor owner key =>
      rcases named with ⟨-, parts, isPath, rfl⟩
      have longer := isPath.concat isIdent_constructor
      rwa [String.append_assoc] at longer
  | method owner name key =>
      rcases named with ⟨-, ident, parts, isPath, rfl⟩
      exact isPath.concat ident

/-- The symbol of a binding is its path, joined by two underscores, between underscores. -/
theorem proxy_eq (named : binding.NamedBy path) :
    binding.proxy = "_" ++ "__".intercalate path ++ "__" := by
  cases binding with
  | function name =>
      have isPath : IsPath name path := named
      rw [proxy, isPath.mangle_eq]
  | ctor owner key =>
      rcases named with ⟨-, parts, isPath, rfl⟩
      rw [proxy, isPath.mangle_eq, intercalate_concat _ isPath.nonempty]
      simp [String.append_assoc]
  | method owner name key =>
      rcases named with ⟨-, -, parts, isPath, rfl⟩
      rw [proxy, isPath.mangle_eq, intercalate_concat _ isPath.nonempty]
      simp only [String.append_assoc]

theorem proxy_eq_iff (named : first.NamedBy path) (otherNamed : second.NamedBy otherPath) :
    first.proxy = second.proxy ↔ "__".intercalate path = "__".intercalate otherPath := by
  rw [named.proxy_eq, otherNamed.proxy_eq, String.append_left_inj, String.append_right_inj]

/-- Bindings of one kind are told apart by the paths that they go by. -/
theorem eq_or_clashes (named : first.NamedBy path) (otherNamed : second.NamedBy path) :
    first = second ∨ first.Clashes second ∨ second.Clashes first := by
  have same : first.fullName = second.fullName := named.isPath.text_eq otherNamed.isPath
  cases first with
  | function name =>
      cases second with
      | function other => exact .inl (congrArg function same)
      | ctor owner key =>
          cases same
          exact .inr (.inl (.function_ctor owner key))
      | method owner other key =>
          cases same
          exact .inr (.inl (.function_method owner other key))
  | ctor owner key =>
      rcases named with ⟨rfl, parts, isPath, rfl⟩
      cases second with
      | function other =>
          cases same
          exact .inr (.inr (.function_ctor owner _))
      | ctor other otherKey =>
          rcases otherNamed with ⟨rfl, others, otherPath, samePath⟩
          rcases isPath.concat_inj otherPath samePath with ⟨rfl, -⟩
          exact .inl rfl
      | method other name otherKey =>
          rcases otherNamed with ⟨rfl, -, others, otherPath, samePath⟩
          rcases isPath.concat_inj otherPath samePath with ⟨rfl, rfl⟩
          exact .inr (.inl (.ctor_method owner _))
  | method owner name key =>
      rcases named with ⟨rfl, -, parts, isPath, rfl⟩
      cases second with
      | function other =>
          cases same
          exact .inr (.inr (.function_method owner name _))
      | ctor other otherKey =>
          rcases otherNamed with ⟨rfl, others, otherPath, samePath⟩
          rcases isPath.concat_inj otherPath samePath with ⟨rfl, rfl⟩
          exact .inr (.inr (.ctor_method owner _))
      | method other otherName otherKey =>
          rcases otherNamed with ⟨rfl, -, others, otherPath, samePath⟩
          rcases isPath.concat_inj otherPath samePath with ⟨rfl, rfl⟩
          exact .inl rfl

end NamedBy

/-- Symbols are the same exactly if the paths are when joined by two underscores.  Bindings of
different kinds that go by one path share their symbol; where it is seen where the identifiers
end, no other two bindings do. -/
theorem proxy_eq_iff_clashes {first second : Binding} {path otherPath : List String}
    (named : first.NamedBy path) (otherNamed : second.NamedBy otherPath) :
    (first.proxy = second.proxy ↔ "__".intercalate path = "__".intercalate otherPath) ∧
      (first.Clashes second ∨ second.Clashes first → first.proxy = second.proxy) ∧
      ((∀ part ∈ path, Separable part) → (∀ part ∈ otherPath, Separable part) →
        first.proxy = second.proxy →
          first = second ∨ first.Clashes second ∨ second.Clashes first) := by
  have proxies := named.proxy_eq_iff otherNamed
  refine ⟨proxies, ?_, ?_⟩
  · intro clash
    have sameName : first.fullName = second.fullName :=
      clash.elim Clashes.fullName_eq fun clash => clash.fullName_eq.symm
    rw [proxies, ← named.isPath.mangle_eq, sameName, otherNamed.isPath.mangle_eq]
  · intro separable otherSeparable same
    have samePath := parts_eq_of_symbol_eq named.isPath.nonempty otherNamed.isPath.nonempty
      separable otherSeparable (proxies.mp same)
    exact named.eq_or_clashes (samePath ▸ otherNamed)

/-- An underscore in front of an identifier does no harm. -/
theorem proxy_eq_iff_clashes_leading :
    let ctor : Binding := .ctor "geo::_Node" (.ofName "geo::_Node")
    let method : Binding := .method "geo::_Node" "_constructor" (.ofName "geo::_Node")
    ctor.NamedBy ["geo", "_Node", "constructor"] ∧
      method.NamedBy ["geo", "_Node", "_constructor"] ∧
      (∀ part ∈ ["geo", "_Node", "constructor", "_constructor"], Separable part) ∧
      ctor.proxy ≠ method.proxy := by
  intro ctor method
  have owner : IsPath "geo::_Node" ["geo", "_Node"] := by decide +kernel
  have named : ctor.NamedBy ["geo", "_Node", "constructor"] := ⟨rfl, _, owner, rfl⟩
  have otherNamed : method.NamedBy ["geo", "_Node", "_constructor"] :=
    ⟨rfl, by decide +kernel, _, owner, rfl⟩
  have separable : ∀ part ∈ ["geo", "_Node", "constructor", "_constructor"], Separable part := by
    decide +kernel
  refine ⟨named, otherNamed, separable, fun same => ?_⟩
  rcases proxy_eq_iff_clashes named otherNamed with ⟨-, -, apart⟩
  rcases apart (by decide +kernel) (by decide +kernel) same with equal | clash | clash
  · exact absurd equal (by decide +kernel)
  · exact absurd clash.fullName_eq (by decide +kernel)
  · exact absurd clash.fullName_eq (by decide +kernel)

/-- A function of the scope of a type and a method of the type share a symbol. -/
theorem proxy_shared :
    let function : Binding := .function "A::f"
    let method : Binding := .method "A" "f" (.ofName "A")
    function.NamedBy ["A", "f"] ∧ method.NamedBy ["A", "f"] ∧ function ≠ method ∧
      function.proxy = method.proxy := by
  intro function method
  have name : IsPath "A::f" ["A", "f"] := by decide +kernel
  have owner : IsPath "A" ["A"] := by decide +kernel
  exact ⟨name, ⟨rfl, by decide +kernel, _, owner, rfl⟩, nofun, by decide +kernel⟩

/-- Underscores inside and at the end of identifiers hide where they end. -/
example : (function "a::b").proxy = (function "a__b").proxy ∧
    (function "a_::b").proxy = (function "a::_b").proxy := by
  decide +kernel

end Binding

end Bindery
