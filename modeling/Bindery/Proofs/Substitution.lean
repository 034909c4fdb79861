import Bindery.Proofs.NativeType.Respelling
import Bindery.Proofs.NativeType.Surroundings
import Bindery.Template

/-!
# Types in the place of template parameters

A template is bound by texts: the text given for a parameter is put where the parameter
stands, between the `const` and the marks around it.  Read again, that is the type which
substitution gives, unless `const` or marks come from both sides: there is no room for
two of them.  A type that names no parameter is spelled anew, and is read back unless
that spelling is misread.
-/

namespace Bindery

namespace Template

open Grammar

/-- What is given for the parameter that a type names, if it names one.  Of parameters
with one name the first counts, and a type with a sign qualifier names none. -/
def given? {α : Type} (template : Template) (entries : List α) (type : NativeType) : Option α :=
  if type.signedness.isSome then none
  else (template.params.idxOf? type.name.text).bind fun place => entries[place]?

/-- The type with types in the place of parameters. -/
def substituted (template : Template) (bounds : List NativeType) (type : NativeType) :
    NativeType :=
  match template.given? bounds type with
  | some bound => {
      bound with
      isConst := type.isConst || bound.isConst
      marks := bound.marks ++ type.marks }
  | none => type

/-- Texts do not say what substitution means: a type and what is given for it are both
`const` or both have marks, or nothing is given for the type and its spelling is
misread. -/
def Garbles (template : Template) (bounds : List NativeType) (type : NativeType) : Prop :=
  match template.given? bounds type with
  | some bound =>
      type.isConst = true ∧ bound.isConst = true ∨ type.marks ≠ [] ∧ bound.marks ≠ []
  | none => type.Misread

instance (template : Template) (bounds : List NativeType) (type : NativeType) :
    Decidable (template.Garbles bounds type) :=
  match found : template.given? bounds type with
  | some bound =>
      decidable_of_iff
        (type.isConst = true ∧ bound.isConst = true ∨ type.marks ≠ [] ∧ bound.marks ≠ [])
        (by rw [Garbles, found])
  | none => decidable_of_iff type.Misread (by rw [Garbles, found])

theorem lookup_zip_eq {α : Type} (params : List String) (entries : List α) (name : String) :
    (params.zip entries).lookup name =
      (params.idxOf? name).bind fun place => entries[place]? := by
  induction params generalizing entries with
  | nil => rfl
  | cons param params ih =>
      cases entries with
      | nil => simp
      | cons entry entries =>
          rw [List.zip_cons_cons, List.lookup_cons, List.idxOf?_cons]
          by_cases here : name = param
          · simp [here]
          · rw [beq_false_of_ne here, beq_false_of_ne (Ne.symm here), if_neg Bool.false_ne_true,
              Option.bind_map]
            exact ih entries

theorem boundText?_eq_given? (template : Template) (types : List String) (type : NativeType) :
    template.boundText? types type = template.given? types type := by
  rw [boundText?, given?]
  cases type.signedness with
  | some sign => rfl
  | none => exact lookup_zip_eq _ _ _

theorem rel_getElem? {α β : Type} {R : α → β → Prop} {first : List α} {second : List β}
    (related : List.Forall₂ R first second) (place : Nat) :
    Option.Rel R first[place]? second[place]? := by
  induction related generalizing place with
  | nil => exact .none
  | cons here _ ih =>
      cases place with
      | zero => exact .some here
      | succ place => exact ih place

/-- What is given in one list for a type is related to what is given in the other. -/
theorem rel_given? {α β : Type} {R : α → β → Prop} {first : List α} {second : List β}
    (related : List.Forall₂ R first second) (template : Template) (type : NativeType) :
    Option.Rel R (template.given? first type) (template.given? second type) := by
  rw [given?, given?]
  split
  · exact .none
  · cases template.params.idxOf? type.name.text with
    | none => exact .none
    | some place => exact rel_getElem? related place

/-- The text in the place of a type. -/
def rendered (template : Template) (types : List String) (type : NativeType) : String :=
  match template.given? types type with
  | some bound => (if type.isConst then "const " else "") ++ bound ++
      (if type.marks.isEmpty then "" else " " ++ Indirection.text type.marks)
  | none => type.canonical

theorem substitute_eq_ok_iff {template : Template} {types : List String} {expr text : String} :
    template.substitute types expr = .ok text ↔
      ∃ param, Param.parse expr = .ok param ∧ text = template.rendered types param.type := by
  rw [substitute, Outcome.bind_eq_ok_iff]
  apply exists_congr
  intro param
  dsimp only
  rw [Outcome.mapError_eq_ok_iff, boundText?_eq_given?, rendered]
  apply and_congr_right
  intro _
  cases template.given? types param.type with
  | none => exact Outcome.pure_eq_ok_iff.trans eq_comm
  | some bound => exact Outcome.pure_eq_ok_iff.trans eq_comm

theorem substituteEach_eq_mapM (template : Template) (types exprs : List String) :
    template.substituteEach types exprs = exprs.mapM (template.substitute types) := by
  induction exprs with
  | nil => rfl
  | cons expr rest ih => rw [substituteEach, ih, List.mapM_cons]

/-- An instance has a text in the place of every type expression of the template. -/
theorem instantiate_eq_ok_iff {template : Template} {types : List String} {inst : Instance}
    (arity : types.length = template.params.length) :
    template.instantiate types = .ok inst ↔
      inst.template = template.name ∧ inst.types = types ∧
      List.Forall₂ (fun expr text => template.substitute types expr = .ok text)
        (template.result :: template.args) (inst.result :: inst.args) := by
  rw [instantiate, Outcome.guard_eq_ok_iff, not_not, List.forall₂_cons]
  simp only [Outcome.bind_eq_ok_iff, Outcome.pure_eq_ok_iff, substituteEach_eq_mapM,
    Outcome.mapM_eq_ok_iff]
  constructor
  · rintro ⟨-, result, resultDone, args, argsDone, rfl⟩
    exact ⟨rfl, rfl, resultDone, argsDone⟩
  · rcases inst with ⟨_, _, result, args⟩
    rintro ⟨rfl, rfl, resultDone, argsDone⟩
    exact ⟨arity, result, resultDone, args, argsDone, rfl⟩

section Parsed

variable {template : Template} {types : List String} {bounds : List NativeType}
  (parsed : List.Forall₂ (fun text bound => NativeType.parse text = .ok bound) types bounds)
include parsed

/-- The text in the place of a type is read as what substitution gives, unless texts do
not say it. -/
theorem parse_rendered_iff {type : NativeType}
    (idents : ∀ part ∈ type.name.parts, IsIdent part.toList) :
    NativeType.parse (template.rendered types type) = .ok (template.substituted bounds type) ↔
      ¬ template.Garbles bounds type := by
  have related := rel_given? parsed template type
  rw [rendered, substituted, Garbles]
  generalize template.given? types type = text? at related ⊢
  generalize template.given? bounds type = bound? at related ⊢
  cases related with
  | none => exact NativeType.parse_canonical_iff_not_misread idents
  | some reads => exact NativeType.parse_around_iff reads type.isConst type.marks

/-- With marks on both sides the text is refused. -/
theorem parse_rendered_ne_ok {type bound : NativeType}
    (given : template.given? bounds type = some bound)
    (marked : type.marks ≠ []) (boundMarked : bound.marks ≠ []) (other : NativeType) :
    NativeType.parse (template.rendered types type) ≠ .ok other := by
  have related := rel_given? parsed template type
  rw [given] at related
  rw [rendered]
  generalize template.given? types type = text? at related ⊢
  cases related with
  | some reads => exact NativeType.parse_around_ne_ok reads boundMarked marked _ other

end Parsed

/-- What is given for a type stands in its place as it is, with no more than `const` in
front and marks behind. -/
theorem exists_around {template : Template} {types : List String} {type : NativeType}
    {bound : String} (given : template.given? types type = some bound) :
    ∃ front ∈ ["", "const "], ∃ back, template.rendered types type = front ++ bound ++ back ∧
      ∀ c ∈ back.toList, c = ' ' ∨ Mark.isMark c = true := by
  rw [rendered, given]
  refine ⟨_, ?_, _, rfl, ?_⟩
  · split <;> simp
  · split
    · simp
    · intro c member
      rw [String.toList_append, List.mem_append] at member
      rcases member with isBlank | inMarks
      · exact .inl (List.mem_singleton.mp isBlank)
      · rw [Indirection.text, String.toList_ofList] at inMarks
        rcases List.mem_map.mp inMarks with ⟨mark, -, rfl⟩
        exact .inr (Mark.isMark_iff.mpr ⟨mark, rfl⟩)

/-- A template has an instance for any types of the right number, provided that its type
expressions can be read. -/
theorem exists_instantiate_iff {template : Template} {types : List String}
    (arity : types.length = template.params.length) :
    (∃ inst, template.instantiate types = .ok inst) ↔
      ∀ expr ∈ template.result :: template.args, ∃ param, Param.parse expr = .ok param := by
  constructor
  · rintro ⟨inst, instantiated⟩ expr member
    rcases (instantiate_eq_ok_iff arity).mp instantiated with ⟨-, -, each⟩
    rcases Outcome.exists_of_mem_right each.flip member with ⟨text, -, substituted⟩
    rcases substitute_eq_ok_iff.mp substituted with ⟨param, read, -⟩
    exact ⟨param, read⟩
  · intro readable
    cases outcome : (template.result :: template.args).mapM (template.substitute types) with
    | error error =>
        rcases Outcome.exists_of_mapM_eq_error outcome with ⟨expr, member, failed⟩
        rcases readable expr member with ⟨param, read⟩
        rw [substitute_eq_ok_iff.mpr ⟨param, read, rfl⟩] at failed
        cases failed
    | ok texts =>
        have each := Outcome.mapM_eq_ok_iff.mp outcome
        rcases List.forall₂_cons_left_iff.mp each with ⟨result, args, -, -, rfl⟩
        exact ⟨⟨template.name, types, result, args⟩, (instantiate_eq_ok_iff arity).mpr
          ⟨rfl, rfl, each⟩⟩

/-- Binding a template puts types in the place of its parameters.  There is an instance
exactly if the type expressions of the template can be read.  The text in the place of
each is then read as the type that substitution gives, exactly if texts can say it; with
marks on both sides it is refused.  The text given for a parameter is put in as it is, so
nothing is put in the place of a parameter that it names itself. -/
theorem instantiate_substitutes {template : Template} {types : List String}
    {bounds : List NativeType} (arity : types.length = template.params.length)
    (parsed : List.Forall₂ (fun text bound => NativeType.parse text = .ok bound) types bounds) :
    ((∃ inst, template.instantiate types = .ok inst) ↔
      ∀ expr ∈ template.result :: template.args, ∃ param, Param.parse expr = .ok param) ∧
    ∀ inst, template.instantiate types = .ok inst →
      List.Forall₂ (fun expr text => ∃ param, Param.parse expr = .ok param ∧
          (NativeType.parse text = .ok (template.substituted bounds param.type) ↔
            ¬ template.Garbles bounds param.type) ∧
          (∀ bound, template.given? bounds param.type = some bound → param.type.marks ≠ [] →
            bound.marks ≠ [] → ∀ other, NativeType.parse text ≠ .ok other) ∧
          ∀ bound, template.given? types param.type = some bound →
            ∃ front ∈ ["", "const "], ∃ back, text = front ++ bound ++ back ∧
              ∀ c ∈ back.toList, c = ' ' ∨ Mark.isMark c = true)
        (template.result :: template.args) (inst.result :: inst.args) := by
  refine ⟨exists_instantiate_iff arity, fun inst instantiated => ?_⟩
  rcases (instantiate_eq_ok_iff arity).mp instantiated with ⟨-, -, each⟩
  apply each.imp
  intro expr text substituted
  rcases substitute_eq_ok_iff.mp substituted with ⟨param, read, rfl⟩
  refine ⟨param, read, parse_rendered_iff parsed (Param.isIdent_of_parse read), ?_, ?_⟩
  · intro bound given marked boundMarked other
    exact parse_rendered_ne_ok parsed given marked boundMarked other
  · intro bound given
    exact exists_around given

/-- The name given for the first parameter is that of the second, and stays. -/
theorem instantiate_substitutes_once :
    let template : Template := ⟨"pick", ["T", "U"], "const T &", ["U x", "unsigned T"]⟩
    let types := ["U", "int *"]
    let bounds : List NativeType :=
      [⟨false, none, .simple "U", []⟩, ⟨false, none, .simple "int", [.pointer]⟩]
    types.length = template.params.length ∧
      List.Forall₂ (fun text bound => NativeType.parse text = .ok bound) types bounds ∧
      ∃ inst, template.instantiate types = .ok inst ∧
        NativeType.parse inst.result = .ok ⟨true, none, .simple "U", [.reference]⟩ := by
  intro template types bounds
  have arity : types.length = template.params.length := rfl
  have parsed : List.Forall₂ (fun text bound => NativeType.parse text = .ok bound) types bounds :=
    .cons (by decide +kernel) (.cons (by decide +kernel) .nil)
  rcases instantiate_substitutes arity parsed with ⟨readable, comesOut⟩
  have accepted : (template.instantiate types).toOption.isSome = true := by decide +kernel
  rcases Option.isSome_iff_exists.mp accepted with ⟨inst, isInst⟩
  have instantiated := Outcome.toOption_eq_some_iff.mp isInst
  rcases List.forall₂_cons.mp (comesOut inst instantiated) with ⟨⟨param, read, faithful, -⟩, -⟩
  have isParam : Param.parse "const T &" = .ok ⟨⟨true, none, .simple "T", [.reference]⟩, none⟩ := by
    decide +kernel
  cases read.symm.trans isParam
  exact ⟨arity, parsed, inst, instantiated, faithful.mpr (by decide +kernel)⟩

/-- A second `const`, marks behind other marks, and a scope named `const`: none of the
texts is read as the type that substitution gives. -/
theorem instantiate_without_room :
    let constant : Template := ⟨"f", ["T"], "const T", []⟩
    let reference : Template := ⟨"g", ["T"], "T &", []⟩
    let inScope : Template := ⟨"h", ["T"], "::const::x", []⟩
    constant.instantiate ["const int"] = .ok ⟨"f", ["const int"], "const const int", []⟩ ∧
      NativeType.parse "const int" = .ok ⟨true, none, .simple "int", []⟩ ∧
      NativeType.parse "const const int" ≠ .ok ⟨true, none, .simple "int", []⟩ ∧
      reference.instantiate ["int*"] = .ok ⟨"g", ["int*"], "int* &", []⟩ ∧
      (NativeType.parse "int* &").toOption = none ∧
      inScope.instantiate ["int"] = .ok ⟨"h", ["int"], "const::x", []⟩ ∧
      NativeType.parse "::const::x" ≠ NativeType.parse "const::x" := by
  decide +kernel

end Template

end Bindery
