import Bindery.Proofs.NativeType.Grammar

/-!
# Names that texts spell

A text is cut at `::` from the left, so colons that are left over from a longer run stand at
the front of a part, and only the last part can end in one.  Dropping the empty parts does not
change that, and so the parts joined again are cut where they were joined.
-/

namespace Bindery.ScopedName

/-- No `::` in the characters. -/
def Whole (part : List Char) : Prop :=
  ¬ "::".toList <:+: part

/-- No `::` in the characters, not even with a colon behind them. -/
def Closed (part : List Char) : Prop :=
  Whole (part ++ [':'])

instance (part : List Char) : Decidable (Whole part) :=
  inferInstanceAs (Decidable (¬ _))

instance (part : List Char) : Decidable (Closed part) :=
  inferInstanceAs (Decidable (Whole _))

/-- Parts as a text is cut into them: only the last one may end in a colon. -/
inductive Cut : List (List Char) → Prop where
  | last {part : List Char} (whole : Whole part) : Cut [part]
  | cons {part : List Char} {parts : List (List Char)} (closed : Closed part) (later : Cut parts) :
      Cut (part :: parts)

theorem Closed.whole {part : List Char} (closed : Closed part) : Whole part :=
  fun scope => closed (scope.trans (List.prefix_append part [':']).isInfix)

theorem whole_cons_iff {c : Char} {part : List Char} :
    Whole (c :: part) ↔ ¬ "::".toList <+: c :: part ∧ Whole part := by
  rw [Whole, List.infix_cons_iff, not_or, Whole]

theorem closed_cons_iff {c : Char} {part : List Char} :
    Closed (c :: part) ↔ ¬ "::".toList <+: c :: (part ++ [':']) ∧ Closed part :=
  whole_cons_iff

theorem splitScopes_ne_nil (chars : List Char) : splitScopes chars ≠ [] := by
  fun_cases splitScopes chars <;> simp

/-- A character that opens no `::` belongs to the first part. -/
theorem splitScopes_cons {c : Char} {chars part : List Char} {parts : List (List Char)}
    (opensNone : ¬ "::".toList <+: c :: chars) (cut : splitScopes chars = part :: parts) :
    splitScopes (c :: chars) = (c :: part) :: parts := by
  rw [splitScopes, cut]
  rintro rest rfl rfl
  exact opensNone (List.prefix_append "::".toList rest)

theorem splitScopes_of_whole {part : List Char} (whole : Whole part) :
    splitScopes part = [part] := by
  induction part with
  | nil => rfl
  | cons c part ih =>
      rcases whole_cons_iff.mp whole with ⟨opensNone, whole⟩
      exact splitScopes_cons opensNone (ih whole)

/-- A text is cut behind a part that does not end in a colon. -/
theorem splitScopes_append {part : List Char} (closed : Closed part) (rest : List Char) :
    splitScopes (part ++ ("::".toList ++ rest)) = part :: splitScopes rest := by
  induction part with
  | nil => rfl
  | cons c part ih =>
      rcases closed_cons_iff.mp closed with ⟨opensNone, closed⟩
      refine splitScopes_cons (fun opens => opensNone ?_) (ih closed)
      -- What opens a `::` here does so with the first colon behind the part.
      have short : c :: (part ++ [':']) <+: c :: (part ++ ("::".toList ++ rest)) := by
        refine ⟨':' :: rest, ?_⟩
        simp
      apply List.prefix_of_prefix_length_le opens short
      simp

theorem intercalate_splitScopes (chars : List Char) :
    "::".toList.intercalate (splitScopes chars) = chars := by
  fun_induction splitScopes chars with
  | case1 => rfl
  | case2 rest ih =>
      rw [List.intercalate_cons_of_ne_nil (splitScopes_ne_nil rest), ih]
      rfl
  | case3 c rest _ cut ih => exact absurd cut (splitScopes_ne_nil rest)
  | case4 c rest _ part parts cut ih =>
      rw [cut] at ih
      cases parts with
      | nil => simpa using ih
      | cons next others => simpa using ih

/-- What joined parts are cut into, if only the last ends in a colon. -/
theorem Cut.splitScopes_intercalate {parts : List (List Char)} (cut : Cut parts) :
    splitScopes ("::".toList.intercalate parts) = parts := by
  induction cut with
  | last whole => simpa using splitScopes_of_whole whole
  | @cons part parts closed later ih =>
      have more : parts ≠ [] := by cases later <;> simp
      rw [List.intercalate_cons_of_ne_nil more, List.append_assoc, splitScopes_append closed, ih]

/-- A character in front of cut parts, where it opens no `::`, goes to the first of them. -/
theorem Cut.cons_head {c : Char} {part : List Char} {parts : List (List Char)}
    (cut : Cut (part :: parts))
    (opensNone : ¬ "::".toList <+: c :: "::".toList.intercalate (part :: parts)) :
    Cut ((c :: part) :: parts) := by
  cases cut with
  | last whole =>
      rw [List.intercalate_singleton] at opensNone
      exact .last (whole_cons_iff.mpr ⟨opensNone, whole⟩)
  | cons closed later =>
      have more : parts ≠ [] := by cases later <;> simp
      refine .cons (closed_cons_iff.mpr ⟨fun opens => opensNone ?_, closed⟩) later
      rw [List.intercalate_cons_of_ne_nil more]
      refine opens.trans ⟨':' :: "::".toList.intercalate parts, ?_⟩
      simp

theorem cut_splitScopes (chars : List Char) : Cut (splitScopes chars) := by
  fun_induction splitScopes chars with
  | case1 => exact .last (by decide)
  | case2 rest ih => exact .cons (by decide) ih
  | case3 c rest _ cut ih => exact absurd cut (splitScopes_ne_nil rest)
  | case4 c rest opensNone part parts cut ih =>
      rw [cut] at ih
      apply ih.cons_head
      rw [← cut, intercalate_splitScopes]
      rintro ⟨behind, split⟩
      cases split
      exact opensNone behind rfl rfl

/-- Cut parts without the empty ones could have been cut like that. -/
theorem Cut.filter {parts : List (List Char)} (cut : Cut parts) (keep : List Char → Bool)
    (some : parts.filter keep ≠ []) : Cut (parts.filter keep) := by
  induction cut with
  | @last part whole =>
      cases kept : keep part with
      | false => simp [kept] at some
      | true =>
          rw [List.filter_cons_of_pos kept]
          exact .last whole
  | @cons part parts closed later ih =>
      cases kept : keep part with
      | false =>
          rw [List.filter_cons_of_neg (by simp [kept])] at some ⊢
          exact ih some
      | true =>
          rw [List.filter_cons_of_pos kept]
          by_cases single : parts.filter keep = []
          · rw [single]
            exact .last closed.whole
          · exact .cons closed (ih single)

theorem cut_concat_iff {front : List (List Char)} {last : List Char} :
    Cut (front ++ [last]) ↔ (∀ part ∈ front, Closed part) ∧ Whole last := by
  constructor
  · intro cut
    induction front with
    | nil =>
        cases cut with
        | last whole => exact ⟨by simp, whole⟩
        | cons _ later => cases later
    | cons part front ih =>
        generalize joined : front ++ [last] = parts at cut
        rw [List.cons_append, joined] at cut
        cases cut with
        | last _ => simp at joined
        | cons closed later =>
            rcases ih (joined ▸ later) with ⟨others, whole⟩
            exact ⟨List.forall_mem_cons.mpr ⟨closed, others⟩, whole⟩
  · rintro ⟨closed, whole⟩
    induction front with
    | nil => exact .last whole
    | cons part front ih =>
        rcases List.forall_mem_cons.mp closed with ⟨first, others⟩
        exact .cons first (ih others)

/-- The parts of the name are those that its text is cut into: no part holds `::`, no scope ends
in a colon, and none of several parts is empty. -/
structure Normal (name : ScopedName) : Prop where
  scopes : ∀ scope ∈ name.scopes, Closed scope.toList
  last : Whole name.name.toList
  filled : name.scopes ≠ [] → ∀ part ∈ name.parts, part ≠ ""

theorem normal_empty : (simple "").Normal :=
  ⟨by simp [simple], by decide, fun more => absurd rfl more⟩

/-- A name of nonempty parts is in normal form exactly if they are as a text is cut into them. -/
theorem normal_iff_cut {name : ScopedName} (filled : ∀ part ∈ name.parts, part ≠ "") :
    name.Normal ↔ Cut (name.parts.map String.toList) := by
  rw [parts, List.map_append, List.map_singleton, cut_concat_iff, List.forall_mem_map]
  constructor
  · exact fun normal => ⟨normal.scopes, normal.last⟩
  · exact fun cut => ⟨cut.1, cut.2, fun _ => filled⟩

/-- What a text spells is in normal form. -/
theorem normal_ofText (text : String) : (ofText text).Normal := by
  rw [ofText]
  generalize kept : (splitScopes text.toList).filter (fun part => !part.isEmpty) = cutParts
  by_cases none : cutParts = []
  · rw [none]
    exact normal_empty
  have cut : Cut cutParts := kept ▸ (cut_splitScopes text.toList).filter _ (kept ▸ none)
  have isParts : (ofParts (cutParts.map String.ofList)).parts = cutParts.map String.ofList :=
    parts_ofParts (by simpa using none)
  rw [normal_iff_cut, isParts, List.map_map]
  · simpa [Function.comp_def] using cut
  · rw [isParts, List.forall_mem_map]
    intro part member
    rw [← kept, List.mem_filter] at member
    simpa using member.2

/-- A name in normal form is what its text spells. -/
theorem Normal.ofText_text {name : ScopedName} (normal : name.Normal) :
    ofText name.text = name := by
  by_cases empty : name = simple ""
  · rw [empty]
    rfl
  have filled : ∀ part ∈ name.parts, part ≠ "" := by
    by_cases single : name.scopes = []
    · rcases name with ⟨scopes, last⟩
      cases single
      simpa [parts, simple] using empty
    · exact normal.filled single
  have cut := (normal_iff_cut filled).mp normal
  have kept : (name.parts.map String.toList).filter (fun part => !part.isEmpty) =
      name.parts.map String.toList := by
    rw [List.filter_eq_self, List.forall_mem_map]
    intro part member
    simpa using filled part member
  rw [ofText, Grammar.toList_text, Grammar.pathChars, cut.splitScopes_intercalate, kept,
    List.map_map]
  simpa [Function.comp_def] using name.ofParts_parts

theorem ofText_text_iff {name : ScopedName} : ofText name.text = name ↔ name.Normal :=
  ⟨fun spelled => spelled ▸ normal_ofText name.text, Normal.ofText_text⟩

/-- Reading a name off a text brings it into normal form: the text of what is read reads the
same, a `::` in front of a text changes nothing, and exactly the names in normal form are read
off their own text. -/
theorem ofText_normalises (text : String) :
    ofText (ofText text).text = ofText text ∧
      ofText ("::" ++ text) = ofText text ∧
      (ofText text).Normal ∧ ∀ name : ScopedName, ofText name.text = name ↔ name.Normal := by
  have normal := normal_ofText text
  have absolute : ofText ("::" ++ text) = ofText text := by
    have cut : splitScopes ("::" ++ text).toList = [] :: splitScopes text.toList := by
      rw [String.toList_append]
      rfl
    rw [ofText, cut]
    rfl
  exact ⟨normal.ofText_text, absolute, normal, fun name => ofText_text_iff⟩

/-- Colons left over from a run stand at the front of a part, or at the end of the last one. -/
example : (ofText ":::a:::b::::c:").parts = [":a", ":b", "c:"] := by
  decide +kernel

end Bindery.ScopedName
