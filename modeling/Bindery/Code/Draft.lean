import Bindery.Code.Layout
import Bindery.Error

/-!
# Drafts

A draft is code being generated: what has been laid out, which entry points
have been opened, and the outcome.  When generation stops at an error, what came
before it is kept.
-/

namespace Bindery

/-- The kinds of generated entry points. -/
inductive EntryKind where
  | function
  | method
  | getter
  | setter
deriving DecidableEq, Inhabited

/-- Number of arguments that an accessor takes besides the object. -/
def EntryKind.accessorArgCount : EntryKind → Nat
  | .setter => 1
  | _ => 0

/-- A generated entry point. -/
structure EntryPoint where
  kind : EntryKind
  proxy : String
  maxArgs : Nat
deriving DecidableEq, Inhabited

/-- Code being generated. -/
structure Draft (α : Type) where
  code : Code
  entries : List EntryPoint
  outcome : Except BindError α

namespace Draft

variable {α β : Type}

/-- Nothing but an outcome. -/
def ofExcept (outcome : Except BindError α) : Draft α :=
  ⟨[], [], outcome⟩

/-- Go on with what a draft came to, unless it stopped. -/
def andThen (draft : Draft α) (next : α → Draft β) : Draft β :=
  match draft.outcome with
  | .ok value =>
      let rest := next value
      ⟨draft.code ++ rest.code, draft.entries ++ rest.entries, rest.outcome⟩
  | .error error => ⟨draft.code, draft.entries, .error error⟩

instance : Monad Draft where
  pure value := ofExcept (.ok value)
  bind := andThen

@[simp]
theorem pure_eq (value : α) : (pure value : Draft α) = ⟨[], [], .ok value⟩ := rfl

@[simp]
theorem bind_eq (draft : Draft α) (next : α → Draft β) : draft >>= next = draft.andThen next := rfl

@[simp]
theorem andThen_ok (code : Code) (entries : List EntryPoint) (value : α) (next : α → Draft β) :
    (⟨code, entries, .ok value⟩ : Draft α).andThen next =
      ⟨code ++ (next value).code, entries ++ (next value).entries, (next value).outcome⟩ := rfl

@[simp]
theorem andThen_error (code : Code) (entries : List EntryPoint) (error : BindError)
    (next : α → Draft β) :
    (⟨code, entries, .error error⟩ : Draft α).andThen next = ⟨code, entries, .error error⟩ := rfl

/-- Lay out code. -/
def write (code : Code) : Draft Unit :=
  ⟨code, [], .ok ()⟩

/-- Open an entry point with the given code. -/
def openEntry (entry : EntryPoint) (code : Code) : Draft Unit :=
  ⟨code, [entry], .ok ()⟩

/-- Stop. -/
def fail (error : BindError) : Draft α :=
  ofExcept (.error error)

end Draft

end Bindery
