import FrameCursor.Position

/-!
What a cursor reads from: an ordered sequence that gives its length and its elements by position,
and cuts out spans in a form of its own. A subject can be bound to a cursor when it knows its length
and is valid, which means, unless the subject says otherwise, that it has a first element; `defect?`
says which of the two is missing.
-/

set_option autoImplicit false

namespace FrameCursor

/-- An ordered, indexable sequence with elements `α` and frames `φ`. The length and the elements
are independent of each other: a sequence may have holes, or elements past its length. -/
class Subject (σ : Type) (α φ : outParam Type) where
  /-- The number of elements, or `none` if the subject carries no length at all. -/
  length : σ → Option Nat
  /-- The element at a position, or `none` if nothing is stored there. -/
  elementAt : σ → Nat → Option α
  /-- The elements in a span, cut down to what the subject holds. -/
  extract : σ → Span → φ
  /-- Whether the subject can be bound: unless it says otherwise, if its length is known and its
  first element is present. -/
  isValid : σ → Bool := fun s => (length s).isSome && (elementAt s 0).isSome

/-- Copies a span element by element. Holes stay in place, so that offsets into the copy are offsets
into the span. -/
def copyWithin {α : Type} (length : Option Nat) (elementAt : Nat → Option α) (s : Span) :
    List (Option α) :=
  (s.clamp (length.getD 0)).indices.map elementAt

namespace Subject

variable {σ α φ : Type} [Subject σ α φ]

def copy (s : σ) (span : Span) : List (Option α) := copyWithin (length s) (elementAt s) span

end Subject

inductive Defect where
  | noLength
  | noFirstElement
  deriving DecidableEq, Repr

def Subject.defect? {σ α φ : Type} [Subject σ α φ] (s : σ) : Option Defect :=
  if (length s).isNone then some .noLength
  else if isValid s then none
  else some .noFirstElement

theorem Subject.defect?_eq_none_iff {σ α φ : Type} [Subject σ α φ] (s : σ) :
    defect? s = none ↔ (length s).isSome = true ∧ isValid s = true := by
  cases hl : length s <;> cases hv : isValid s <;> simp [defect?, hl, hv]

end FrameCursor
