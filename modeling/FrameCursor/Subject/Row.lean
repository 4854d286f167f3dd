import FrameCursor.Subject
import FrameCursor.Describe

set_option autoImplicit false

namespace FrameCursor

structure Row (α : Type) where
  items : List α
  deriving DecidableEq, BEq, Repr

namespace Row

variable {α : Type}

def ofList (items : List α) : Row α := ⟨items⟩

def isEmpty (r : Row α) : Bool := r.items.isEmpty

def slice (items : List α) (s : Span) (h : s.start ≤ s.stop ∧ s.stop ≤ items.length) : List α :=
  List.ofFn fun i : Fin (s.stop - s.start) => items.get ⟨s.start + i, by omega⟩

theorem slice_eq (items : List α) (s : Span) (h : s.start ≤ s.stop ∧ s.stop ≤ items.length) :
    slice items s h = (items.drop s.start).take (s.stop - s.start) := by
  refine List.ext_getElem ?_ fun i hi hi' => ?_
  · rw [slice, List.length_ofFn, List.length_take, List.length_drop]
    omega
  · simp [slice]

def extract (r : Row α) (span : Span) : List α :=
  slice r.items (span.clamp r.items.length)
    ⟨span.clamp_start_le_stop r.items.length, span.clamp_stop_le r.items.length⟩

theorem extract_eq (r : Row α) (span : Span) :
    r.extract span =
      let s := span.clamp r.items.length
      (r.items.drop s.start).take (s.stop - s.start) :=
  slice_eq _ _ _

instance : Subject (Row α) α (List α) where
  length r := some r.items.length
  elementAt r i := r.items[i]?
  extract := Row.extract

instance [Describe α] : Describe (Row α) where
  describe r := Describe.record "List" [("items", describe r.items)]

end Row

end FrameCursor
