import FrameCursor.Subject
import FrameCursor.Describe

set_option autoImplicit false

namespace FrameCursor

/-- Listed elements, some of them absent, and a declared length that reads do not consult. -/
structure Declared (α : Type) where
  declaredLength : Option Nat
  items : List (Option α)
  deriving DecidableEq, BEq, Repr

namespace Declared

variable {α : Type}

def get? (d : Declared α) (i : Nat) : Option α := (d.items[i]?).join

instance : Subject (Declared α) α (List (Option α)) where
  length := declaredLength
  elementAt := get?
  extract d span := copyWithin d.declaredLength d.get? span

instance [Describe α] : Describe (Declared α) where
  describe d := Describe.record "Custom"
    [("length", describe d.declaredLength), ("items", describe d.items)]

end Declared

structure Counting where
  count : Nat
  deriving DecidableEq, Repr

namespace Counting

def get? (c : Counting) (i : Nat) : Option Nat := if i < c.count then some i else none

instance : Subject Counting Nat (List (Option Nat)) where
  length c := some c.count
  elementAt := get?
  extract c span := copyWithin (some c.count) c.get? span

instance : Describe Counting where
  describe c := Describe.record "Gen" [("count", describe c.count)]

end Counting

end FrameCursor
