import FrameCursor.Cursor

set_option autoImplicit false

namespace FrameCursor

namespace Cursor

variable {σ α φ : Type} [Subject σ α φ]

/-- Reads until nothing is found, and at most `max` elements. -/
def take (offset : Nat) : Nat → Cursor σ → List α × Cursor σ
  | 0, c => ([], c)
  | max + 1, c =>
    match c.next offset with
    | (none, c') => ([], c')
    | (some a, c') =>
      let r := take offset max c'
      (a :: r.1, r.2)

/-- Reads until the end is reached, and at most `max` times. A read that finds nothing counts. -/
def scan (offset : Nat) : Nat → Cursor σ → List (Option α) × Cursor σ
  | 0, c => ([], c)
  | max + 1, c =>
    if c.atEnd 0 then ([], c)
    else
      let r := c.next offset
      let s := scan offset max r.2
      (r.1 :: s.1, s.2)

end Cursor

end FrameCursor
