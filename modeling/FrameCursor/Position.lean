/-!
Positions in a sequence and the half-open spans between them. Positions, offsets and lengths are
counts up to a fixed ceiling: moving forward stops there, and looking ahead beyond it finds nothing.
A span is clamped with its end first, so that its start never passes its end.
-/

set_option autoImplicit false

namespace FrameCursor

/-- The largest position, one less than `2 ^ 64`. -/
def Position.ceiling : Nat := 18446744073709551615

def Position.advance (p k : Nat) : Nat := min (p + k) Position.ceiling

def Position.ahead? (p k : Nat) : Option Nat :=
  if p + k ≤ Position.ceiling then some (p + k) else none

theorem Position.advance_le (p k : Nat) : Position.advance p k ≤ Position.ceiling :=
  Nat.min_le_right _ _

theorem Position.advance_of_le {p k : Nat} (h : p + k ≤ Position.ceiling) :
    Position.advance p k = p + k := Nat.min_eq_left h

theorem Position.le_advance {p : Nat} (k : Nat) (h : p ≤ Position.ceiling) :
    p ≤ Position.advance p k := by
  simp only [Position.advance]; omega

theorem Position.advance_advance (p j k : Nat) :
    Position.advance (Position.advance p j) k = Position.advance p (j + k) := by
  simp only [Position.advance]; omega

structure Span where
  start : Nat
  stop : Nat
  deriving DecidableEq, Repr

namespace Span

/-- Cuts the span down to the first `length` positions. A start that lies past the end is moved
back to it, which leaves an empty span. -/
def clamp (s : Span) (length : Nat) : Span :=
  ⟨min s.start (min s.stop length), min s.stop length⟩

def indices (s : Span) : List Nat := List.range' s.start (s.stop - s.start)

theorem clamp_start_le_stop (s : Span) (n : Nat) : (s.clamp n).start ≤ (s.clamp n).stop :=
  Nat.min_le_right _ _

theorem clamp_stop_le (s : Span) (n : Nat) : (s.clamp n).stop ≤ n := Nat.min_le_right _ _

theorem clamp_of_le {p q : Nat} (h : p ≤ q) (n : Nat) :
    (Span.mk p q).clamp n = ⟨min p n, min q n⟩ := by
  simp only [clamp, Span.mk.injEq, and_true]
  omega

theorem mem_indices {s : Span} {i : Nat} : i ∈ s.indices ↔ s.start ≤ i ∧ i < s.stop := by
  simp only [indices, List.mem_range'_1]; omega

theorem mem_indices_clamp {s : Span} {n i : Nat} :
    i ∈ (s.clamp n).indices ↔ s.start ≤ i ∧ i < s.stop ∧ i < n := by
  simp only [mem_indices, clamp]; omega

theorem indices_append {p q r : Nat} (hpq : p ≤ q) (hqr : q ≤ r) :
    (Span.mk p q).indices ++ (Span.mk q r).indices = (Span.mk p r).indices := by
  have hlen : q - p + (r - q) = r - p := by omega
  have happend := List.range'_append_1 (s := p) (m := q - p) (n := r - q)
  rwa [Nat.add_sub_cancel' hpq, hlen] at happend

end Span

end FrameCursor
