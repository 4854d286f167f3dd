import FrameCursor.Proofs.Progress
import FrameCursor.Subject.Declared

set_option autoImplicit false

namespace FrameCursor

theorem Position.le_advance_iff {n : Nat} (p k : Nat) (h : n ≤ Position.ceiling) :
    n ≤ Position.advance p k ↔ n ≤ p + k := by
  unfold Position.advance
  omega

variable {σ α φ : Type} [Subject σ α φ]

namespace Cursor

theorem atEnd_iff {c : Cursor σ} {s : σ} {n : Nat} (k : Nat) (hs : c.subject = some s)
    (hl : Subject.length s = some n) (hn : n ≤ Position.ceiling) :
    c.atEnd k = true ↔ 0 < n ∧ n ≤ c.position + k := by
  rw [atEnd_of_bound hs hl, Position.le_advance_iff c.position k hn]

theorem length_of_atEnd {c : Cursor σ} {k : Nat} (h : c.atEnd k = true) :
    ∃ s n, c.subject = some s ∧ Subject.length s = some n := by
  cases hs : c.subject with
  | none => simp [atEnd, hs] at h
  | some s =>
    cases hl : Subject.length s with
    | none => simp [atEnd, hs, hl] at h
    | some n => exact ⟨s, n, rfl, hl⟩

theorem atEnd_next {c : Cursor σ} {a : α} (h : c.peek 0 = some a) (k j : Nat) :
    (c.next k).2.atEnd j = c.atEnd (k + 1 + j) := by
  simp only [next_of_peek k h, atEnd, Position.advance_advance]

theorem ahead_past_ceiling {c : Cursor σ} {s : σ} {n k : Nat} (hs : c.subject = some s)
    (hl : Subject.length s = some n) (hpos : 0 < n) (hn : n ≤ Position.ceiling)
    (hk : Position.ceiling < c.position + k) : c.peek k = none ∧ c.atEnd k = true := by
  have hend : c.atEnd k = true := (atEnd_iff k hs hl hn).2 ⟨hpos, by omega⟩
  exact ⟨by simp [peek, hend], hend⟩

theorem peek_next {c : Cursor σ} {s : σ} {n k j : Nat} {a : α} (hs : c.subject = some s)
    (h : c.peek 0 = some a) (hl : Subject.length s = some n) (hpos : 0 < n)
    (hn : n ≤ Position.ceiling) : (c.next k).2.peek j = c.peek (k + 1 + j) := by
  cases hend : c.atEnd (k + 1 + j) with
  | true => simp [peek, atEnd_next h k j, hend]
  | false =>
    -- Short of the end the sum is short of the ceiling too, so that the read did not stop there.
    have hfits : c.position + (k + 1 + j) ≤ Position.ceiling := by
      by_contra hgt
      have hpast := (ahead_past_ceiling hs hl hpos hn (Nat.lt_of_not_le hgt)).2
      simp [hend] at hpast
    have hadv : Position.advance c.position (k + 1) = c.position + (k + 1) :=
      Position.advance_of_le (by omega)
    have hahead : Position.ahead? (c.position + (k + 1)) j =
        Position.ahead? c.position (k + 1 + j) := by
      unfold Position.ahead?
      rw [Nat.add_assoc]
    have hnext := atEnd_next h k j
    rw [hend, next_of_peek k h, hadv] at hnext
    rw [next_of_peek k h, hadv]
    simp only [peek, hend, hnext, hahead]

/-- The end and what is ahead are where sums without a ceiling put them, and after a read that finds
something both are what they were further ahead before it. -/
theorem lookahead_exact {c : Cursor σ} (hc : c.Reachable)
    (hfits : ∀ s, c.subject = some s → Subject.LengthFits s) :
    (∀ k, c.atEnd k = true ↔ ∃ s n, c.subject = some s ∧ Subject.length s = some n ∧ 0 < n ∧
      n ≤ c.position + k) ∧
    (∀ k a, c.peek k = some a ↔ ∃ s, c.subject = some s ∧ c.atEnd k = false ∧
      c.position + k ≤ Position.ceiling ∧ Subject.elementAt s (c.position + k) = some a) ∧
    ∀ s a, c.subject = some s → Subject.length s ≠ some 0 → c.peek 0 = some a → ∀ k j,
      (c.next k).2.peek j = c.peek (k + 1 + j) ∧ (c.next k).2.atEnd j = c.atEnd (k + 1 + j) ∧
      (Position.ceiling < c.position + (k + 1 + j) →
        (c.next k).2.peek j = none ∧ (c.next k).2.atEnd j = true) := by
  refine ⟨fun k => ⟨fun h => ?_, ?_⟩, fun k a => ⟨fun h => ?_, ?_⟩, ?_⟩
  · obtain ⟨s, n, hs, hl⟩ := length_of_atEnd h
    exact ⟨s, n, hs, hl, (atEnd_iff k hs hl (hfits s hs n hl)).1 h⟩
  · rintro ⟨s, n, hs, hl, h⟩
    exact (atEnd_iff k hs hl (hfits s hs n hl)).2 h
  · obtain ⟨s, hs⟩ := subject_of_peek h
    exact ⟨s, hs, (peek_eq_some_iff hs).1 h⟩
  · rintro ⟨s, hs, h⟩
    exact (peek_eq_some_iff hs).2 h
  · -- A bound subject knows its length, and one that is not zero is reached below the ceiling.
    intro s a hs hzero h k j
    have hd := (Subject.defect?_eq_none_iff s).1 (hc.defect?_eq_none hs)
    obtain ⟨n, hl⟩ := Option.isSome_iff_exists.1 hd.1
    have hn := hfits s hs n hl
    have hpos : 0 < n := Nat.pos_of_ne_zero fun he => hzero (he ▸ hl)
    have hpeek := peek_next (k := k) (j := j) hs h hl hpos hn
    refine ⟨hpeek, atEnd_next h k j, fun hgt => ?_⟩
    rw [hpeek, atEnd_next h k j]
    exact ahead_past_ceiling hs hl hpos hn hgt

/-- The last element but one of the longest subject there can be: the reads from it stop short of
the ceiling, at it and past it. -/
theorem lookahead_exact_below_ceiling :
    let s : Counting := ⟨Position.ceiling⟩
    let c : Cursor Counting := ⟨some s, Position.ceiling - 2, none, .default⟩
    c.Reachable ∧ Subject.LengthFits s ∧ c.peek 0 = some (Position.ceiling - 2) ∧
      (c.next 0).2.peek 0 = c.peek 1 ∧ (c.next 0).2.atEnd 1 = c.atEnd 2 ∧ c.atEnd 2 = true ∧
      (c.next 7).2.peek 0 = none ∧ (c.next 7).2.atEnd 0 = true := by
  intro s c
  have hfirst : (bind (some s) Config.default).peek 0 = some 0 := rfl
  have hadv : Position.advance 0 (Position.ceiling - 3 + 1) = Position.ceiling - 2 := by decide
  have hjump : (bind (some s) Config.default).next (Position.ceiling - 3) = (some 0, c) := by
    rw [next_of_peek _ hfirst]
    simp only [bind, hadv, c]
  have hc : c.Reachable :=
    ⟨.unframed s, bind (some s) .default, [.perform (.next (Position.ceiling - 3))], rfl,
      by simp [afterActions, act, perform, hjump]⟩
  have hn : Subject.LengthFits s := fun n hl => Nat.le_of_eq (Option.some.inj hl).symm
  have hpeek : c.peek 0 = some (Position.ceiling - 2) := rfl
  obtain ⟨hend, -, hnext⟩ := lookahead_exact hc fun s' hs => by
    obtain rfl : s = s' := Option.some.inj hs
    exact hn
  have hlong : Subject.length s ≠ some 0 := by
    intro he
    cases he
  have hread := hnext s _ rfl hlong hpeek
  have hpast := (hread 7 0).2.2 (by decide)
  exact ⟨hc, hn, hpeek, (hread 0 0).1, (hread 0 1).2.1,
    (hend 2).2 ⟨s, Position.ceiling, rfl, rfl, by decide, by decide⟩, hpast⟩

end Cursor

end FrameCursor
