import Mathlib.Algebra.Order.Floor.Div
import FrameCursor.Cursor.Sweep
import FrameCursor.Proofs.Lookahead
import FrameCursor.Proofs.Refusals
import FrameCursor.Proofs.Visits

/-!
Reading with one stride until the end is reached. The end is where the length says, but a read only
moves the cursor if it finds something: the loop ends exactly if there is no hole at any position
that it visits before the end, and else it comes to the first such hole and stays there.
-/

set_option autoImplicit false

namespace FrameCursor

def Position.stride (p k i : Nat) : Nat := p + i * (k + 1)

theorem Position.stride_succ (p k i : Nat) :
    Position.stride p k (i + 1) = Position.stride p k i + (k + 1) := by
  unfold Position.stride
  rw [Nat.succ_mul]
  omega

theorem Position.stride_le_stride {i j : Nat} (p k : Nat) (h : i ≤ j) :
    Position.stride p k i ≤ Position.stride p k j := by
  induction h with
  | refl => exact Nat.le_refl _
  | step _ ih =>
    rw [Position.stride_succ]
    omega

def Position.strides (p n k : Nat) : Nat := (n - p) ⌈/⌉ (k + 1)

theorem Position.strides_le_iff {p n k i : Nat} :
    Position.strides p n k ≤ i ↔ n ≤ Position.stride p k i := by
  unfold Position.strides Position.stride
  rw [ceilDiv_le_iff_le_mul (Nat.succ_pos k), Nat.sub_le_iff_le_add', Nat.mul_comm]

theorem Position.lt_strides_iff {p n k i : Nat} :
    i < Position.strides p n k ↔ Position.stride p k i < n := by
  rw [← Nat.not_le, Position.strides_le_iff, Nat.not_le]

variable {σ α φ : Type} [Subject σ α φ]

def Subject.Passable (s : σ) (n p k j : Nat) : Prop :=
  ∀ i, i < j → Position.stride p k i < n ∧ (elementAt s (Position.stride p k i)).isSome = true

def Subject.strideReads (s : σ) (p k j : Nat) : List (Option α) :=
  (List.range j).map fun i => elementAt s (Position.stride p k i)

theorem Subject.strideReads_succ (s : σ) (p k j : Nat) :
    strideReads s p k (j + 1) = strideReads s p k j ++ [elementAt s (Position.stride p k j)] := by
  simp [strideReads, List.range_succ]

namespace Cursor

theorem scan_of_atEnd {c : Cursor σ} (h : c.atEnd 0 = true) (k m : Nat) :
    c.scan k m = ([], c) := by
  cases m with
  | zero => rfl
  | succ m => simp [scan, h]

theorem scan_of_stalled {c : Cursor σ} (hp : c.peek 0 = none) (he : c.atEnd 0 = false)
    (k m : Nat) : c.scan k m = (List.replicate m none, c) := by
  induction m with
  | zero => rfl
  | succ m ih => simp [scan, he, next, hp, ih, List.replicate_succ]

def strode (c : Cursor σ) (k j : Nat) : Cursor σ :=
  { c with position := Position.advance c.position (j * (k + 1)) }

theorem strode_eq_stride {c : Cursor σ} {k j : Nat}
    (h : Position.stride c.position k j ≤ Position.ceiling) :
    c.strode k j = { c with position := Position.stride c.position k j } := by
  rw [strode, Position.advance_of_le h, Position.stride]

theorem strode_zero {c : Cursor σ} (h : c.position ≤ Position.ceiling) (k : Nat) :
    c.strode k 0 = c := by
  have hzero : Position.stride c.position k 0 = c.position := by simp [Position.stride]
  rw [strode_eq_stride (by rwa [hzero]), hzero]

structure OverEnd (c : Cursor σ) (s : σ) (n : Nat) : Prop extends c.Over s where
  length_eq : Subject.length s = some n
  pos : 0 < n
  length_le : n ≤ Position.ceiling

theorem OverEnd.strode {c : Cursor σ} {s : σ} {n : Nat} (h : c.OverEnd s n) (k j : Nat) :
    (c.strode k j).OverEnd s n :=
  ⟨h.toOver.move _, h.length_eq, h.pos, h.length_le⟩

theorem OverEnd.atEnd_iff {c : Cursor σ} {s : σ} {n : Nat} (h : c.OverEnd s n) :
    c.atEnd 0 = true ↔ n ≤ c.position := by
  have hpos := h.pos
  rw [Cursor.atEnd_iff 0 h.subject h.length_eq h.length_le]
  omega

theorem OverEnd.atEnd_strode_iff {c : Cursor σ} {s : σ} {n : Nat} (h : c.OverEnd s n)
    (k j : Nat) : (c.strode k j).atEnd 0 = true ↔ n ≤ Position.stride c.position k j := by
  rw [(h.strode k j).atEnd_iff]
  exact Position.le_advance_iff _ _ h.length_le

theorem OverEnd.peek_strode {c : Cursor σ} {s : σ} {n k j : Nat} (h : c.OverEnd s n)
    (hlt : Position.stride c.position k j < n) :
    (c.strode k j).peek 0 = Subject.elementAt s (Position.stride c.position k j) := by
  have hle := h.length_le
  have hover := (h.strode k j).toOver
  rw [strode_eq_stride (Nat.le_of_lt (Nat.lt_of_lt_of_le hlt hle))] at hover ⊢
  apply Option.ext
  intro a
  rw [hover.peek_eq_some_iff]
  refine and_iff_right_of_imp fun ha => ?_
  exact ⟨⟨n, h.length_eq, .inr hlt⟩, Option.isSome_iff_exists.2 ⟨a, ha⟩⟩

theorem OverEnd.scan_add {c : Cursor σ} {s : σ} {n k j : Nat} (h : c.OverEnd s n)
    (hpass : Subject.Passable s n c.position k j) (m : Nat) :
    c.scan k (j + m) = (Subject.strideReads s c.position k j ++ ((c.strode k j).scan k m).1,
      ((c.strode k j).scan k m).2) := by
  -- The last of the strides is the first round of what remains, hence the general `m`.
  induction j generalizing m with
  | zero => simp [Subject.strideReads, strode_zero h.position_le]
  | succ j ih =>
    obtain ⟨hlt, hsome⟩ := hpass j (Nat.lt_succ_self j)
    obtain ⟨a, ha⟩ := Option.isSome_iff_exists.1 hsome
    have hpeek : (c.strode k j).peek 0 = some a := (h.peek_strode hlt).trans ha
    have hend : (c.strode k j).atEnd 0 = false := by
      rw [← Bool.not_eq_true, h.atEnd_strode_iff]
      omega
    have hmove : ((c.strode k j).next k).2 = c.strode k (j + 1) := by
      rw [next_of_peek k hpeek]
      simp only [Cursor.strode, Position.advance_advance, Nat.succ_mul]
    have hround : (c.strode k j).scan k (m + 1) =
        (some a :: ((c.strode k (j + 1)).scan k m).1, ((c.strode k (j + 1)).scan k m).2) := by
      rw [← hmove]
      simp [scan, hend, next_of_peek k hpeek]
    rw [Nat.add_right_comm, Nat.add_assoc, ih (fun i hi => hpass i (Nat.lt_succ_of_lt hi)),
      hround, Subject.strideReads_succ, ha]
    simp

theorem OverEnd.scan_passable {c : Cursor σ} {s : σ} {n k j : Nat} (h : c.OverEnd s n)
    (hpass : Subject.Passable s n c.position k j) :
    c.scan k j = (Subject.strideReads s c.position k j, c.strode k j) := by
  simpa [scan] using h.scan_add hpass 0

def SweepEnds (c : Cursor σ) (k : Nat) : Prop := ∃ m, (c.scan k m).2.atEnd 0 = true

/-- What the loop does that ends: it takes as many rounds as there are strides to the end, each of
which finds something. -/
structure EndsAfter (c : Cursor σ) (s : σ) (k m : Nat) : Prop where
  scan_eq : ∀ more, c.scan k (m + more) = (Subject.strideReads s c.position k m,
    { c with position := min (Position.stride c.position k m) Position.ceiling })
  found : ∀ i, i < m → (Subject.elementAt s (Position.stride c.position k i)).isSome = true
  atEnd_last : (c.scan k m).2.atEnd 0 = true
  not_before : ∀ j, j < m → (c.scan k j).2.atEnd 0 = false

/-- What the loop does that does not end: it comes to the first hole, and there each further round
finds nothing and changes nothing. -/
structure StallsAfter (c : Cursor σ) (s : σ) (n k j : Nat) : Prop where
  before_end : Position.stride c.position k j < n
  hole : Subject.elementAt s (Position.stride c.position k j) = none
  found : ∀ i, i < j → (Subject.elementAt s (Position.stride c.position k i)).isSome = true
  scan_eq : ∀ more, c.scan k (j + more) =
    (Subject.strideReads s c.position k j ++ List.replicate more none,
      { c with position := Position.stride c.position k j })
  never : ∀ m, (c.scan k m).2.atEnd 0 = false

theorem OverEnd.endsAfter {c : Cursor σ} {s : σ} {n k : Nat} (h : c.OverEnd s n)
    (hfull : ∀ i, Position.stride c.position k i < n →
      (Subject.elementAt s (Position.stride c.position k i)).isSome = true) :
    c.EndsAfter s k (Position.strides c.position n k) := by
  have hpass : ∀ j, j ≤ Position.strides c.position n k →
      Subject.Passable s n c.position k j := fun j hj i hi => by
    have hlt := Position.lt_strides_iff.1 (Nat.lt_of_lt_of_le hi hj)
    exact ⟨hlt, hfull i hlt⟩
  have hend : (c.strode k (Position.strides c.position n k)).atEnd 0 = true :=
    (h.atEnd_strode_iff k _).2 (Position.strides_le_iff.1 (Nat.le_refl _))
  refine ⟨fun more => ?_, fun i hi => (hpass _ (Nat.le_refl _) i hi).2, ?_, fun j hj => ?_⟩
  · rw [h.scan_add (hpass _ (Nat.le_refl _)), scan_of_atEnd hend, List.append_nil]
    rfl
  · rw [h.scan_passable (hpass _ (Nat.le_refl _))]
    exact hend
  · have hlt := Position.lt_strides_iff.1 hj
    rw [h.scan_passable (hpass j (Nat.le_of_lt hj)), ← Bool.not_eq_true, h.atEnd_strode_iff]
    omega

theorem OverEnd.stallsAfter {c : Cursor σ} {s : σ} {n k j : Nat} (h : c.OverEnd s n)
    (hlt : Position.stride c.position k j < n)
    (hhole : Subject.elementAt s (Position.stride c.position k j) = none)
    (hfound : ∀ i, i < j → (Subject.elementAt s (Position.stride c.position k i)).isSome = true) :
    c.StallsAfter s n k j := by
  have hbefore : ∀ i, i ≤ j → Position.stride c.position k i < n := fun i hi =>
    Nat.lt_of_le_of_lt (Position.stride_le_stride _ k hi) hlt
  have hpass : ∀ i, i ≤ j → Subject.Passable s n c.position k i := fun i hi i' hi' =>
    ⟨hbefore i' (by omega), hfound i' (by omega)⟩
  have hend : ∀ i, i ≤ j → (c.strode k i).atEnd 0 = false := fun i hi => by
    have hi := hbefore i hi
    rw [← Bool.not_eq_true, h.atEnd_strode_iff]
    omega
  have hpeek : (c.strode k j).peek 0 = none := (h.peek_strode hlt).trans hhole
  have hstall : ∀ more, c.scan k (j + more) =
      (Subject.strideReads s c.position k j ++ List.replicate more none, c.strode k j) := by
    intro more
    rw [h.scan_add (hpass j (Nat.le_refl j)), scan_of_stalled hpeek (hend j (Nat.le_refl j))]
  refine ⟨hlt, hhole, hfound, fun more => ?_, fun m => ?_⟩
  · have hle := h.length_le
    rw [hstall, strode_eq_stride (by omega)]
  · -- Up to the hole the loop is short of the end, and from there it does not move.
    by_cases hm : m ≤ j
    · rw [h.scan_passable (hpass m hm)]
      exact hend m hm
    · obtain ⟨more, rfl⟩ := Nat.exists_eq_add_of_le (Nat.le_of_not_le hm)
      rw [hstall]
      exact hend j (Nat.le_refl j)

structure Sweeps (c : Cursor σ) (s : σ) (n k : Nat) : Prop where
  ends_iff : c.SweepEnds k ↔ ∀ i, Position.stride c.position k i < n →
    (Subject.elementAt s (Position.stride c.position k i)).isSome = true
  ended : c.SweepEnds k → c.EndsAfter s k (Position.strides c.position n k)
  endless : ¬ c.SweepEnds k → ∃ j, c.StallsAfter s n k j

theorem OverEnd.exists_stallsAfter {c : Cursor σ} {s : σ} {n k i : Nat} (h : c.OverEnd s n)
    (hlt : Position.stride c.position k i < n)
    (hhole : Subject.elementAt s (Position.stride c.position k i) = none) :
    ∃ j, c.StallsAfter s n k j := by
  classical
  have hex : ∃ i, Subject.elementAt s (Position.stride c.position k i) = none := ⟨i, hhole⟩
  have hfirst := Position.stride_le_stride c.position k (Nat.find_min' hex hhole)
  refine ⟨Nat.find hex, h.stallsAfter (by omega) (Nat.find_spec hex) fun j hj => ?_⟩
  exact Option.isSome_iff_ne_none.2 (Nat.find_min hex hj)

theorem OverEnd.sweeps {c : Cursor σ} {s : σ} {n : Nat} (h : c.OverEnd s n) (k : Nat) :
    c.Sweeps s n k := by
  by_cases hfull : ∀ i, Position.stride c.position k i < n →
      (Subject.elementAt s (Position.stride c.position k i)).isSome = true
  · have hends := h.endsAfter hfull
    have hended : c.SweepEnds k := ⟨_, hends.atEnd_last⟩
    exact ⟨iff_of_true hended hfull, fun _ => hends, fun hn => absurd hended hn⟩
  · obtain ⟨i, hi⟩ := not_forall.1 hfull
    obtain ⟨hlt, hhole⟩ := Classical.not_imp.1 hi
    obtain ⟨j, hj⟩ := h.exists_stallsAfter hlt (by simpa using hhole)
    have hendless : ¬ c.SweepEnds k := fun ⟨m, hm⟩ => by simp [hj.never m] at hm
    exact ⟨iff_of_false hendless hfull, fun hends => absurd hends hendless, fun _ => ⟨j, hj⟩⟩

theorem Reachable.overEnd {c : Cursor σ} {s : σ} {n : Nat} (hc : c.Reachable)
    (hs : c.subject = some s) (hl : Subject.length s = some n) (hpos : 0 < n)
    (hn : n ≤ Position.ceiling) : c.OverEnd s n :=
  ⟨hc.over hs, hl, hpos, hn⟩

theorem Reachable.sweepEnds_of_list {c : Cursor σ} {s : σ} {items : List α} (hc : c.Reachable)
    (hs : c.subject = some s) (hd : Subject.JudgedByDefault σ)
    (hl : Subject.length s = some items.length)
    (hget : ∀ i, Subject.elementAt s i = items[i]?) (hn : items.length ≤ Position.ceiling)
    (k : Nat) : c.SweepEnds k := by
  have hvalid := ((Subject.defect?_eq_none_iff s).1 (hc.defect?_eq_none hs)).2
  rw [hd s, hl, hget] at hvalid
  have hpos : 0 < items.length := by simpa using hvalid
  refine ((hc.overEnd hs hl hpos hn).sweeps k).ends_iff.2 fun i hi => ?_
  rw [hget, List.getElem?_eq_getElem hi]
  rfl

/-- The loop ends exactly if it meets no hole before the end. Then it reads once for each stride to
the end, and else it stays at the first hole for ever. Texts, rows and sequences that were collected
have no holes. -/
theorem sweep_ends_unless_hole (β : Type) :
    (∀ (c : Cursor σ) (s : σ) (n k : Nat), c.Reachable → c.subject = some s →
      Subject.length s = some n → 0 < n → n ≤ Position.ceiling → c.Sweeps s n k) ∧
    (∀ (c : Cursor Text) (t : Text) (k : Nat), c.Reachable → c.subject = some t →
      t.length ≤ Position.ceiling → c.SweepEnds k) ∧
    (∀ (c : Cursor (Row β)) (r : Row β) (k : Nat), c.Reachable → c.subject = some r →
      r.items.length ≤ Position.ceiling → c.SweepEnds k) ∧
    ∀ (c : Cursor (Sparse β)) (items : List β) (k : Nat), c.Reachable →
      c.subject = some (Sparse.ofItems items) → items.length ≤ Position.ceiling →
      c.SweepEnds k := by
  refine ⟨fun c s n k hc hs hl hpos hn => (hc.overEnd hs hl hpos hn).sweeps k, ?_, ?_, ?_⟩
  · intro c t k hc hs hn
    rw [← t.length_chars] at hn
    exact hc.sweepEnds_of_list hs (fun _ => rfl) (congrArg some t.length_chars.symm) t.charAt_eq
      hn k
  · intro c r k hc hs hn
    exact hc.sweepEnds_of_list hs (fun _ => rfl) rfl (fun _ => rfl) hn k
  · intro c items k hc hs hn
    exact hc.sweepEnds_of_list hs (fun _ => rfl) (Sparse.declaredLength_ofItems items)
      (Sparse.get?_ofItems items) hn k

/-- Of two strides over the same holes, the one stops at the second and the other passes between
them, to the end and beyond it. -/
theorem sweep_ends_unless_hole_between :
    let s : Sparse Nat := (Sparse.ofEntries [(0, 10), (2, 30), (3, 40), (6, 70)]).withLength 7
    let c : Cursor (Sparse Nat) := bind (some s) .default
    c.Reachable ∧ (¬ c.SweepEnds 1 ∧ c.StallsAfter s 7 1 2) ∧
      (c.SweepEnds 2 ∧ c.EndsAfter s 2 3 ∧ (c.scan 2 3).2.position = 9) := by
  intro s c
  have hc : c.Reachable := ⟨.unframed s, c, [], rfl, rfl⟩
  have hsweeps := fun k =>
    (sweep_ends_unless_hole Nat).1 c s 7 k hc rfl rfl (by decide) (by decide)
  have hhole : Subject.elementAt s (Position.stride c.position 1 2) = none := rfl
  have hendless : ¬ c.SweepEnds 1 := fun hends => by
    have hsome := (hsweeps 1).ends_iff.1 hends 2 (by decide)
    rw [hhole] at hsome
    cases hsome
  obtain ⟨j, hj⟩ := (hsweeps 1).endless hendless
  obtain rfl : 2 = j := by
    rcases Nat.lt_trichotomy 2 j with hlt | heq | hgt
    · have hsome := hj.found 2 hlt
      rw [hhole] at hsome
      cases hsome
    · exact heq
    · obtain rfl | rfl : j = 0 ∨ j = 1 := by omega
      · cases hj.hole
      · cases hj.hole
  have hstrides : Position.strides c.position 7 2 = 3 := by
    change Position.strides 0 7 2 = 3
    rfl
  have hends : c.SweepEnds 2 := by
    refine (hsweeps 2).ends_iff.2 fun i hi => ?_
    have hlt := Position.lt_strides_iff.2 hi
    rw [hstrides] at hlt
    obtain rfl | rfl | rfl : i = 0 ∨ i = 1 ∨ i = 2 := by omega
    · rfl
    · rfl
    · rfl
  have hafter := (hsweeps 2).ended hends
  rw [hstrides] at hafter
  have hlast := congrArg Cursor.position (congrArg Prod.snd (hafter.scan_eq 0))
  exact ⟨hc, ⟨hendless, hj⟩, hends, hafter, hlast⟩

end Cursor

end FrameCursor
