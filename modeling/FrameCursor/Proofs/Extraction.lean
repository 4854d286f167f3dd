import Mathlib.Data.List.Sort
import FrameCursor.Proofs.FrameContents

/-!
Cutting out as reading. Whichever way a subject cuts out a span, natively or by copying, what comes
out is what reads find at the positions of the span, in ascending order, as far as a bound that is
the subject's own. A sparse sequence can be cut out both ways, and the two bounds differ: its extent
covers all that is stored, and its length need not.
-/

set_option autoImplicit false

namespace FrameCursor

namespace Span

def below (s : Span) (bound : Nat) : List Nat :=
  (List.range bound).filter fun i => s.start ≤ i ∧ i < s.stop

theorem mem_below {s : Span} {n i : Nat} :
    i ∈ s.below n ↔ s.start ≤ i ∧ i < s.stop ∧ i < n := by
  simp only [below, List.mem_filter, List.mem_range, decide_eq_true_eq]
  omega

theorem indices_clamp (s : Span) (n : Nat) : (s.clamp n).indices = s.below n := by
  have hclamp : (s.clamp n).indices.Pairwise (· < ·) := List.pairwise_lt_range' 1
  have hbelow : (s.below n).Pairwise (· < ·) := List.pairwise_lt_range.filter _
  refine hclamp.eq_of_mem_iff hbelow fun i => ?_
  rw [mem_indices_clamp, mem_below]

theorem below_eq_nil {s : Span} {n : Nat} (h : s.stop ≤ s.start ∨ n ≤ s.start) :
    s.below n = [] := by
  refine List.eq_nil_iff_forall_not_mem.2 fun i hi => ?_
  have hmem := mem_below.1 hi
  omega

end Span

variable {σ α φ : Type} [Subject σ α φ]

namespace Subject

/-- The entries are what reads find at the positions of the span below `bound`, and the positions
that the span is cut down to are in order and no further than that. -/
structure CutsOut (s : σ) (bound : Nat) (span : Span) (entries : List (Option α)) : Prop where
  entries_eq : entries = (span.below bound).map (elementAt s)
  empty : span.stop ≤ span.start ∨ bound ≤ span.start → entries = []
  in_bounds : (span.clamp bound).start ≤ (span.clamp bound).stop ∧ (span.clamp bound).stop ≤ bound

theorem cutsOut_of_eq {s : σ} {bound : Nat} {span : Span} {entries : List (Option α)}
    (h : entries = (span.clamp bound).indices.map (elementAt s)) :
    CutsOut s bound span entries := by
  rw [Span.indices_clamp] at h
  refine ⟨h, fun hempty => ?_, span.clamp_start_le_stop bound, span.clamp_stop_le bound⟩
  rw [h, Span.below_eq_nil hempty, List.map_nil]

theorem copy_eq (s : σ) (span : Span) :
    copy s span = (span.below ((length s).getD 0)).map (elementAt s) := by
  rw [copy, copyWithin, Span.indices_clamp]

theorem copy_eq_nil {s : σ} {span : Span} (h : (length s).getD 0 ≤ span.start) :
    copy s span = [] := by
  rw [copy_eq, Span.below_eq_nil (.inr h), List.map_nil]

end Subject

namespace Sparse

variable {α : Type}

theorem lookup_of_mem {entries : List (Nat × α)} {k : Nat} {a : α} (h : Ascending entries)
    (hmem : (k, a) ∈ entries) : entries.lookup k = some a := by
  induction entries with
  | nil => cases hmem
  | cons e rest ih =>
    obtain ⟨hlt, hrest⟩ := List.pairwise_cons.1 h
    rcases List.mem_cons.1 hmem with rfl | hmem
    · exact List.lookup_cons_self
    · rw [List.lookup_cons, beq_false_of_ne (Nat.ne_of_gt (hlt _ hmem))]
      exact ih hrest hmem

theorem get?_of_mem {s : Sparse α} {e : Nat × α} (h : e ∈ s.entries) : s.get? e.1 = some e.2 :=
  lookup_of_mem s.ascending h

theorem extent_le_ceiling {s : Sparse α} (hkeys : ∀ e ∈ s.entries, e.1 < Position.ceiling)
    (hn : Subject.LengthFits s) : s.extent ≤ Position.ceiling := by
  have hlength : s.declaredLength.getD 0 ≤ Position.ceiling := by
    cases hl : s.declaredLength with
    | none => exact Nat.zero_le _
    | some n => exact hn n hl
  exact Nat.max_le.2 ⟨hlength, pastLast_le hkeys⟩

end Sparse

/-- Rows, texts and sparse sequences cut out, and any subject copies, what reads find at the
positions of the span below the bound of each. -/
theorem extraction_agrees_with_reads (α : Type) (span : Span) :
    (∀ r : Row α,
      Subject.CutsOut r r.items.length span ((Subject.extract r span).map some)) ∧
    (∀ t : Text, t.length < t.boundaries.size ∧
      Subject.CutsOut t t.length span ((Subject.extract t span).text.toList.map some)) ∧
    (∀ s : Sparse α, (∀ e ∈ s.entries, e.1 < Position.ceiling) → Subject.LengthFits s →
      s.extent ≤ Position.ceiling ∧ Subject.CutsOut s s.extent span (Subject.extract s span)) ∧
    ∀ (σ β φ : Type) [Subject σ β φ] (s : σ),
      Subject.CutsOut s ((Subject.length s).getD 0) span (Subject.copy s span) := by
  refine ⟨fun r => ?_, fun t => ⟨t.length_lt_size, ?_⟩, fun s hkeys hn => ?_, fun _ _ _ _ s => ?_⟩
  · exact Subject.cutsOut_of_eq (r.copiesTo span)
  · exact Subject.cutsOut_of_eq (t.copiesTo span)
  · exact ⟨Sparse.extent_le_ceiling hkeys hn, Subject.cutsOut_of_eq (s.copiesTo span)⟩
  · exact Subject.cutsOut_of_eq rfl

/-- A length shorter than the extent: the span runs over two holes to the entry past the length. -/
theorem extraction_agrees_with_reads_past_length :
    let s : Sparse Char := (Sparse.ofEntries [(4, 'y'), (0, 'w'), (1, 'x')]).withLength 2
    (∀ e ∈ s.entries, e.1 < Position.ceiling) ∧ Subject.LengthFits s ∧
      Subject.CutsOut s s.extent ⟨1, 9⟩ (Subject.extract s ⟨1, 9⟩) ∧
      Subject.extract s ⟨1, 9⟩ = [some 'x', none, none, some 'y'] ∧
      Subject.CutsOut s 2 ⟨1, 9⟩ (Subject.copy s ⟨1, 9⟩) ∧
      Subject.copy s ⟨1, 9⟩ = [some 'x'] := by
  intro s
  have hkeys : ∀ e ∈ s.entries, e.1 < Position.ceiling := by decide
  have hn : Subject.LengthFits s := fun n hl => by
    obtain rfl : 2 = n := Option.some.inj hl
    decide
  obtain ⟨-, -, hsparse, hcopy⟩ := extraction_agrees_with_reads Char ⟨1, 9⟩
  have hcut := (hsparse s hkeys hn).2
  have hcopied := hcopy (Sparse Char) Char _ s
  exact ⟨hkeys, hn, hcut, hcut.entries_eq, hcopied, hcopied.entries_eq⟩

namespace Span

theorem below_grows (s : Span) {m n : Nat} (h : m ≤ n) : s.below m <+: s.below n := by
  have hrange : List.range m <+: List.range n := by
    rw [← Nat.min_eq_left h, ← List.take_range]
    exact List.take_prefix m _
  exact hrange.filter _

theorem below_single {k n : Nat} (h : k < n) : (Span.mk k (k + 1)).below n = [k] := by
  rw [← indices_clamp, clamp_of_le (Nat.le_succ k), Nat.min_eq_left (Nat.le_of_lt h),
    Nat.min_eq_left h]
  simp [indices]

end Span

namespace Sparse

variable {α : Type}

theorem extract_eq (s : Sparse α) (span : Span) :
    Subject.extract s span = (span.below s.extent).map s.get? :=
  congrArg (List.map s.get?) (span.indices_clamp s.extent)

theorem copy_prefix_extract (s : Sparse α) (span : Span) :
    Subject.copy s span <+: Subject.extract s span := by
  rw [Subject.copy_eq, extract_eq]
  exact (span.below_grows (Nat.le_max_left _ _)).map _

theorem copy_eq_extract {s : Sparse α} (h : ∀ e ∈ s.entries, e.1 < s.declaredLength.getD 0)
    (span : Span) : Subject.copy s span = Subject.extract s span := by
  have hextent : s.extent = s.declaredLength.getD 0 := Nat.max_eq_left (pastLast_le h)
  rw [Subject.copy_eq, extract_eq, hextent]
  rfl

theorem extract_single {s : Sparse α} {e : Nat × α} (h : e ∈ s.entries) :
    Subject.extract s ⟨e.1, e.1 + 1⟩ = [some e.2] := by
  have hget := get?_of_mem h
  rw [extract_eq, Span.below_single (lt_extent hget), List.map_singleton, hget]

end Sparse

/-- Copies of spans of a sparse sequence are what is cut out, as far as they go, and nothing beyond
the length. They go all the way for every span exactly if all that is stored lies within the length;
an entry that does not can be cut out and not be copied. -/
theorem copy_against_extraction {α : Type} (s : Sparse α)
    (hkeys : ∀ e ∈ s.entries, e.1 < Position.ceiling) :
    (∀ span : Span, Subject.copy s span <+: Subject.extract s span) ∧
    (∀ span : Span, s.declaredLength.getD 0 ≤ span.start → Subject.copy s span = []) ∧
    ((∀ span : Span, span.start ≤ Position.ceiling → span.stop ≤ Position.ceiling →
        Subject.copy s span = Subject.extract s span) ↔
      ∀ e ∈ s.entries, e.1 < s.declaredLength.getD 0) ∧
    ∀ e ∈ s.entries, s.declaredLength.getD 0 ≤ e.1 →
      ∃ span : Span, span.start ≤ Position.ceiling ∧ span.stop ≤ Position.ceiling ∧
        Subject.extract s span = [some e.2] ∧ Subject.copy s span = [] := by
  have homits : ∀ e ∈ s.entries, s.declaredLength.getD 0 ≤ e.1 →
      ∃ span : Span, span.start ≤ Position.ceiling ∧ span.stop ≤ Position.ceiling ∧
        Subject.extract s span = [some e.2] ∧ Subject.copy s span = [] := by
    intro e he hle
    exact ⟨⟨e.1, e.1 + 1⟩, Nat.le_of_lt (hkeys e he), hkeys e he, Sparse.extract_single he,
      Subject.copy_eq_nil hle⟩
  refine ⟨s.copy_prefix_extract, fun _ hle => Subject.copy_eq_nil (s := s) hle,
    ⟨fun hsame e he => ?_, ?_⟩, homits⟩
  · by_contra hlt
    obtain ⟨span, hstart, hstop, hextract, hcopy⟩ := homits e he (Nat.le_of_not_lt hlt)
    have heq := hsame span hstart hstop
    rw [hextract, hcopy] at heq
    cases heq
  · exact fun hwithin span _ _ => Sparse.copy_eq_extract hwithin span

/-- The copy ends where the length does, in front of the second entry. -/
theorem copy_against_extraction_short_length :
    let s : Sparse Nat := (Sparse.ofEntries [(5, 50), (0, 10)]).withLength 3
    (∀ e ∈ s.entries, e.1 < Position.ceiling) ∧
      Subject.copy s ⟨0, 9⟩ <+: Subject.extract s ⟨0, 9⟩ ∧
      Subject.copy s ⟨0, 9⟩ = [some 10, none, none] ∧
      Subject.extract s ⟨0, 9⟩ = [some 10, none, none, none, none, some 50] ∧
      (¬ ∀ span : Span, span.start ≤ Position.ceiling → span.stop ≤ Position.ceiling →
        Subject.copy s span = Subject.extract s span) ∧
      ∃ span : Span, span.start ≤ Position.ceiling ∧ span.stop ≤ Position.ceiling ∧
        Subject.extract s span = [some 50] ∧ Subject.copy s span = [] := by
  intro s
  have hkeys : ∀ e ∈ s.entries, e.1 < Position.ceiling := by decide
  obtain ⟨hinitial, -, hiff, homits⟩ := copy_against_extraction s hkeys
  have hbeyond : ¬ ∀ e ∈ s.entries, e.1 < s.declaredLength.getD 0 := by decide
  exact ⟨hkeys, hinitial _, rfl, rfl, fun hsame => hbeyond (hiff.1 hsame),
    homits (5, 50) (by decide) (by decide)⟩

end FrameCursor
