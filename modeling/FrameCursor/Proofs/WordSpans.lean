import Mathlib.Data.List.TakeWhile
import FrameCursor.Position
import FrameCursor.Text.Blank

/-!
Where the words of a sequence of characters are: the longest spans without a blank among the
characters from a position on. From any position the first round of blanks and of characters that
are not blank either ends at the end or passes exactly one word, and the words that are left are
those from where it ends.
-/

set_option autoImplicit false

namespace FrameCursor

/-- A span without blanks among the characters from `from_` on that no longer one contains. -/
structure IsWord (cs : List Char) (from_ : Nat) (s : Span) : Prop where
  from_le : from_ ≤ s.start
  nonempty : s.start < s.stop
  stop_le : s.stop ≤ cs.length
  solid : ∀ i, s.start ≤ i → i < s.stop → ∃ ch, cs[i]? = some ch ∧ isBlank ch = false
  left : s.start = from_ ∨ ∃ ch, cs[s.start - 1]? = some ch ∧ isBlank ch = true
  right : s.stop = cs.length ∨ ∃ ch, cs[s.stop]? = some ch ∧ isBlank ch = true

def endOfRun (p : Char → Bool) (cs : List Char) (i : Nat) : Nat :=
  i + ((cs.drop i).takeWhile p).length

theorem le_endOfRun (p : Char → Bool) (cs : List Char) (i : Nat) : i ≤ endOfRun p cs i :=
  Nat.le_add_right _ _

theorem endOfRun_le {cs : List Char} {i : Nat} (p : Char → Bool) (h : i ≤ cs.length) :
    endOfRun p cs i ≤ cs.length := by
  have hle := ((cs.drop i).takeWhile_sublist p).length_le
  rw [List.length_drop] at hle
  unfold endOfRun
  omega

theorem getElem?_endOfRun_add (p : Char → Bool) (cs : List Char) (i k : Nat) :
    cs[i + k]? = ((cs.drop i).takeWhile p ++ (cs.drop i).dropWhile p)[k]? := by
  rw [List.takeWhile_append_dropWhile, List.getElem?_drop]

theorem of_lt_endOfRun {p : Char → Bool} {cs : List Char} {i k : Nat} (hi : i ≤ k)
    (hk : k < endOfRun p cs i) : ∃ ch, cs[k]? = some ch ∧ p ch = true := by
  have hlt : k - i < ((cs.drop i).takeWhile p).length := by
    unfold endOfRun at hk
    omega
  have hget := getElem?_endOfRun_add p cs i (k - i)
  rw [Nat.add_sub_cancel' hi, List.getElem?_append_left hlt, List.getElem?_eq_getElem hlt] at hget
  exact ⟨_, hget, List.mem_takeWhile_imp (List.getElem_mem hlt)⟩

theorem of_endOfRun {p : Char → Bool} {cs : List Char} {i : Nat} {ch : Char}
    (h : cs[endOfRun p cs i]? = some ch) : p ch = false := by
  unfold endOfRun at h
  rw [getElem?_endOfRun_add p, List.getElem?_append_right (Nat.le_refl _), Nat.sub_self,
    ← List.head?_eq_getElem?] at h
  have hn := List.head?_dropWhile_not p (cs.drop i)
  simpa [h] using hn

theorem endOfRun_of_some {p : Char → Bool} {cs : List Char} {i : Nat} {ch : Char}
    (h : cs[i]? = some ch) :
    endOfRun p cs i = if p ch then endOfRun p cs (i + 1) else i := by
  obtain ⟨hi, rfl⟩ := List.getElem?_eq_some_iff.1 h
  unfold endOfRun
  rw [List.drop_eq_getElem_cons hi, List.takeWhile_cons]
  split
  · simp only [List.length_cons]
    omega
  · simp

theorem endOfRun_of_none {p : Char → Bool} {cs : List Char} {i : Nat} (h : cs[i]? = none) :
    endOfRun p cs i = i := by
  have hd : cs.drop i = [] := List.drop_eq_nil_of_le (List.getElem?_eq_none_iff.1 h)
  simp [endOfRun, hd]

def wordStart (cs : List Char) (i : Nat) : Nat := endOfRun isBlank cs i

def wordStop (cs : List Char) (i : Nat) : Nat :=
  endOfRun (fun ch => !isBlank ch) cs (wordStart cs i)

theorem wordStart_le_wordStop (cs : List Char) (i : Nat) : wordStart cs i ≤ wordStop cs i :=
  le_endOfRun _ _ _

theorem wordStop_le {cs : List Char} {i : Nat} (h : i ≤ cs.length) :
    wordStop cs i ≤ cs.length :=
  endOfRun_le _ (endOfRun_le _ h)

theorem blank_of_lt_wordStart {cs : List Char} {i k : Nat} (hi : i ≤ k)
    (hk : k < wordStart cs i) : ∃ ch, cs[k]? = some ch ∧ isBlank ch = true :=
  of_lt_endOfRun hi hk

theorem solid_of_lt_wordStop {cs : List Char} {i k : Nat} (hi : wordStart cs i ≤ k)
    (hk : k < wordStop cs i) : ∃ ch, cs[k]? = some ch ∧ isBlank ch = false := by
  obtain ⟨ch, hch, hb⟩ := of_lt_endOfRun hi hk
  exact ⟨ch, hch, by simpa using hb⟩

theorem solid_at_wordStart {cs : List Char} {i : Nat} {ch : Char}
    (h : cs[wordStart cs i]? = some ch) : isBlank ch = false :=
  of_endOfRun h

theorem blank_at_wordStop {cs : List Char} {i : Nat} {ch : Char}
    (h : cs[wordStop cs i]? = some ch) : isBlank ch = true := by
  simpa using of_endOfRun h

theorem wordStop_of_eq {cs : List Char} {i : Nat} (hi : i ≤ cs.length)
    (h : wordStart cs i = wordStop cs i) : wordStop cs i = cs.length := by
  have hle := wordStop_le hi
  cases hch : cs[wordStop cs i]? with
  | none =>
    have hge := List.getElem?_eq_none_iff.1 hch
    omega
  | some ch =>
    have hb := blank_at_wordStop hch
    rw [← h] at hch
    simp [solid_at_wordStart hch] at hb

theorem lt_wordStop {cs : List Char} {i : Nat} (h : i < cs.length) : i < wordStop cs i := by
  have hs := wordStart_le_wordStop cs i
  have hi : i ≤ wordStart cs i := le_endOfRun _ _ _
  by_cases he : i = wordStop cs i
  · have hend := wordStop_of_eq (Nat.le_of_lt h) (by omega)
    omega
  · omega

theorem IsWord.start_solid {cs : List Char} {i : Nat} {s : Span} (h : IsWord cs i s) :
    ∃ ch, cs[s.start]? = some ch ∧ isBlank ch = false :=
  h.solid s.start (Nat.le_refl _) h.nonempty

theorem not_blank_of_solid {cs : List Char} {i : Nat}
    (hs : ∃ ch, cs[i]? = some ch ∧ isBlank ch = false) :
    ¬ ∃ ch, cs[i]? = some ch ∧ isBlank ch = true := by
  rintro ⟨ch, hch, hb⟩
  obtain ⟨ch', hch', hsolid⟩ := hs
  obtain rfl : ch = ch' := Option.some.inj (hch.symm.trans hch')
  simp [hb] at hsolid

theorem not_isWord_of_le {cs : List Char} {i : Nat} {s : Span} (h : cs.length ≤ i) :
    ¬ IsWord cs i s := by
  intro hw
  have hfrom := hw.from_le
  have hne := hw.nonempty
  have hle := hw.stop_le
  omega

/-- The span that a round passes is a word, if there is anything in it. -/
theorem isWord_round {cs : List Char} {i : Nat} (hi : i ≤ cs.length)
    (h : wordStart cs i < wordStop cs i) : IsWord cs i ⟨wordStart cs i, wordStop cs i⟩ where
  from_le := le_endOfRun _ _ _
  nonempty := h
  stop_le := wordStop_le hi
  solid k hk hk' := solid_of_lt_wordStop hk hk'
  left := by
    have hle : i ≤ wordStart cs i := le_endOfRun _ _ _
    by_cases he : wordStart cs i = i
    · exact .inl he
    · have hge : i ≤ wordStart cs i - 1 := by omega
      have hlt : wordStart cs i - 1 < wordStart cs i := by omega
      exact .inr (blank_of_lt_wordStart hge hlt)
  right := by
    have hle := wordStop_le hi
    by_cases he : wordStop cs i = cs.length
    · exact .inl he
    · have hlt : wordStop cs i < cs.length := by omega
      exact .inr ⟨_, List.getElem?_eq_getElem hlt, blank_at_wordStop (List.getElem?_eq_getElem hlt)⟩

theorem IsWord.of_round {cs : List Char} {i : Nat} {s : Span}
    (h : IsWord cs (wordStop cs i) s) : IsWord cs i s := by
  have hstart : wordStart cs i ≤ wordStop cs i := wordStart_le_wordStop cs i
  have hi : i ≤ wordStart cs i := le_endOfRun _ _ _
  have hfrom := h.from_le
  refine ⟨by omega, h.nonempty, h.stop_le, h.solid, ?_, h.right⟩
  rcases h.left with he | hb
  · -- The character where the round ends is blank, so that no word starts there.
    obtain ⟨ch, hch, hsolid⟩ := h.start_solid
    rw [he] at hch
    simp [blank_at_wordStop hch] at hsolid
  · exact .inr hb

theorem IsWord.start_eq {cs : List Char} {i : Nat} {s : Span} (h : IsWord cs i s)
    (hs : s.start < wordStop cs i) : s.start = wordStart cs i := by
  have hge : wordStart cs i ≤ s.start := by
    by_contra hlt
    exact not_blank_of_solid h.start_solid
      (blank_of_lt_wordStart h.from_le (Nat.lt_of_not_le hlt))
  have hfrom : i ≤ wordStart cs i := le_endOfRun _ _ _
  rcases h.left with he | hb
  · omega
  · by_contra hgt
    -- What stands before the word belongs to the round's word, and is no blank.
    have hlt : s.start - 1 < wordStop cs i := by omega
    exact not_blank_of_solid (solid_of_lt_wordStop (by omega) hlt) hb

theorem IsWord.stop_eq {cs : List Char} {i : Nat} {s : Span} (hi : i ≤ cs.length)
    (h : IsWord cs i s) (hs : s.start < wordStop cs i) : s.stop = wordStop cs i := by
  have hstart := h.start_eq hs
  have hne := h.nonempty
  have hle := wordStop_le hi
  have hge : wordStop cs i ≤ s.stop := by
    by_contra hlt
    rcases h.right with he | hb
    · omega
    · have hlt : s.stop < wordStop cs i := by omega
      exact not_blank_of_solid (solid_of_lt_wordStop (by omega) hlt) hb
  by_contra hgt
  obtain ⟨ch, hch, hsolid⟩ := h.solid (wordStop cs i) (by omega) (by omega)
  simp [blank_at_wordStop hch] at hsolid

theorem IsWord.eq_round {cs : List Char} {i : Nat} {s : Span} (hi : i ≤ cs.length)
    (h : IsWord cs i s) (hs : s.start < wordStop cs i) :
    s = ⟨wordStart cs i, wordStop cs i⟩ := by
  rw [← h.start_eq hs, ← h.stop_eq hi hs]

/-- From the end of a round on the words are those that the round did not pass. -/
theorem isWord_iff_round {cs : List Char} {i : Nat} {s : Span} (hi : i ≤ cs.length) :
    IsWord cs i s ↔
      (wordStart cs i < wordStop cs i ∧ s = ⟨wordStart cs i, wordStop cs i⟩) ∨
        IsWord cs (wordStop cs i) s := by
  constructor
  · intro h
    by_cases hs : s.start < wordStop cs i
    · obtain rfl := h.eq_round hi hs
      exact .inl ⟨h.nonempty, rfl⟩
    · refine .inr ⟨by omega, h.nonempty, h.stop_le, h.solid, ?_, h.right⟩
      rcases h.left with he | hb
      · have hlt := h.nonempty
        have hle := h.stop_le
        have hmove : i < wordStop cs i := lt_wordStop (by omega)
        omega
      · exact .inr hb
  · rintro (⟨h, rfl⟩ | h)
    · exact isWord_round hi h
    · exact h.of_round

structure AllWords (cs : List Char) (from_ : Nat) (spans : List Span) : Prop where
  ascending : spans.Pairwise fun a b => a.stop ≤ b.start
  mem_iff : ∀ s, s ∈ spans ↔ IsWord cs from_ s

theorem allWords_nil {cs : List Char} {i : Nat} (h : cs.length ≤ i) : AllWords cs i [] where
  ascending := .nil
  mem_iff s := by simp [not_isWord_of_le h]

theorem AllWords.eq_nil {cs : List Char} {i : Nat} {spans : List Span} (h : AllWords cs i spans)
    (hle : cs.length ≤ i) : spans = [] := by
  refine List.eq_nil_iff_forall_not_mem.2 fun s hs => ?_
  exact not_isWord_of_le hle ((h.mem_iff s).1 hs)

theorem AllWords.unique {cs : List Char} {i : Nat} {spans spans' : List Span}
    (h : AllWords cs i spans) (h' : AllWords cs i spans') : spans = spans' := by
  have hnodup {l : List Span} (hl : AllWords cs i l) : l.Nodup := by
    refine hl.ascending.imp_of_mem fun ha _ hab he => ?_
    have hne := ((hl.mem_iff _).1 ha).nonempty
    subst he
    omega
  refine List.Perm.eq_of_pairwise (fun a b ha hb hab hba => ?_) h.ascending h'.ascending ?_
  · have hna := ((h.mem_iff a).1 ha).nonempty
    have hnb := ((h'.mem_iff b).1 hb).nonempty
    omega
  · refine (List.perm_ext_iff_of_nodup (hnodup h) (hnodup h')).2 fun s => ?_
    rw [h.mem_iff, h'.mem_iff]

theorem AllWords.skip {cs : List Char} {i : Nat} {spans : List Span}
    (h : AllWords cs (wordStop cs i) spans) (hi : i ≤ cs.length)
    (he : wordStart cs i = wordStop cs i) : AllWords cs i spans where
  ascending := h.ascending
  mem_iff s := by
    rw [isWord_iff_round hi, h.mem_iff]
    simp [he]

theorem AllWords.cons {cs : List Char} {i : Nat} {spans : List Span}
    (h : AllWords cs (wordStop cs i) spans) (hi : i ≤ cs.length)
    (hlt : wordStart cs i < wordStop cs i) :
    AllWords cs i (⟨wordStart cs i, wordStop cs i⟩ :: spans) where
  ascending := List.pairwise_cons.2 ⟨fun s hs => ((h.mem_iff s).1 hs).from_le, h.ascending⟩
  mem_iff s := by
    rw [isWord_iff_round hi, ← h.mem_iff]
    simp [hlt]

end FrameCursor
