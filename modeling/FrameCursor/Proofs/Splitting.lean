import Mathlib.Data.List.Forall2
import FrameCursor.Proofs.Excerpts
import FrameCursor.Proofs.Reachable
import FrameCursor.Proofs.WordSpans

set_option autoImplicit false

namespace FrameCursor

theorem Text.wordStop_le {t : Text} {i : Nat} (h : i ≤ t.length) :
    wordStop t.chars i ≤ t.length := by
  rw [← t.length_chars] at h ⊢
  exact FrameCursor.wordStop_le h

theorem Text.wordStart_le {t : Text} {i : Nat} (h : i ≤ t.length) :
    wordStart t.chars i ≤ t.length :=
  Nat.le_trans (wordStart_le_wordStop _ _) (t.wordStop_le h)

theorem Text.wordStop_of_eq {t : Text} {i : Nat} (h : i ≤ t.length)
    (he : wordStart t.chars i = wordStop t.chars i) : wordStop t.chars i = t.length := by
  rw [← t.length_chars] at h ⊢
  exact FrameCursor.wordStop_of_eq h he

theorem Text.allWords_nil {t : Text} {i : Nat} (h : t.length ≤ i) : AllWords t.chars i [] := by
  rw [← t.length_chars] at h
  exact FrameCursor.allWords_nil h

namespace Cursor

structure ReadsText (c : Cursor Text) (t : Text) : Prop where
  subject : c.subject = some t
  nonempty : 0 < t.length
  length_le : t.length ≤ Position.ceiling
  position_le : c.position ≤ Position.ceiling

theorem ReadsText.of_reachable {c : Cursor Text} {t : Text} (h : c.Reachable)
    (hs : c.subject = some t) (hn : t.length ≤ Position.ceiling) : c.ReadsText t := by
  refine ⟨hs, ?_, hn, h.sound.position_le⟩
  have hv := ((Subject.defect?_eq_none_iff t).1 (h.defect?_eq_none hs)).2
  have hfirst : (t.charAt 0).isSome = true := by
    simpa [Subject.isValid, Subject.length, Subject.elementAt] using hv
  rw [Text.charAt_eq, Option.isSome_iff_exists] at hfirst
  obtain ⟨ch, hch⟩ := hfirst
  exact t.lt_length_of_getElem? hch

theorem ReadsText.move {c : Cursor Text} {t : Text} (h : c.ReadsText t) {p : Nat}
    (hp : p ≤ t.length) (mark : Option Nat) :
    { c with position := p, frameStart := mark }.ReadsText t :=
  ⟨h.subject, h.nonempty, h.length_le, Nat.le_trans hp h.length_le⟩

theorem ReadsText.atEnd_iff {c : Cursor Text} {t : Text} (h : c.ReadsText t) :
    c.atEnd 0 = true ↔ t.length ≤ c.position := by
  have hadv : Position.advance c.position 0 = c.position := by
    simp [Position.advance, h.position_le]
  have hn := h.nonempty
  simp [atEnd, h.subject, Subject.length, hadv, hn]

theorem ReadsText.atEnd_of_lt {c : Cursor Text} {t : Text} (h : c.ReadsText t)
    (hlt : c.position < t.length) : c.atEnd 0 = false := by
  rw [← Bool.not_eq_true, h.atEnd_iff]
  omega

theorem ReadsText.peek_zero {c : Cursor Text} {t : Text} (h : c.ReadsText t) :
    c.peek 0 = t.chars[c.position]? := by
  have hahead : Position.ahead? c.position 0 = some c.position := by
    simp [Position.ahead?, h.position_le]
  cases he : c.atEnd 0 with
  | true =>
    have hle := h.atEnd_iff.1 he
    rw [← t.length_chars] at hle
    simp [peek, he, hle]
  | false => simp [peek, he, hahead, h.subject, Subject.elementAt, Text.charAt_eq]

theorem ReadsText.next_zero {c : Cursor Text} {t : Text} {ch : Char} (h : c.ReadsText t)
    (hch : t.chars[c.position]? = some ch) :
    (c.next 0).2 = { c with position := c.position + 1 } := by
  have hlt := t.lt_length_of_getElem? hch
  have hle := h.length_le
  have hadv : Position.advance c.position (0 + 1) = c.position + 1 := by
    simp only [Position.advance]
    omega
  simp [next, h.peek_zero, hch, hadv]

theorem ReadsText.skip_eq {c : Cursor Text} {t : Text} (h : c.ReadsText t) (p : Char → Bool)
    {n : Nat} (hn : t.length - c.position ≤ n) :
    skip p n c = { c with position := endOfRun p t.chars c.position } := by
  induction n generalizing c with
  | zero =>
    have hnone : t.chars[c.position]? = none :=
      List.getElem?_eq_none (by rw [t.length_chars]; omega)
    rw [endOfRun_of_none hnone]
    rfl
  | succ n ih =>
    simp only [skip, h.peek_zero]
    cases hch : t.chars[c.position]? with
    | none =>
      rw [endOfRun_of_none hch]
    | some ch =>
      rw [endOfRun_of_some hch]
      cases hp : p ch with
      | false => simp [hp]
      | true =>
        have hlt := t.lt_length_of_getElem? hch
        have hnext := ih (h.move hlt c.frameStart) (by simp only; omega)
        simpa [hp, h.next_zero hch] using hnext

theorem ReadsText.skipWhile_eq {c : Cursor Text} {t : Text} (h : c.ReadsText t)
    (p : Char → Bool) :
    c.skipWhile p = { c with position := endOfRun p t.chars c.position } :=
  h.skip_eq p (by simp [remaining, h.subject])

theorem ReadsText.cutWord_eq {c : Cursor Text} {t : Text} (h : c.ReadsText t)
    (hf : c.isFramed = true) (hp : c.position ≤ t.length) :
    c.cutWord =
      ⟨.ok (t.extract ⟨wordStart t.chars c.position, wordStop t.chars c.position⟩),
        { c with position := wordStop t.chars c.position, frameStart := none },
        [.recorded (wordStart t.chars c.position),
          .flushed (wordStart t.chars c.position) (wordStop t.chars c.position)]⟩ := by
  have hmarked := h.move (t.wordStart_le hp) (some (wordStart t.chars c.position))
  have hrun := hmarked.skipWhile_eq fun ch => !isBlank ch
  simp only [isFramed] at hf
  simp only [cutWord, h.skipWhile_eq, record, isFramed, hf, if_true, Reply.andThen]
  simp only [wordStart] at hrun ⊢
  rw [hrun]
  simp [flush, isFramed, hf, h.subject, wordStop, wordStart, Subject.extract]

def wordEvents (t : Text) (s : Span) : List Event :=
  [.recorded s.start, .flushed s.start s.stop, .word (t.extract s).text s.stop]

def blankEvents (t : Text) (start : Nat) : List Event :=
  if start < t.length ∧ t.chars.getLast?.any isBlank = true then
    [.recorded t.length, .flushed t.length t.length]
  else []

theorem blankEvents_of_le {t : Text} {start : Nat} (h : t.length ≤ start) :
    blankEvents t start = [] := by
  simp [blankEvents, h]

theorem getLast?_chars {t : Text} {i : Nat} (h : i + 1 = t.length) :
    t.chars.getLast? = t.chars[i]? := by
  rw [List.getLast?_eq_getElem?, t.length_chars, ← h, Nat.add_sub_cancel]

theorem blankEvents_of_no_word {t : Text} {start : Nat} (h : start < t.length)
    (he : wordStart t.chars start = wordStop t.chars start) :
    blankEvents t start = [.recorded t.length, .flushed t.length t.length] := by
  have hstop := t.wordStop_of_eq (Nat.le_of_lt h) he
  have hlt : t.length - 1 < wordStart t.chars start := by omega
  obtain ⟨ch, hch, hb⟩ := blank_of_lt_wordStart (by omega) hlt
  simp [blankEvents, h, getLast?_chars (show t.length - 1 + 1 = t.length by omega), hch, hb]

theorem blankEvents_of_word {t : Text} {start : Nat} (h : start < t.length)
    (hw : wordStart t.chars start < wordStop t.chars start) :
    blankEvents t start = blankEvents t (wordStop t.chars start) := by
  have hle := t.wordStop_le (Nat.le_of_lt h)
  by_cases hlt : wordStop t.chars start < t.length
  · simp [blankEvents, h, hlt]
  · -- The text ends with the word, and its last character is none of the blanks.
    have hlast : t.length - 1 < wordStop t.chars start := by omega
    obtain ⟨ch, hch, hb⟩ := solid_of_lt_wordStop (by omega) hlast
    have hend : t.length ≤ wordStop t.chars start := by omega
    rw [blankEvents_of_le hend]
    simp [blankEvents, getLast?_chars (show t.length - 1 + 1 = t.length by omega), hch, hb]

def finished (c : Cursor Text) (t : Text) : Cursor Text :=
  if c.position < t.length then { c with position := t.length, frameStart := none } else c

theorem ReadsText.wordsWithin_of_end {c : Cursor Text} {t : Text} (h : c.ReadsText t)
    (hle : t.length ≤ c.position) (n : Nat) : wordsWithin n c = ⟨.ok [], c, []⟩ := by
  cases n with
  | zero => rfl
  | succ n => simp [wordsWithin, h.atEnd_iff.2 hle]

theorem ReadsText.wordsWithin_succ {c : Cursor Text} {t : Text} (h : c.ReadsText t)
    (hf : c.isFramed = true) (hlt : c.position < t.length) (n : Nat) :
    let i := wordStart t.chars c.position
    let j := wordStop t.chars c.position
    let rest := wordsWithin n { c with position := j, frameStart := none }
    wordsWithin (n + 1) c =
      if i = j then ⟨rest.result, rest.cursor, [.recorded i, .flushed i j] ++ rest.events⟩
      else ⟨rest.result.map (t.extract ⟨i, j⟩ :: ·), rest.cursor,
        wordEvents t ⟨i, j⟩ ++ rest.events⟩ := by
  intro i j rest
  have hend : c.atEnd 0 = false := h.atEnd_of_lt hlt
  have hle : j ≤ t.length := t.wordStop_le (Nat.le_of_lt hlt)
  have hempty : (t.extract ⟨i, j⟩).isEmpty = true ↔ i = j :=
    Text.isEmpty_extract (wordStart_le_wordStop _ _) hle
  simp only [wordsWithin, hend, h.cutWord_eq hf (Nat.le_of_lt hlt), Reply.andThen,
    Bool.false_eq_true, if_false]
  by_cases he : i = j
  · rw [if_pos he, if_pos (hempty.2 he)]
  · rw [if_neg he, if_neg (mt hempty.1 he)]
    rfl

theorem finished_round {c : Cursor Text} {t : Text} {p : Nat} (hlt : c.position < t.length)
    (hp : p ≤ t.length) :
    finished { c with position := p, frameStart := none } t = c.finished t := by
  by_cases hend : p < t.length
  · simp [finished, hlt, hend]
  · have he : p = t.length := by omega
    simp [finished, hlt, he]

/-- One round for each word and one for blanks at the end: what is cut out, where the cursor ends
and what is logged. -/
theorem ReadsText.wordsWithin_eq {c : Cursor Text} {t : Text} (h : c.ReadsText t)
    (hf : c.isFramed = true) {n : Nat} (hn : t.length - c.position ≤ n) :
    ∃ spans, AllWords t.chars c.position spans ∧
      wordsWithin n c = ⟨.ok (spans.map t.extract), c.finished t,
        spans.flatMap (wordEvents t) ++ blankEvents t c.position⟩ := by
  induction n generalizing c with
  | zero =>
    have hle : t.length ≤ c.position := by omega
    refine ⟨[], t.allWords_nil hle, ?_⟩
    simp [h.wordsWithin_of_end hle, blankEvents_of_le hle, finished, Nat.not_lt.2 hle]
  | succ n ih =>
    by_cases hlt : c.position < t.length
    · have hi : c.position ≤ t.chars.length := by rw [t.length_chars]; omega
      have hstop := t.wordStop_le (Nat.le_of_lt hlt)
      have hmove : c.position < wordStop t.chars c.position :=
        lt_wordStop (by rwa [t.length_chars])
      obtain ⟨spans, hw, hrest⟩ := ih (h.move hstop none) hf (by simp only; omega)
      rw [h.wordsWithin_succ hf hlt, hrest, finished_round hlt hstop]
      by_cases he : wordStart t.chars c.position = wordStop t.chars c.position
      · -- Only blanks were left, and this round is the last.
        have hend := t.wordStop_of_eq (Nat.le_of_lt hlt) he
        obtain rfl := hw.eq_nil (by rw [t.length_chars]; exact Nat.le_of_eq hend.symm)
        refine ⟨[], hw.skip hi he, ?_⟩
        simp [he, hend, blankEvents_of_no_word hlt he, blankEvents_of_le]
      · have hword : wordStart t.chars c.position < wordStop t.chars c.position :=
          Nat.lt_of_le_of_ne (wordStart_le_wordStop _ _) he
        refine ⟨_, hw.cons hi hword, ?_⟩
        simp [he, blankEvents_of_word hlt hword, Except.map]
    · have hle : t.length ≤ c.position := by omega
      refine ⟨[], t.allWords_nil hle, ?_⟩
      simp [h.wordsWithin_of_end hle, blankEvents_of_le hle, finished, hlt]

/-- What it means that an excerpt is cut from a text at a span: the buffer is shared, the bytes are
counted by what stands before each end, and the characters are those of the span. -/
structure CutAt (t : Text) (s : Span) (e : Excerpt) : Prop where
  buffer : e.buffer = t.buffer
  range : e.range = (String.utf8Len (t.chars.take s.start), String.utf8Len (t.chars.take s.stop))
  text : e.text.toList = (t.chars.take s.stop).drop s.start

theorem cutAt_extract {t : Text} {s : Span} (hs : s.start ≤ s.stop) (hstop : s.stop ≤ t.length) :
    CutAt t s (t.extract s) := by
  have hclamp := Text.clamp_eq hs hstop
  refine ⟨?_, ?_, ?_⟩
  · rw [Text.extract_eq]
  · rw [Text.extract_eq, hclamp]
    rfl
  · rw [Text.toList_text_extract, hclamp]

theorem ReadsText.words_eq {c : Cursor Text} {t : Text} (h : c.ReadsText t)
    (hf : c.isFramed = true) :
    ∃ spans, AllWords t.chars c.position spans ∧
      c.words = ⟨.ok (spans.map t.extract), c.finished t,
        spans.flatMap (wordEvents t) ++ blankEvents t c.position⟩ := by
  have hn : t.length - c.position ≤ c.remaining + 1 := by
    simp only [remaining, h.subject]
    omega
  exact h.wordsWithin_eq hf hn

/-- Splitting never fails on a framed cursor over a text whose length is a position: it cuts out
every word from the cursor's position on, once and in order, and goes to the end. -/
theorem words_maximal_runs {c : Cursor Text} {t : Text} (hc : c.Reachable)
    (hf : c.isFramed = true) (hs : c.subject = some t) (hn : t.length ≤ Position.ceiling) :
    ∃ spans words, AllWords t.chars c.position spans ∧ c.words.result = .ok words ∧
      List.Forall₂ (CutAt t) spans words ∧
      c.words.cursor.position = max c.position t.length ∧
      c.words.cursor.subject = c.subject ∧ c.words.cursor.config = c.config ∧
      c.words.cursor.frameStart = if c.position < t.length then none else c.frameStart := by
  have h := ReadsText.of_reachable hc hs hn
  obtain ⟨spans, hw, heq⟩ := h.words_eq hf
  refine ⟨spans, spans.map t.extract, hw, by rw [heq], ?_, ?_⟩
  · rw [List.forall₂_map_right_iff, List.forall₂_same]
    intro s hmem
    have hword := (hw.mem_iff s).1 hmem
    have hstop := hword.stop_le
    rw [t.length_chars] at hstop
    exact cutAt_extract (Nat.le_of_lt hword.nonempty) hstop
  · rw [heq]
    by_cases hlt : c.position < t.length
    · have hmax : max c.position t.length = t.length := Nat.max_eq_right (Nat.le_of_lt hlt)
      simp [finished, hlt, hmax]
    · have hmax : max c.position t.length = c.position := Nat.max_eq_left (Nat.le_of_not_lt hlt)
      simp [finished, hlt, hmax]

/-- A cursor in the middle of a word, with an open frame, in a text with characters of several
bytes. -/
theorem words_maximal_runs_mid_word :
    let t := Text.ofString "añb  ç "
    let c : Cursor Text := ⟨some t, 1, some 0, .withFraming⟩
    c.Reachable ∧ t.length ≤ Position.ceiling ∧
      ∃ spans words, AllWords t.chars 1 spans ∧ c.words.result = .ok words ∧
        List.Forall₂ (CutAt t) spans words ∧ c.words.cursor.position = max 1 t.length ∧
        c.words.cursor.frameStart = if 1 < t.length then none else some 0 := by
  have ho : (Origin.framed (Text.ofString "añb  ç ")).opening.result =
      .ok (bind (some (Text.ofString "añb  ç ")) .withFraming) := rfl
  have hrun : (bind (some (Text.ofString "añb  ç ")) .withFraming).afterActions
      [.perform .record, .perform (.next 0)] =
        ⟨some (Text.ofString "añb  ç "), 1, some 0, .withFraming⟩ := rfl
  have hn : (Text.ofString "añb  ç ").length ≤ Position.ceiling := by decide
  intro t c
  have hc : c.Reachable := ⟨_, _, _, ho, hrun⟩
  obtain ⟨spans, words, hw, hr, hcut, hp, -, -, hm⟩ := words_maximal_runs hc rfl rfl hn
  exact ⟨hc, hn, spans, words, hw, hr, hcut, hp, hm⟩

end Cursor

end FrameCursor
