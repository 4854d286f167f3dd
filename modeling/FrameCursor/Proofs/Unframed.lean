import FrameCursor.Proofs.Rounds

set_option autoImplicit false

namespace FrameCursor

structure BlankUpTo (cs : List Char) (from_ stop : Nat) : Prop where
  from_le : from_ ≤ stop
  stop_le : stop ≤ cs.length
  blank : ∀ i, from_ ≤ i → i < stop → ∃ ch, cs[i]? = some ch ∧ isBlank ch = true
  solid : stop < cs.length → ∃ ch, cs[stop]? = some ch ∧ isBlank ch = false

theorem blankUpTo_wordStart {cs : List Char} {i : Nat} (h : i ≤ cs.length) :
    BlankUpTo cs i (wordStart cs i) where
  from_le := le_endOfRun isBlank cs i
  stop_le := endOfRun_le isBlank h
  blank _ hk hlt := blank_of_lt_wordStart hk hlt
  solid hlt := ⟨_, List.getElem?_eq_getElem hlt, solid_at_wordStart (List.getElem?_eq_getElem hlt)⟩

theorem wordStart_wordStart {cs : List Char} {i : Nat} :
    wordStart cs (wordStart cs i) = wordStart cs i := by
  cases hch : cs[wordStart cs i]? with
  | none => exact endOfRun_of_none hch
  | some ch =>
    have hsolid : isBlank ch = false := solid_at_wordStart hch
    have hrun := endOfRun_of_some (p := isBlank) hch
    rwa [hsolid, if_neg Bool.false_ne_true] at hrun

namespace Cursor

theorem record_of_unframed {c : Cursor Text} (hf : c.isFramed = false) :
    c.record = ⟨.error .framingDisabled, c, [.refused .record]⟩ := by
  simp [record, hf]

theorem Reachable.frameStart_of_unframed {c : Cursor Text} (h : c.Reachable)
    (hf : c.isFramed = false) : c.frameStart = none := by
  cases hm : c.frameStart with
  | none => rfl
  | some f =>
    have hframed := (h.sound.marked f hm).1
    rw [hf] at hframed
    cases hframed

def refusedAt (c : Cursor Text) (stop : Nat) {β : Type} : Reply Text (Except CursorError β) :=
  ⟨.error .framingDisabled, { c with position := stop }, [.refused .record]⟩

theorem ReadsText.cutWord_of_unframed {c : Cursor Text} {t : Text} (h : c.ReadsText t)
    (hf : c.isFramed = false) : c.cutWord = c.refusedAt (wordStart t.chars c.position) := by
  have hskip : c.skipWhile isBlank = { c with position := wordStart t.chars c.position } :=
    h.skipWhile_eq isBlank
  have hrecord := record_of_unframed (c := { c with position := wordStart t.chars c.position }) hf
  rw [cutWord, hskip, hrecord]
  rfl

theorem ReadsText.words_of_unframed {c : Cursor Text} {t : Text} (h : c.ReadsText t)
    (hf : c.isFramed = false) (hlt : c.position < t.length) :
    c.words = c.refusedAt (wordStart t.chars c.position) := by
  rw [words, wordsWithin, h.atEnd_of_lt hlt, h.cutWord_of_unframed hf]
  rfl

theorem ReadsText.words_of_end {c : Cursor Text} {t : Text} (h : c.ReadsText t)
    (hle : t.length ≤ c.position) : c.words = ⟨.ok [], c, []⟩ :=
  h.wordsWithin_of_end hle _

theorem ReadsText.splits_of_unframed {c : Cursor Text} {t : Text} (h : c.ReadsText t)
    (hf : c.isFramed = false) (hlt : c.position < t.length) :
    Splits c 1 (readsBetween t c.position (wordStart t.chars c.position)) c.words := by
  have hblanks : Skips isBlank c (readsBetween t c.position (wordStart t.chars c.position))
      { c with position := wordStart t.chars c.position } := h.skips isBlank
  have hrecord := record_of_unframed (c := { c with position := wordStart t.chars c.position }) hf
  have hcuts := Cuts.refused hblanks (by rw [hrecord])
  rw [hrecord] at hcuts
  rw [h.words_of_unframed hf hlt]
  exact .failed (h.atEnd_of_lt hlt) hcuts rfl

/-- Splitting without framing does nothing at the end. Before it, it is refused: the cursor is moved
to the first character that is no blank, or to the end, and one refusal is logged. Done again it is
refused in the same place, or finds itself at the end. -/
theorem unframed_splitting_refused {c : Cursor Text} {t : Text} (hc : c.Reachable)
    (hf : c.isFramed = false) (hs : c.subject = some t) (hn : t.length ≤ Position.ceiling) :
    c.frameStart = none ∧
    (t.length ≤ c.position → c.words = ⟨.ok [], c, []⟩ ∧ Splits c 0 [] c.words) ∧
    (c.position < t.length → ∃ stop, BlankUpTo t.chars c.position stop ∧
      let c' := { c with position := stop }
      c.words = ⟨.error .framingDisabled, c', [.refused .record]⟩ ∧
      Splits c 1 (readsBetween t c.position stop) c.words ∧
      (stop < t.length → c'.words = ⟨.error .framingDisabled, c', [.refused .record]⟩) ∧
      (stop = t.length → c'.words = ⟨.ok [], c', []⟩)) := by
  have h := ReadsText.of_reachable hc hs hn
  refine ⟨hc.frameStart_of_unframed hf, fun hle => ?_, fun hlt => ?_⟩
  · have hend := h.words_of_end hle
    exact ⟨hend, by rw [hend]; exact .ended (h.atEnd_iff.2 hle)⟩
  · have hle := Nat.le_of_lt hlt
    have hblank : BlankUpTo t.chars c.position (wordStart t.chars c.position) :=
      blankUpTo_wordStart (by rwa [t.length_chars])
    have hmoved := h.move (t.wordStart_le hle) c.frameStart
    refine ⟨wordStart t.chars c.position, hblank, h.words_of_unframed hf hlt,
      h.splits_of_unframed hf hlt, fun hstop => ?_, fun hstop => ?_⟩
    · have hagain := hmoved.words_of_unframed hf hstop
      simp only [wordStart_wordStart] at hagain
      exact hagain
    · exact hmoved.words_of_end (Nat.le_of_eq hstop.symm)

/-- Two blanks after a character of two bytes are passed, and the word behind them is refused twice. -/
theorem unframed_splitting_refused_before_word :
    let t := Text.ofString "ñ  ç"
    let c : Cursor Text := ⟨some t, 1, none, .default⟩
    let c' : Cursor Text := ⟨some t, 3, none, .default⟩
    c.Reachable ∧ c.isFramed = false ∧ t.length ≤ Position.ceiling ∧
      BlankUpTo t.chars 1 3 ∧
      c.words = ⟨.error .framingDisabled, c', [.refused .record]⟩ ∧
      Splits c 1 [(1, some ' '), (2, some ' ')] c.words ∧
      c'.words = ⟨.error .framingDisabled, c', [.refused .record]⟩ := by
  have ho : (Origin.unframed (Text.ofString "ñ  ç")).opening.result =
      .ok (bind (some (Text.ofString "ñ  ç")) .default) := rfl
  have hrun : (bind (some (Text.ofString "ñ  ç")) .default).afterActions [.perform (.next 0)] =
      ⟨some (Text.ofString "ñ  ç"), 1, none, .default⟩ := rfl
  have hn : (Text.ofString "ñ  ç").length ≤ Position.ceiling := by decide
  intro t c c'
  have hc : c.Reachable := ⟨_, _, _, ho, hrun⟩
  obtain ⟨-, -, hbefore⟩ := unframed_splitting_refused hc rfl rfl hn
  obtain ⟨stop, hblank, hwords, hsplits, hagain, -⟩ := hbefore (by decide)
  obtain rfl : 3 = stop := by
    have hposition : c.words.cursor.position = 3 := by decide +kernel
    rwa [hwords, eq_comm] at hposition
  have hreads : readsBetween t 1 3 = [(1, some ' '), (2, some ' ')] := by decide +kernel
  exact ⟨hc, rfl, hn, hblank, hwords, hreads ▸ hsplits, hagain (by decide)⟩

end Cursor

end FrameCursor
