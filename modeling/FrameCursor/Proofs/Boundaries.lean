import FrameCursor.Proofs.Excerpts

/-!
The table of boundaries and what is cut out by it. The entries ascend from zero to the length of the
buffer in bytes, one for each character and one for the end, and at each of them the buffer can be
parted without splitting a character. An excerpt runs from one entry to another, whatever span it
was asked for, so that it reads as whole characters.
-/

set_option autoImplicit false

namespace FrameCursor

theorem le_of_mem_offsetsFrom {n m : Nat} {cs : List Char} (h : m ∈ offsetsFrom n cs) : n ≤ m := by
  induction cs generalizing n with
  | nil => exact Nat.le_of_eq (List.mem_singleton.1 h).symm
  | cons c cs ih =>
    rcases List.mem_cons.1 h with rfl | h
    · exact Nat.le_refl _
    · exact Nat.le_trans (Nat.le_add_right _ _) (ih h)

theorem ascending_offsetsFrom (n : Nat) (cs : List Char) :
    (offsetsFrom n cs).Pairwise (· < ·) := by
  induction cs generalizing n with
  | nil => exact List.pairwise_singleton _ _
  | cons c cs ih =>
    refine List.pairwise_cons.2 ⟨fun m hm => ?_, ih _⟩
    have hle := le_of_mem_offsetsFrom hm
    have hpos := c.utf8Size_pos
    omega

namespace Text

/-- The table holds the length in bytes of every prefix of `s`, from the empty one to `s`. -/
structure Tabulates (t : Text) (s : String) : Prop where
  size : t.boundaries.size = s.toList.length + 1
  ascending : t.boundaries.toList.Pairwise (· < ·)
  first : t.boundaries[0]? = some 0
  last : t.boundaries[s.toList.length]? = some s.utf8ByteSize
  entry : ∀ i, i ≤ s.toList.length →
    t.boundaries[i]? = some (String.ofList (s.toList.take i)).utf8ByteSize

/-- Reads give the characters of `s` and nothing else. The entry past the last character is in the
table, and yet there is nothing to read. -/
structure Spells (t : Text) (s : String) : Prop where
  length : t.length = s.toList.length
  elementAt : ∀ i, Subject.elementAt t i = s.toList[i]?
  beyond : ∀ i, t.length ≤ i → Subject.elementAt t i = none

/-- The excerpt holds the characters of the span. Both ends are looked up in the table, and the
offsets found are in order, within the buffer and between characters. -/
structure Encloses (t : Text) (span : Span) (e : Excerpt) : Prop where
  indexed : span.start < t.boundaries.size ∧ span.stop < t.boundaries.size
  buffer : e.buffer = t.buffer
  range : t.boundaries[span.start]? = some e.range.1 ∧ t.boundaries[span.stop]? = some e.range.2
  start_le_stop : e.start ≤ e.stop
  stop_le : e.stop ≤ e.buffer.utf8ByteSize
  isValid : String.Pos.Raw.IsValid e.buffer ⟨e.start⟩ ∧ String.Pos.Raw.IsValid e.buffer ⟨e.stop⟩
  text : e.text = String.ofList ((t.chars.take span.stop).drop span.start)
  byteLength :
    e.byteLength = (String.ofList ((t.chars.take span.stop).drop span.start)).utf8ByteSize
  isEmpty_iff : e.isEmpty = true ↔ span.start = span.stop
  isEmpty_iff_text : e.isEmpty = true ↔ e.text = ""

theorem tabulates (t : Text) : t.Tabulates t.buffer := by
  have hentry : ∀ i, i ≤ t.buffer.toList.length →
      t.boundaries[i]? = some (String.ofList (t.buffer.toList.take i)).utf8ByteSize := by
    intro i hi
    rw [String.utf8ByteSize_ofList]
    exact getElem?_boundaries (by rwa [length_eq])
  refine ⟨t.size_boundaries, ?_, hentry 0 (Nat.zero_le _), ?_, hentry⟩
  · rw [t.boundaries_eq]
    exact ascending_offsetsFrom 0 _
  · rw [hentry _ (Nat.le_refl _), List.take_length, String.ofList_toList]

theorem spells (t : Text) : t.Spells t.buffer where
  length := t.length_eq
  elementAt := t.charAt_eq
  beyond i hi := by
    refine (t.charAt_eq i).trans (List.getElem?_eq_none ?_)
    rwa [length_chars]

/-- The buffer can be parted where a prefix ends. -/
theorem isValid_offset (t : Text) (i : Nat) :
    String.Pos.Raw.IsValid t.buffer ⟨String.utf8Len (t.chars.take i)⟩ := by
  refine String.Pos.Raw.isValid_iff_exists_append.2
    ⟨String.ofList (t.chars.take i), String.ofList (t.chars.drop i), ?_, ?_⟩
  · rw [← String.ofList_append, List.take_append_drop, chars, String.ofList_toList]
  · rw [String.rawEndPos_ofList]

theorem utf8Len_take_le_size (t : Text) (i : Nat) :
    String.utf8Len (t.chars.take i) ≤ t.buffer.utf8ByteSize := by
  rw [← String.utf8Len_toList]
  exact String.utf8Len_le_of_prefix (List.take_prefix i t.chars)

theorem text_extract (t : Text) (span : Span) :
    (t.extract span).text = String.ofList
      ((t.chars.take (span.clamp t.length).stop).drop (span.clamp t.length).start) := by
  rw [← t.toList_text_extract span, String.ofList_toList]

theorem encloses_extract (t : Text) (span : Span) :
    t.Encloses (span.clamp t.length) (t.extract span) := by
  have hle := span.clamp_start_le_stop t.length
  have hstop := span.clamp_stop_le t.length
  have htext := t.text_extract span
  rw [extract_eq] at htext ⊢
  -- Of the clamped span no more counts than that its ends are in order and exist.
  generalize span.clamp t.length = cut at *
  have hsize := t.length_lt_size
  have hstop' : cut.stop ≤ t.chars.length := by rwa [length_chars]
  have hlen : String.utf8Len (t.chars.take cut.start) +
      String.utf8Len ((t.chars.take cut.stop).drop cut.start) =
        String.utf8Len (t.chars.take cut.stop) := utf8Len_take_add hle
  have hempty := utf8Len_take_eq_iff hle hstop'
  refine
    { indexed := ⟨by omega, by omega⟩
      buffer := rfl
      range := ⟨getElem?_boundaries (by omega), getElem?_boundaries hstop⟩
      start_le_stop := Nat.le.intro hlen
      stop_le := t.utf8Len_take_le_size cut.stop
      isValid := ⟨t.isValid_offset cut.start, t.isValid_offset cut.stop⟩
      text := htext
      byteLength := ?_
      isEmpty_iff := ?_
      isEmpty_iff_text := ?_ }
  · rw [String.utf8ByteSize_ofList]
    simp only [Excerpt.byteLength]
    omega
  · simpa [Excerpt.isEmpty] using hempty
  · rw [htext, ← String.toList_eq_nil_iff, String.toList_ofList, List.drop_eq_nil_iff,
      List.length_take, Excerpt.isEmpty, beq_iff_eq, hempty]
    omega

/-- A text is what its string spells, however it came about, and every span that is asked for is cut
out between two entries of the table. -/
theorem faithful_to_buffer (s : String) :
    (∀ t : Text, t.buffer = s → t = ofString s) ∧ (ofString s).Tabulates s ∧
      (ofString s).Spells s ∧
        ∀ span : Span,
          (ofString s).Encloses (span.clamp (ofString s).length) ((ofString s).extract span) :=
  ⟨fun _ h => ext h, tabulates _, spells _, encloses_extract _⟩

/-- Characters of one, two, three and four bytes; the span asked for goes past the end. -/
theorem faithful_to_buffer_mixed_widths :
    let t := ofString "aé€😀"
    let e := t.extract ⟨1, 9⟩
    t.boundaries = #[0, 1, 3, 6, 10] ∧ t.boundaries[4]? = some "aé€😀".utf8ByteSize ∧
      Subject.elementAt t 4 = none ∧ t.Encloses ⟨1, 4⟩ e ∧ e.range = (1, 10) ∧ e.text = "é€😀" := by
  intro t e
  obtain ⟨-, htable, hspells, hcut⟩ := faithful_to_buffer "aé€😀"
  exact ⟨rfl, htable.last, hspells.beyond 4 (by decide), hcut ⟨1, 9⟩, rfl, (hcut ⟨1, 9⟩).text⟩

end Text

end FrameCursor
