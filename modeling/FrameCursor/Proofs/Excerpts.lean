import Mathlib.Data.String.Basic
import FrameCursor.Text

set_option autoImplicit false

namespace FrameCursor

theorem getElem?_offsetsFrom {n i : Nat} {cs : List Char} (h : i ≤ cs.length) :
    (offsetsFrom n cs)[i]? = some (n + String.utf8Len (cs.take i)) := by
  induction cs generalizing n i with
  | nil =>
    obtain rfl : i = 0 := by simpa using h
    rfl
  | cons c cs ih =>
    cases i with
    | zero => rfl
    | succ i =>
      have hi : i ≤ cs.length := by simpa using h
      simp only [offsetsFrom, List.getElem?_cons_succ, ih hi, List.take_succ_cons,
        String.utf8Len_cons, Option.some.injEq]
      omega

theorem utf8Len_take_lt {cs : List Char} {i j : Nat} (hij : i < j) (hj : j ≤ cs.length) :
    String.utf8Len (cs.take i) < String.utf8Len (cs.take j) := by
  have hi : i < cs.length := by omega
  have hs : cs.take (i + 1) = cs.take i ++ [cs[i]] := by rw [List.take_append_getElem hi]
  have hle : String.utf8Len (cs.take (i + 1)) ≤ String.utf8Len (cs.take j) :=
    String.utf8Len_le_of_prefix (List.take_prefix_take_left hij)
  have hpos := Char.utf8Size_pos cs[i]
  simp only [hs, String.utf8Len_append, String.utf8Len_cons, String.utf8Len_nil] at hle
  omega

theorem utf8Len_take_eq_iff {cs : List Char} {i j : Nat} (hij : i ≤ j) (hj : j ≤ cs.length) :
    String.utf8Len (cs.take i) = String.utf8Len (cs.take j) ↔ i = j := by
  constructor
  · intro h
    by_cases hlt : i < j
    · have hlen := utf8Len_take_lt hlt hj
      omega
    · omega
  · rintro rfl
    rfl

theorem take_eq_append_drop {cs : List Char} {i j : Nat} (h : i ≤ j) :
    cs.take j = cs.take i ++ (cs.take j).drop i := by
  have hd := (List.take_append_drop i (cs.take j)).symm
  rwa [List.take_take, Nat.min_eq_left h] at hd

theorem utf8Len_take_add {cs : List Char} {i j : Nat} (h : i ≤ j) :
    String.utf8Len (cs.take i) + String.utf8Len ((cs.take j).drop i) =
      String.utf8Len (cs.take j) := by
  rw [← String.utf8Len_append, ← take_eq_append_drop h]

theorem extract_prefixes (cs : List Char) {i j : Nat} (h : i ≤ j) :
    String.Pos.Raw.extract (String.ofList cs) ⟨String.utf8Len (cs.take i)⟩
      ⟨String.utf8Len (cs.take j)⟩ = String.ofList ((cs.take j).drop i) := by
  have hwhole : cs.take i ++ (cs.take j).drop i ++ cs.drop j = cs := by
    rw [← take_eq_append_drop h, List.take_append_drop]
  have he := String.extract_of_valid (cs.take i) ((cs.take j).drop i) (cs.drop j)
  rwa [hwhole, utf8Len_take_add h] at he

namespace Text

def chars (t : Text) : List Char := t.buffer.toList

theorem length_chars (t : Text) : t.chars.length = t.length := t.length_eq.symm

theorem lt_length_of_getElem? {t : Text} {i : Nat} {ch : Char} (h : t.chars[i]? = some ch) :
    i < t.length := by
  obtain ⟨hlt, -⟩ := List.getElem?_eq_some_iff.1 h
  rwa [length_chars] at hlt

theorem getElem?_boundaries {t : Text} {i : Nat} (h : i ≤ t.length) :
    t.boundaries[i]? = some (String.utf8Len (t.chars.take i)) := by
  rw [← length_chars] at h
  have hget := getElem?_offsetsFrom (n := 0) h
  rw [Nat.zero_add] at hget
  rw [t.boundaries_eq, List.getElem?_toArray]
  exact hget

theorem getElem_boundaries {t : Text} {i : Nat} (h : i ≤ t.length) (hi : i < t.boundaries.size) :
    t.boundaries[i] = String.utf8Len (t.chars.take i) :=
  (Array.getElem?_eq_some_iff.1 (getElem?_boundaries h)).2

theorem charAt_eq (t : Text) (i : Nat) : t.charAt i = t.chars[i]? := by
  by_cases h : i ≤ t.length
  · have hs : String.ofList (t.chars.take i ++ t.chars.drop i) = t.buffer := by
      rw [List.take_append_drop, chars, String.ofList_toList]
    have hg := String.get?_of_valid (t.chars.take i) (t.chars.drop i)
    rw [hs, List.head?_drop] at hg
    simp [charAt, getElem?_boundaries h, hg]
  · have hb : t.boundaries[i]? = none := by
      have hsize := t.length_lt_size
      unfold length at h hsize
      exact Array.getElem?_eq_none (by omega)
    have hc : t.chars[i]? = none := List.getElem?_eq_none (by rw [length_chars]; omega)
    simp [charAt, hb, hc]

theorem extract_eq (t : Text) (span : Span) :
    t.extract span = ⟨t.buffer, String.utf8Len (t.chars.take (span.clamp t.length).start),
      String.utf8Len (t.chars.take (span.clamp t.length).stop)⟩ := by
  have hstop := span.clamp_stop_le t.length
  have hstart := span.clamp_start_le_stop t.length
  simp only [extract]
  rw [getElem_boundaries (by omega), getElem_boundaries hstop]

/-- An excerpt reads as the characters of its span, as far as the text goes. -/
theorem toList_text_extract (t : Text) (span : Span) :
    (t.extract span).text.toList =
      (t.chars.take (span.clamp t.length).stop).drop (span.clamp t.length).start := by
  have hle := span.clamp_start_le_stop t.length
  have he := extract_prefixes t.chars hle
  rw [chars, String.ofList_toList] at he
  rw [extract_eq]
  simp only [Excerpt.text, chars, he, String.toList_ofList]

theorem clamp_eq {t : Text} {i j : Nat} (hij : i ≤ j) (hj : j ≤ t.length) :
    (Span.mk i j).clamp t.length = ⟨i, j⟩ := by
  rw [Span.clamp_of_le hij, Nat.min_eq_left (Nat.le_trans hij hj), Nat.min_eq_left hj]

theorem isEmpty_extract {t : Text} {i j : Nat} (hij : i ≤ j) (hj : j ≤ t.length) :
    (t.extract ⟨i, j⟩).isEmpty = true ↔ i = j := by
  simp only [extract_eq, clamp_eq hij hj, Excerpt.isEmpty, beq_iff_eq]
  exact utf8Len_take_eq_iff hij (by rwa [length_chars])

end Text

end FrameCursor
