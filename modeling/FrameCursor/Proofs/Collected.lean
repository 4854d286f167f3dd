import Mathlib.Data.List.Induction
import FrameCursor.Subject.Row
import FrameCursor.Subject.Sparse
import FrameCursor.Proofs.Excerpts

set_option autoImplicit false

namespace FrameCursor

variable {α : Type}

theorem map_getElem?_indices (xs : List α) (span : Span) :
    (span.clamp xs.length).indices.map (fun i => xs[i]?) =
      ((Row.ofList xs).extract span).map some := by
  have hstart := span.clamp_start_le_stop xs.length
  have hstop := span.clamp_stop_le xs.length
  apply List.ext_getElem?
  intro i
  simp only [Row.extract_eq, Row.ofList, Span.indices, List.getElem?_map, List.getElem?_take,
    List.getElem?_drop]
  by_cases h : i < (span.clamp xs.length).stop - (span.clamp xs.length).start
  · rw [List.getElem?_range' h, if_pos h, Option.map_some, Nat.one_mul,
      List.getElem?_eq_getElem (by omega), Option.map_some]
  · rw [List.getElem?_eq_none (by rw [List.length_range']; omega), if_neg h]
    rfl

namespace Sparse

theorem lookup_numberFrom (k i : Nat) (as : List α) :
    (numberFrom k as).lookup i = if k ≤ i then as[i - k]? else none := by
  induction as generalizing k with
  | nil => simp [numberFrom]
  | cons a as ih =>
    rw [numberFrom, List.lookup_cons, ih]
    rcases Nat.lt_trichotomy i k with hlt | rfl | hgt
    · rw [if_neg (by omega), if_neg (by omega), beq_false_of_ne (by omega)]
    · rw [BEq.rfl, if_pos (Nat.le_refl i), Nat.sub_self, List.getElem?_cons_zero]
    · rw [if_pos (by omega), if_pos (by omega), beq_false_of_ne (by omega),
        ← List.getElem?_cons_succ, show i - (k + 1) + 1 = i - k by omega]

theorem putEntry_eq_append {k : Nat} {a : α} {entries : List (Nat × α)}
    (h : ∀ e ∈ entries, e.1 < k) : putEntry k a entries = entries ++ [(k, a)] := by
  induction entries with
  | nil => rfl
  | cons e rest ih =>
    obtain ⟨i, b⟩ := e
    obtain ⟨hi, hrest⟩ := List.forall_mem_cons.1 h
    rw [putEntry, if_neg (Nat.lt_asymm hi), if_neg (Nat.ne_of_gt hi), ih hrest]
    rfl

theorem entries_ofEntries {entries : List (Nat × α)} (h : Ascending entries) :
    (ofEntries entries).entries = entries := by
  -- From the last entry back: when it is stored, its key is beyond all that are there.
  induction entries using List.reverseRecOn with
  | nil => rfl
  | append_singleton entries e ih =>
    obtain ⟨hbefore, -, hlt⟩ := List.pairwise_append.1 h
    have hput := putEntry_eq_append (a := e.2) fun e' he' => hlt e' he' e (List.mem_singleton_self e)
    rw [← ih hbefore] at hput
    rw [ofEntries, List.foldl_append]
    exact hput.trans (by rw [ih hbefore])

theorem length_numberFrom (k : Nat) (as : List α) : (numberFrom k as).length = as.length := by
  induction as generalizing k with
  | nil => rfl
  | cons a as ih => rw [numberFrom, List.length_cons, ih, List.length_cons]

theorem entries_ofItems (as : List α) : (ofItems as).entries = numberFrom 0 as :=
  entries_ofEntries (ascending_numberFrom 0 as)

theorem declaredLength_ofItems (as : List α) : (ofItems as).declaredLength = some as.length := by
  have hcount : (ofEntries (numberFrom 0 as)).entryCount = as.length := by
    rw [entryCount, entries_ofEntries (ascending_numberFrom 0 as), length_numberFrom]
  exact congrArg some hcount

theorem get?_ofItems (as : List α) (i : Nat) : (ofItems as).get? i = as[i]? := by
  rw [get?, entries_ofItems, lookup_numberFrom, if_pos (Nat.zero_le i), Nat.sub_zero]

theorem mem_numberFrom_lt {k : Nat} {as : List α} {x : Nat × α} (h : x ∈ numberFrom k as) :
    x.1 < k + as.length := by
  induction as generalizing k with
  | nil => simp [numberFrom] at h
  | cons a as ih =>
    rcases List.mem_cons.1 h with rfl | h
    · simp
    · have hlt := ih h
      simp only [List.length_cons]
      omega

theorem pastLast_le {s : Sparse α} {n : Nat} (h : ∀ e ∈ s.entries, e.1 < n) : s.pastLast ≤ n := by
  cases hl : s.entries.getLast? with
  | none => simp [pastLast, hl]
  | some e =>
    simp only [pastLast, hl]
    exact h e (List.mem_of_getLast? hl)

theorem extent_ofItems (as : List α) : (ofItems as).extent = as.length := by
  have hlast : (ofItems as).pastLast ≤ as.length := pastLast_le fun e he => by
    rw [entries_ofItems] at he
    simpa using mem_numberFrom_lt he
  rw [extent, declaredLength_ofItems]
  exact Nat.max_eq_left hlast

theorem extract_ofItems (as : List α) (span : Span) :
    Subject.extract (ofItems as) span = ((Row.ofList as).extract span).map some := by
  have hget : (ofItems as).get? = fun i => as[i]? := funext (get?_ofItems as)
  change (span.clamp (ofItems as).extent).indices.map (ofItems as).get? = _
  rw [extent_ofItems, hget, map_getElem?_indices]

end Sparse
namespace Text

@[simp] theorem chars_ofChars (cs : List Char) : (ofChars cs).chars = cs := String.toList_ofList

theorem length_ofChars (cs : List Char) : (ofChars cs).length = cs.length := by
  rw [← length_chars, chars_ofChars]

theorem charAt_ofChars (cs : List Char) (i : Nat) : (ofChars cs).charAt i = cs[i]? := by
  rw [charAt_eq, chars_ofChars]

theorem toList_extract (t : Text) (span : Span) :
    (t.extract span).text.toList = (Row.ofList t.chars).extract span := by
  rw [toList_text_extract, List.drop_take, ← t.length_chars, Row.extract_eq]
  rfl

theorem toList_extract_ofChars (cs : List Char) (span : Span) :
    ((ofChars cs).extract span).text.toList = (Row.ofList cs).extract span := by
  rw [toList_extract, chars_ofChars]

end Text

end FrameCursor
