import Mathlib.Data.List.Induction
import Mathlib.Data.List.Nodup
import FrameCursor.Config.Document
import FrameCursor.Proofs.PlainLines

set_option autoImplicit false

namespace FrameCursor.Toml

def keysOf (lines : List Line) : List String := (bindings lines).map Prod.fst

theorem keysOf_passed (lines : List Line) {l : Line} (h : l.binding? = none) :
    keysOf (lines ++ [l]) = keysOf lines := by
  simp [keysOf, bindings, h]

theorem keysOf_given (lines : List Line) (key : BareKey) (v : PlainValue) :
    keysOf (lines ++ [.pair key v]) = keysOf lines ++ [key.name] := by
  simp [keysOf, bindings, Line.binding?]

theorem nodup_keysOf_given (lines : List Line) (key : BareKey) (v : PlainValue) :
    (keysOf (lines ++ [.pair key v])).Nodup ↔
      (keysOf lines).Nodup ∧ key.name ∉ keysOf lines := by
  rw [keysOf_given, ← List.concat_eq_append, List.nodup_concat, and_comm]

theorem keysOf_sublist (lines : List Line) (l : Line) :
    (keysOf lines).Sublist (keysOf (lines ++ [l])) := by
  simp [keysOf, bindings]

theorem length_valuesOf (name : String) (lines : List Line) :
    (valuesOf name lines).length = (keysOf lines).count name := by
  rw [valuesOf, List.length_map, ← List.countP_eq_length_filter, keysOf, List.count, List.countP_map]
  exact List.countP_congr fun b _ => by rw [Function.comp_apply, beq_iff_eq, beq_iff_eq, eq_comm]

variable {ν : Type} {plain : PlainValue → ν}

theorem tableOf_passed (lines : List Line) {l : Line} (h : l.binding? = none) :
    tableOf plain (lines ++ [l]) = tableOf plain lines := by
  funext name
  simp [tableOf, valuesOf, bindings, h]

theorem tableOf_given (lines : List Line) (key : BareKey) (v : PlainValue) :
    tableOf plain (lines ++ [.pair key v]) =
      fun name => if name = key.name then some (plain v) else tableOf plain lines name := by
  funext name
  by_cases hname : name = key.name <;> simp [tableOf, valuesOf, bindings, Line.binding?, hname]

theorem tableOf_eq_none_iff (lines : List Line) (name : String) :
    tableOf plain lines name = none ↔ name ∉ keysOf lines := by
  rw [tableOf, Option.map_eq_none_iff, List.getLast?_eq_none_iff, ← List.length_eq_zero_iff,
    length_valuesOf, List.count_eq_zero]

/-- Line after line, the table read so far is that of the keys so far, as long as none comes twice. -/
theorem ReadsLines.read_document {read : String → Except String (String → Option ν)}
    (h : ReadsLines plain read) (lines : List Line) :
    ((keysOf lines).Nodup → read (document lines) = .ok (tableOf plain lines)) ∧
      (¬ (keysOf lines).Nodup → ∃ reason, read (document lines) = .error reason) := by
  -- From the end back, since each rule of the reader is about a line that is added at the end.
  induction lines using List.reverseRecOn with
  | nil => exact ⟨fun _ => h.nothing, fun hnot => absurd .nil hnot⟩
  | append_singleton lines l ih =>
    by_cases hnodup : (keysOf lines).Nodup
    · have hread := ih.1 hnodup
      cases hl : l.binding? with
      | none =>
        rw [keysOf_passed lines hl, tableOf_passed lines hl]
        exact ⟨fun _ => h.passed lines l _ hl hread, fun hnot => absurd hnodup hnot⟩
      | some b =>
        obtain ⟨key, v, rfl⟩ : ∃ key v, l = .pair key v := by
          cases l with
          | pair key v => exact ⟨key, v, rfl⟩
          | _ => cases hl
        rw [nodup_keysOf_given, tableOf_given]
        refine ⟨fun hnew => h.given lines key v _ hread ?_, fun hnot => ?_⟩
        · exact (tableOf_eq_none_iff lines key.name).2 hnew.2
        · refine h.repeated lines key v _ hread fun hnone => hnot ⟨hnodup, ?_⟩
          exact (tableOf_eq_none_iff lines key.name).1 hnone
    · obtain ⟨reason, hread⟩ := ih.2 hnodup
      refine ⟨fun hall => absurd ?_ hnodup, fun _ => h.spoilt lines l reason hread⟩
      exact hall.sublist (keysOf_sublist lines l)

theorem dropMark_of_head {cs : List Char} (h : cs.head? ≠ some '\ufeff') : dropMark cs = cs := by
  unfold dropMark
  split
  · exact absurd rfl h
  · rfl

theorem LineEnd.head_ne_mark {r next : List Char} (h : LineEnd r next) :
    r.head? ≠ some '\ufeff' := by
  cases h <;> simp

theorem Line.head_ne_mark (l : Line) {r next : List Char} (h : LineEnd r next) :
    (l.chars ++ r).head? ≠ some '\ufeff' := by
  cases l with
  | blank spaces hs =>
    cases spaces with
    | nil => exact h.head_ne_mark
    | cons c spaces =>
      have hspace := List.all_eq_true.1 hs c List.mem_cons_self
      intro hmark
      obtain rfl : c = '\ufeff' := Option.some.inj hmark
      cases hspace
  | comment text ht => simp [chars]
  | pair k v =>
    obtain ⟨c, cs, hk, hne⟩ := k.chars_eq_cons
    simp [chars, hk, hne '\ufeff' (by decide)]

theorem dropMark_lineChars (lines : List Line) : dropMark (lineChars lines) = lineChars lines := by
  cases lines with
  | nil => rfl
  | cons l lines =>
    obtain ⟨r, hchars, hend⟩ := lineChars_cons l lines
    exact dropMark_of_head (by rw [hchars]; exact l.head_ne_mark hend)

theorem sections_pairs (pairs : List (Key × Value)) :
    sections (pairs.map fun p => .pair p.1 p.2) = (pairs, []) := by
  induction pairs with
  | nil => rfl
  | cons p pairs ih => rw [List.map_cons, sections, ih]

def entriesOf (lines : List Line) : Entries := (bindings lines).map fun b => (b.1, b.2.value)

theorem statements_eq (lines : List Line) :
    lines.filterMap Line.statement? =
      ((entriesOf lines).map fun e => (Key.mk [] e.1, e.2)).map fun p => Statement.pair p.1 p.2 := by
  rw [entriesOf, bindings, List.map_map, List.map_map, List.map_filterMap]
  rfl

theorem read?_document (lines : List Line) :
    read? (document lines) =
      Entries.insertAll? .header [] ((entriesOf lines).map fun e => (⟨[], e.1⟩, e.2)) := by
  rw [read?, toList_document, dropMark_lineChars]
  simp only [readStatements_lines lines (length_le_lineChars lines), Option.bind_eq_bind,
    Option.bind_some, statements_eq, assemble?, sections_pairs, List.foldlM_nil, Option.pure_def,
    Option.bind_fun_some]

namespace Entries

theorem get?_cons_eq_none_iff {entries : Entries} {name other : String} {v : Value} :
    get? ((name, v) :: entries) other = none ↔ other ≠ name ∧ entries.get? other = none := by
  by_cases h : other = name
  · simp [get?, h]
  · simp [get?, List.lookup_cons, beq_false_of_ne h, h]

theorem insertAll?_cons (entries : Entries) (name : String) (v : Value) (pairs : List (Key × Value)) :
    insertAll? .header entries ((⟨[], name⟩, v) :: pairs) =
      (entries.add? name v).bind fun es => insertAll? .header es pairs := rfl

theorem insertAll?_eq_some_iff {entries added result : Entries} :
    insertAll? .header entries (added.map fun e => (⟨[], e.1⟩, e.2)) = some result ↔
      (added.map Prod.fst).Nodup ∧ (∀ e ∈ added, entries.get? e.1 = none) ∧
        result = added.reverse ++ entries := by
  induction added generalizing entries with
  | nil => simp [insertAll?, eq_comm]
  | cons e added ih =>
    obtain ⟨name, v⟩ := e
    rw [List.map_cons, insertAll?_cons]
    cases hget : entries.get? name with
    | some old => simp [add?, hget]
    | none =>
      have hadd : entries.add? name v = some ((name, v) :: entries) := by simp [add?, hget]
      rw [hadd, Option.bind_some, ih]
      simp only [get?_cons_eq_none_iff, List.map_cons, List.nodup_cons, List.mem_map,
        List.reverse_cons, List.append_assoc, List.singleton_append, List.forall_mem_cons, hget]
      constructor
      · rintro ⟨hnodup, hnew, rfl⟩
        refine ⟨⟨?_, hnodup⟩, ⟨trivial, fun e he => (hnew e he).2⟩, rfl⟩
        rintro ⟨e, he, rfl⟩
        exact (hnew e he).1 rfl
      · rintro ⟨⟨hfresh, hnodup⟩, ⟨-, hnew⟩, rfl⟩
        exact ⟨hnodup, fun e he => ⟨fun heq => hfresh ⟨e, he, heq⟩, hnew e he⟩, rfl⟩

theorem get?_eq_head? (entries : Entries) (name : String) :
    entries.get? name = ((entries.filter fun e => name == e.1).map Prod.snd).head? := by
  induction entries with
  | nil => rfl
  | cons e entries ih =>
    obtain ⟨other, v⟩ := e
    rw [get?, List.lookup_cons, List.filter_cons]
    cases hname : name == other with
    | true => rfl
    | false => exact ih

end Entries

theorem read?_document_eq_some_iff (lines : List Line) (entries : Entries) :
    read? (document lines) = some entries ↔
      ((bindings lines).map Prod.fst).Nodup ∧ entries = (entriesOf lines).reverse := by
  have hnames : (entriesOf lines).map Prod.fst = (bindings lines).map Prod.fst := by
    simp [entriesOf, Function.comp_def]
  rw [read?_document, Entries.insertAll?_eq_some_iff, hnames, List.append_nil]
  simp [Entries.get?]

theorem tableOf_value (lines : List Line) :
    Entries.get? (entriesOf lines).reverse = tableOf PlainValue.value lines := by
  funext name
  rw [Entries.get?_eq_head?, List.filter_reverse, List.map_reverse, List.head?_reverse, entriesOf,
    List.filter_map, tableOf, valuesOf, List.map_map, ← List.getLast?_map, List.map_map]
  rfl

theorem read_document_eq_ok_iff (lines : List Line) (table : String → Option Value) :
    read (document lines) = .ok table ↔
      (keysOf lines).Nodup ∧ table = tableOf PlainValue.value lines := by
  have hread := read?_document_eq_some_iff lines
  cases hsome : read? (document lines) with
  | none =>
    refine iff_of_false (by simp [read, hsome]) fun h => ?_
    simp [hsome] at hread
    exact hread h.1
  | some entries =>
    obtain ⟨hnodup, rfl⟩ := (hread entries).1 hsome
    simp [read, hsome, tableOf_value, keysOf, hnodup, eq_comm]

theorem read_document_fails_iff (lines : List Line) :
    (∃ reason, read (document lines) = .error reason) ↔ ¬ (keysOf lines).Nodup := by
  have hok := read_document_eq_ok_iff lines
  cases hread : read (document lines) with
  | error reason =>
    refine iff_of_true ⟨reason, rfl⟩ fun hnodup => ?_
    have hsome := (hok _).2 ⟨hnodup, rfl⟩
    simp [hread] at hsome
  | ok table => exact iff_of_false (by simp) (not_not_intro ((hok table).1 hread).1)

theorem readsLines_read : ReadsLines PlainValue.value read where
  nothing := rfl
  passed lines l table hl h := by
    rw [read_document_eq_ok_iff] at h ⊢
    rwa [keysOf_passed lines hl, tableOf_passed lines hl]
  given lines key v table h hnew := by
    rw [read_document_eq_ok_iff] at h ⊢
    obtain ⟨hnodup, rfl⟩ := h
    rw [nodup_keysOf_given, tableOf_given]
    exact ⟨⟨hnodup, (tableOf_eq_none_iff lines key.name).1 hnew⟩, rfl⟩
  repeated lines key v table h hold := by
    obtain ⟨-, rfl⟩ := (read_document_eq_ok_iff lines table).1 h
    rw [read_document_fails_iff, nodup_keysOf_given]
    exact fun hnew => hold ((tableOf_eq_none_iff lines key.name).2 hnew.2)
  spoilt lines l reason h := by
    have hrepeats := (read_document_fails_iff lines).1 ⟨reason, h⟩
    rw [read_document_fails_iff]
    exact fun hnodup => hrepeats (hnodup.sublist (keysOf_sublist lines l))

end FrameCursor.Toml
