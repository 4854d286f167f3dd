import FrameCursor.Proofs.PlainTables

set_option autoImplicit false

namespace FrameCursor

namespace Toml

theorem OthersOnce.nodup_iff {name : String} {lines : List Line} (h : OthersOnce name lines) :
    (keysOf lines).Nodup ↔ (valuesOf name lines).length ≤ 1 := by
  rw [length_valuesOf, List.nodup_iff_count]
  refine ⟨fun hall => hall name, fun hname other => ?_⟩
  by_cases he : other = name
  · rwa [he]
  · have hother := List.nodup_iff_count.1 h other
    rwa [List.count_filter (by simpa using he)] at hother

theorem OthersOnce.perm {name : String} {lines lines' : List Line} (h : OthersOnce name lines)
    (hperm : lines.Perm lines') : OthersOnce name lines' :=
  (((hperm.filterMap _).map _).filter _).nodup_iff.1 h

theorem valuesOf_perm (name : String) {lines lines' : List Line} (hperm : lines.Perm lines') :
    (valuesOf name lines).Perm (valuesOf name lines') :=
  ((hperm.filterMap _).filter _).map _

end Toml

namespace Config

open Toml

variable {ν : Type} {plain : PlainValue → ν} {read : String → Except String (String → Option ν)}
  {visit : (String → Option ν) → Except String Config}

/-- What is known of how a configuration is taken from a table: the default stands in for a missing
key, a value of another type than a truth value is an error, and no other key counts. -/
structure Visits (plain : PlainValue → ν) (visit : (String → Option ν) → Except String Config) :
    Prop where
  missing : ∀ table, table "framed" = none → visit table = .ok .default
  truth : ∀ table b, table "framed" = some (plain (.truth b)) → visit table = .ok ⟨b⟩
  count : ∀ table n fits, table "framed" = some (plain (.count n fits)) →
    ∃ reason, visit table = .error reason

def ofPlain? : List PlainValue → Option Config
  | [] => some .default
  | [.truth b] => some ⟨b⟩
  | _ => none

theorem ofPlain?_of_many {values : List PlainValue} (h : ¬ values.length ≤ 1) :
    ofPlain? values = none := by
  unfold ofPlain?
  split
  · simp at h
  · simp at h
  · rfl

theorem decoder_document (hread : ReadsLines plain read) (hvisit : Visits plain visit)
    {lines : List Line} (h : OthersOnce "framed" lines) :
    (∀ c, ofPlain? (valuesOf "framed" lines) = some c →
        decoder read visit (document lines) = .ok c) ∧
      (ofPlain? (valuesOf "framed" lines) = none →
        ∃ reason, decoder read visit (document lines) = .error reason) := by
  obtain ⟨hok, hfailed⟩ := hread.read_document lines
  by_cases hle : (valuesOf "framed" lines).length ≤ 1
  · have hdecode : decoder read visit (document lines) = visit (tableOf plain lines) := by
      rw [decoder, hok (h.nodup_iff.2 hle)]
      rfl
    rw [hdecode]
    obtain hnone | ⟨v, hone⟩ :
        valuesOf "framed" lines = [] ∨ ∃ v, valuesOf "framed" lines = [v] := by
      simpa [Nat.le_one_iff_eq_zero_or_eq_one, List.length_eq_one_iff] using hle
    · have hmissing := hvisit.missing (tableOf plain lines) (by simp [tableOf, hnone])
      simp [hnone, ofPlain?, hmissing]
    · cases v with
      | truth b =>
        have htruth := hvisit.truth (tableOf plain lines) b (by simp [tableOf, hone])
        simp [hone, ofPlain?, htruth]
      | count n fits =>
        have hcount := hvisit.count (tableOf plain lines) n fits (by simp [tableOf, hone])
        simpa [hone, ofPlain?] using hcount
  · -- The reader refuses the document before anything is looked for in it.
    obtain ⟨reason, hreason⟩ := hfailed fun hnodup => hle (h.nodup_iff.1 hnodup)
    rw [ofPlain?_of_many hle, decoder, hreason]
    refine ⟨fun c hc => ?_, fun _ => ⟨reason, rfl⟩⟩
    simp at hc

theorem kind_parse_document (hread : ReadsLines plain read) (hvisit : Visits plain visit)
    {lines : List Line} (h : OthersOnce "framed" lines) :
    (parse (decoder read visit) (document lines)).mapError CursorError.kind =
      (ofPlain? (valuesOf "framed" lines)).elim (.error .config) .ok := by
  obtain ⟨hok, hfailed⟩ := decoder_document hread hvisit h
  cases hvalues : ofPlain? (valuesOf "framed" lines) with
  | some c =>
    rw [parse, hok c hvalues]
    rfl
  | none =>
    obtain ⟨reason, hreason⟩ := hfailed hvalues
    rw [parse, hreason]
    rfl

theorem ofPlain?_perm {values values' : List PlainValue} (h : values.Perm values') :
    ofPlain? values = ofPlain? values' := by
  match values, h with
  | [], h => rw [h.nil_eq]
  | [v], h => rw [List.singleton_perm.1 h]
  | v :: w :: rest, h =>
    have hlength : ¬ values'.length ≤ 1 := by simp [← h.length_eq]
    rw [ofPlain?_of_many (by simp), ofPlain?_of_many hlength]

theorem ofPlain?_of_count {values : List PlainValue} {n : Nat} {fits : n < Nat.pow 2 63}
    (h : .count n fits ∈ values) : ofPlain? values = none := by
  match values, h with
  | [v], h =>
    obtain rfl : .count n fits = v := List.mem_singleton.1 h
    rfl
  | v :: w :: rest, _ => exact ofPlain?_of_many (by simp)

theorem visits_ofTable : Visits PlainValue.value ofTable where
  missing table h := by simp [ofTable, h]
  truth table b h := by simp [ofTable, h, PlainValue.value]
  count table n fits h := ⟨"", by simp [ofTable, h, PlainValue.value]⟩

end Config

end FrameCursor
