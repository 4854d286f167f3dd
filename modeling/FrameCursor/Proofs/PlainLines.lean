import Mathlib.Data.List.TakeWhile
import FrameCursor.Toml.Document
import FrameCursor.Toml.Plain

set_option autoImplicit false

namespace FrameCursor.Toml

theorem takeWhile_run {p : Char → Bool} {w r : List Char} (hw : ∀ c ∈ w, p c = true)
    (hr : ∀ c, r.head? = some c → p c = false) : (w ++ r).takeWhile p = w := by
  rw [List.takeWhile_append_of_pos hw]
  cases r with
  | nil => simp
  | cons c r => simp [hr c rfl]

theorem dropWhile_run {p : Char → Bool} {w r : List Char} (hw : ∀ c ∈ w, p c = true)
    (hr : ∀ c, r.head? = some c → p c = false) : (w ++ r).dropWhile p = r := by
  rw [List.dropWhile_append_of_pos hw]
  cases r with
  | nil => rfl
  | cons c r => simp [hr c rfl]

inductive LineEnd : List Char → List Char → Prop where
  | last : LineEnd [] []
  | more (next : List Char) : LineEnd ('\n' :: next) next

theorem LineEnd.endLine?_eq {r next : List Char} (h : LineEnd r next) : endLine? r = some next := by
  cases h <;> rfl

theorem LineEnd.stops {r next : List Char} (h : LineEnd r next) {p : Char → Bool}
    (hp : p '\n' = false) (c : Char) (hc : r.head? = some c) : p c = false := by
  cases h with
  | last => cases hc
  | more next =>
    obtain rfl : '\n' = c := Option.some.inj hc
    exact hp

theorem endLine?_blank {spaces r next : List Char}
    (hs : spaces.all (fun c => c == ' ' || c == '\t') = true) (h : LineEnd r next) :
    endLine? (spaces ++ r) = some next := by
  have hskip : skipSpaces (spaces ++ r) = r := dropWhile_run (List.all_eq_true.1 hs) (h.stops rfl)
  rw [endLine?, hskip]
  cases h <;> rfl

theorem isPrinting_of_not_control {c : Char} (h : (c == '\t' || !isControl c) = true) :
    isPrinting c = true := by
  rcases Bool.or_eq_true_iff.1 h with htab | hprinting
  · rw [beq_iff_eq.1 htab]
    rfl
  · simp only [isControl, Bool.not_eq_true', Bool.or_eq_false_iff, decide_eq_false_iff_not,
      Nat.not_lt] at hprinting
    simp [isPrinting, hprinting.1, hprinting.2]

theorem endLine?_comment {text r next : List Char}
    (ht : text.all (fun c => c == '\t' || !isControl c) = true) (h : LineEnd r next) :
    endLine? ('#' :: text ++ r) = some next := by
  have hskip : skipSpaces ('#' :: text ++ r) = '#' :: (text ++ r) := rfl
  have hprinting : ∀ c ∈ text, isPrinting c = true := fun c hc =>
    isPrinting_of_not_control (List.all_eq_true.1 ht c hc)
  have hcomment : skipComment ('#' :: (text ++ r)) = r := dropWhile_run hprinting (h.stops rfl)
  rw [endLine?, hskip, hcomment]
  cases h <;> rfl

theorem BareKey.isBare_of_mem (k : BareKey) {c : Char} (hc : c ∈ k.chars) : isBare c = true :=
  List.all_eq_true.1 k.bare c hc

theorem BareKey.chars_eq_cons (k : BareKey) :
    ∃ c cs, k.chars = c :: cs ∧ ∀ d, isBare d = false → c ≠ d := by
  obtain ⟨c, cs, hk⟩ := List.exists_cons_of_ne_nil k.nonempty
  refine ⟨c, cs, hk, fun d hd he => ?_⟩
  have hc := k.isBare_of_mem (c := c) (by simp [hk])
  simp [he, hd] at hc

theorem skipSpaces_key (k : BareKey) (r : List Char) :
    skipSpaces (k.chars ++ r) = k.chars ++ r := by
  obtain ⟨c, cs, hk, hne⟩ := k.chars_eq_cons
  simp [hk, skipSpaces, isSpace, hne ' ' rfl, hne '\t' rfl]

theorem endLine?_key (k : BareKey) (r : List Char) : endLine? (k.chars ++ r) = none := by
  rw [endLine?, skipSpaces_key]
  obtain ⟨c, cs, hk, hne⟩ := k.chars_eq_cons
  simp [hk, skipComment, newline?, hne '#' rfl, hne '\n' rfl, hne '\r' rfl]

theorem readName_key (k : BareKey) {r : List Char} (hr : ∀ c, r.head? = some c → isBare c = false) :
    readName (k.chars ++ r) = some (k.name, r) := by
  have htake : (k.chars ++ r).takeWhile isBare = k.chars := takeWhile_run (fun _ => k.isBare_of_mem) hr
  have hdrop : (k.chars ++ r).dropWhile isBare = r := dropWhile_run (fun _ => k.isBare_of_mem) hr
  obtain ⟨c, cs, hk, hne⟩ := k.chars_eq_cons
  rw [hk, List.cons_append] at htake hdrop
  simp [hk, readName, hne '"' rfl, hne '\'' rfl, htake, hdrop, BareKey.name]

theorem readKey_key (k : BareKey) (r : List Char) :
    readKey (k.chars ++ ' ' :: '=' :: r) = some (⟨[], k.name⟩, '=' :: r) := by
  have hname : readName (k.chars ++ ' ' :: '=' :: r) = some (k.name, ' ' :: '=' :: r) :=
    readName_key k fun c hc => by
      obtain rfl : ' ' = c := Option.some.inj hc
      rfl
  have hskip : skipSpaces (' ' :: '=' :: r) = '=' :: r := rfl
  rw [readKey, skipSpaces_key, nestingLimit, readNames, hname]
  simp [hskip]

theorem isDigit_of_mem_toDigits {n : Nat} {c : Char} (h : c ∈ Nat.toDigits 10 n) :
    c.isDigit = true :=
  Nat.isDigit_of_mem_toDigits (by decide) (by decide) h

/-- Decimal digits of which the first is zero stand for zero alone. -/
theorem toDigits_ne_leading_zero (n : Nat) (c : Char) (cs : List Char) :
    Nat.toDigits 10 n ≠ '0' :: c :: cs := by
  induction n using Nat.strongRecOn generalizing c cs with
  | _ n ih =>
    intro hd
    rw [Nat.toDigits_eq_if (by decide)] at hd
    split at hd
    · simp at hd
    · rename_i hlt
      cases hds : Nat.toDigits 10 (n / 10) with
      | nil => exact Nat.toDigits_ne_nil hds
      | cons d ds =>
        rw [hds, List.cons_append, List.cons.injEq] at hd
        obtain ⟨rfl, -⟩ := hd
        cases ds with
        | nil =>
          have hzero : n / 10 = 0 := by
            rw [← Nat.ofDigitChars_ten_toDigits (n := n / 10), hds]
            rfl
          omega
        | cons d ds => exact ih (n / 10) (by omega) d ds hds

theorem ungroup_digits {ds : List Char} (hne : ds ≠ []) (hd : ∀ c ∈ ds, c.isDigit = true) :
    ungroup Char.isDigit ds = some ds := by
  induction ds with
  | nil => exact absurd rfl hne
  | cons c ds ih =>
    obtain ⟨hc, hds⟩ := List.forall_mem_cons.1 hd
    cases ds with
    | nil => simp [ungroup, hc]
    | cons d ds =>
      have hgroup : d ≠ '_' := fun he => by
        have hdigit := hds d List.mem_cons_self
        simp [he] at hdigit
      have hrest := ih (List.cons_ne_nil d ds) hds
      simp [ungroup, hgroup, hc, hrest]

theorem wholeDigits?_toDigits (n : Nat) :
    wholeDigits? (Nat.toDigits 10 n) = some (Nat.toDigits 10 n) := by
  have hdigits : ungroup Char.isDigit (Nat.toDigits 10 n) = some (Nat.toDigits 10 n) :=
    ungroup_digits Nat.toDigits_ne_nil fun _ => isDigit_of_mem_toDigits
  rw [wholeDigits?, hdigits]
  simp only [Option.bind_eq_bind, Option.bind_some]
  split
  · rename_i c cs hd
    exact absurd hd (toDigits_ne_leading_zero n c cs)
  · rfl

theorem inRange_of_fits {n : Nat} (h : n < Nat.pow 2 63) : inRange (n : Int) = true := by
  have hlow : -Int.pow 2 127 ≤ (n : Int) := Int.le_trans (by decide) (Int.natCast_nonneg n)
  have hhigh : (n : Int) < Int.pow 2 128 := Int.lt_trans (Int.ofNat_lt.2 h) (by decide)
  simp only [inRange, hlow, hhigh, decide_true, Bool.and_self]

theorem ne_of_mem_toDigits {n : Nat} {c d : Char} (h : c ∈ Nat.toDigits 10 n)
    (hd : d.isDigit = false) : c ≠ d := by
  rintro rfl
  simp [isDigit_of_mem_toDigits h] at hd

theorem unsign_toDigits (n : Nat) : unsign (Nat.toDigits 10 n) = (false, Nat.toDigits 10 n) := by
  obtain ⟨c, cs, hd⟩ := List.exists_cons_of_ne_nil (Nat.toDigits_ne_nil (b := 10) (n := n))
  have hmem : c ∈ Nat.toDigits 10 n := by simp [hd]
  simp [hd, unsign, ne_of_mem_toDigits hmem (d := '+') rfl, ne_of_mem_toDigits hmem (d := '-') rfl]

theorem integer?_toDigits {n : Nat} (h : n < Nat.pow 2 63) :
    integer? (Nat.toDigits 10 n) = some (n : Int) := by
  unfold integer?
  split
  · rename_i c cs hd
    exact absurd hd (toDigits_ne_leading_zero n c cs)
  · rw [unsign_toDigits]
    dsimp only
    rw [wholeDigits?_toDigits, Option.bind_eq_bind, Option.bind_some, Nat.ofDigitChars_ten_toDigits,
      if_neg Bool.false_ne_true]
    exact Option.filter_some_pos (inRange_of_fits h)

def PlainValue.value : PlainValue → Value
  | .truth b => .bool b
  | .count n _ => .integer n

theorem word?_chars (v : PlainValue) : word? v.chars = some v.value := by
  cases v with
  | truth b => cases b <;> rfl
  | count n fits =>
    have hword : ∀ c cs, c.isDigit = false → Nat.toDigits 10 n ≠ c :: cs := fun c cs hc he =>
      ne_of_mem_toDigits (he ▸ List.mem_cons_self) hc rfl
    simp [PlainValue.chars, PlainValue.value, word?, hword 't' _ rfl, hword 'f' _ rfl,
      integer?_toDigits fits]

theorem PlainValue.isAlphanum_of_mem (v : PlainValue) {c : Char} (hc : c ∈ v.chars) :
    c.isAlphanum = true := by
  cases v with
  | truth b =>
    have hall : (PlainValue.truth b).chars.all Char.isAlphanum = true := by cases b <;> rfl
    exact List.all_eq_true.1 hall c hc
  | count n fits => simp [Char.isAlphanum, isDigit_of_mem_toDigits hc]

theorem PlainValue.chars_eq_cons (v : PlainValue) :
    ∃ c cs, v.chars = c :: cs ∧ ∀ d, d.isAlphanum = false → c ≠ d := by
  have hne : v.chars ≠ [] := by
    cases v with
    | truth b => cases b <;> simp [chars]
    | count n fits => exact Nat.toDigits_ne_nil
  obtain ⟨c, cs, hv⟩ := List.exists_cons_of_ne_nil hne
  refine ⟨c, cs, hv, fun d hd he => ?_⟩
  have hc := v.isAlphanum_of_mem (c := c) (by simp [hv])
  simp [he, hd] at hc

theorem readWord_chars (v : PlainValue) {r next : List Char} (h : LineEnd r next) :
    readWord (v.chars ++ r) = some (v.value, r) := by
  have hword : ∀ c ∈ v.chars, isWordChar c = true := fun c hc => by
    simp [isWordChar, v.isAlphanum_of_mem hc]
  have htake := takeWhile_run hword (h.stops rfl)
  have hdrop := dropWhile_run hword (h.stops rfl)
  rw [readWord, htake, hdrop]
  cases h <;> simp [word?_chars]

theorem readScalar_chars (v : PlainValue) {r next : List Char} (h : LineEnd r next) :
    readScalar (v.chars ++ r) = some (v.value, r) := by
  have hword := readWord_chars v h
  obtain ⟨c, cs, hv, hne⟩ := v.chars_eq_cons
  rw [hv, List.cons_append] at hword ⊢
  simp [readScalar, hne '"' rfl, hne '\'' rfl, hword]

theorem readValue_chars (v : PlainValue) (depth : Nat) {r next : List Char} (h : LineEnd r next) :
    readValue depth (v.chars ++ r) = some (v.value, r) := by
  have hscalar := readScalar_chars v h
  obtain ⟨c, cs, hv, hne⟩ := v.chars_eq_cons
  rw [hv, List.cons_append] at hscalar ⊢
  cases depth with
  | zero => exact hscalar
  | succ depth => simp [readValue, hne '[' rfl, hne '\x7b' rfl, hscalar]

theorem skipSpaces_value (v : PlainValue) (r : List Char) :
    skipSpaces (' ' :: v.chars ++ r) = v.chars ++ r := by
  obtain ⟨c, cs, hv, hne⟩ := v.chars_eq_cons
  simp [hv, skipSpaces, isSpace, hne ' ' rfl, hne '\t' rfl]

theorem readPair_pair (k : BareKey) (v : PlainValue) (depth : Nat) {r next : List Char}
    (h : LineEnd r next) :
    readPair skipSpaces (readValue depth) ((Line.pair k v).chars ++ r) =
      some ((⟨[], k.name⟩, v.value), r) := by
  have hline : (Line.pair k v).chars ++ r = k.chars ++ ' ' :: '=' :: (' ' :: v.chars ++ r) := by
    simp [Line.chars]
  have hequals : skipSpaces ('=' :: (' ' :: v.chars ++ r)) = '=' :: (' ' :: v.chars ++ r) := rfl
  rw [hline, readPair, readKey_key]
  simp only [Option.bind_eq_bind, Option.bind_some, hequals, expect, if_true, skipSpaces_value,
    readValue_chars v depth h]

theorem readStatement_pair (k : BareKey) (v : PlainValue) {r next : List Char}
    (h : LineEnd r next) :
    readStatement ((Line.pair k v).chars ++ r) = some (.pair ⟨[], k.name⟩ v.value, r) := by
  have hpair := readPair_pair k v nestingLimit h
  have hskip : skipSpaces ((Line.pair k v).chars ++ r) = (Line.pair k v).chars ++ r := by
    simp only [Line.chars, List.append_assoc]
    exact skipSpaces_key k _
  obtain ⟨c, cs, hk, hne⟩ := k.chars_eq_cons
  rw [readStatement, hskip]
  simp only [Line.chars, hk, List.cons_append, List.append_assoc] at hpair ⊢
  simp [hne '[' rfl, hpair]

def Line.statement? (l : Line) : Option Statement :=
  l.binding?.map fun b => .pair ⟨[], b.1⟩ b.2.value

theorem readStatements_of_endLine? {cs next : List Char} (h : endLine? cs = some next)
    (fuel : Nat) : readStatements (fuel + 1) cs = readStatements fuel next := by
  cases cs with
  | nil =>
    obtain rfl : [] = next := Option.some.inj h
    simp [readStatements]
  | cons c cs => simp [readStatements, h]

theorem readStatements_line (l : Line) {r next : List Char} (h : LineEnd r next) (fuel : Nat) :
    readStatements (fuel + 1) (l.chars ++ r) =
      (readStatements fuel next).map (l.statement?.toList ++ ·) := by
  cases l with
  | blank spaces hs =>
    rw [Line.chars, readStatements_of_endLine? (endLine?_blank hs h)]
    simp [Line.statement?, Line.binding?]
  | comment text ht =>
    rw [Line.chars, readStatements_of_endLine? (endLine?_comment ht h)]
    simp [Line.statement?, Line.binding?]
  | pair k v =>
    have hread := readStatement_pair k v h
    have hend : endLine? ((Line.pair k v).chars ++ r) = none := by
      simp only [Line.chars, List.append_assoc]
      exact endLine?_key k _
    have hcons : ∃ c cs, (Line.pair k v).chars ++ r = c :: cs := by
      obtain ⟨c, cs, hk, -⟩ := k.chars_eq_cons
      exact ⟨c, _, by rw [Line.chars, hk]; rfl⟩
    obtain ⟨c, cs, hline⟩ := hcons
    rw [hline] at hread hend ⊢
    cases hrest : readStatements fuel next <;>
      simp [readStatements, hend, hread, h.endLine?_eq, hrest, Line.statement?, Line.binding?]

def lineChars (lines : List Line) : List Char := ['\n'].intercalate (lines.map Line.chars)

theorem toList_document (lines : List Line) : (document lines).toList = lineChars lines := by
  rw [document, String.toList_intercalate, List.map_map]
  congr 1
  exact List.map_congr_left fun l _ => String.toList_ofList

theorem lineChars_cons (l : Line) (lines : List Line) :
    ∃ r, lineChars (l :: lines) = l.chars ++ r ∧ LineEnd r (lineChars lines) := by
  cases lines with
  | nil => exact ⟨[], by simp [lineChars], .last⟩
  | cons l' lines =>
    exact ⟨'\n' :: lineChars (l' :: lines), by simp [lineChars, List.intercalate_cons_cons], .more _⟩

theorem length_le_lineChars (lines : List Line) : lines.length ≤ (lineChars lines).length + 1 := by
  induction lines with
  | nil => simp
  | cons l lines ih =>
    cases lines with
    | nil => simp
    | cons l' lines =>
      simp only [lineChars, List.map_cons, List.intercalate_cons_cons, List.length_append,
        List.length_cons, List.length_nil] at ih ⊢
      omega

theorem readStatements_lines (lines : List Line) {fuel : Nat} (h : lines.length ≤ fuel) :
    readStatements fuel (lineChars lines) = some (lines.filterMap Line.statement?) := by
  -- Each line takes one step, so that what is left is enough for the lines that are left.
  induction lines generalizing fuel with
  | nil => simp [lineChars, readStatements]
  | cons l lines ih =>
    obtain ⟨fuel, rfl⟩ := Nat.exists_eq_add_one_of_ne_zero (by simp at h; omega : fuel ≠ 0)
    obtain ⟨r, hchars, hend⟩ := lineChars_cons l lines
    rw [hchars, readStatements_line l hend, ih (Nat.le_of_succ_le_succ h), Option.map_some]
    cases hs : l.statement? <;> simp [hs]

end FrameCursor.Toml
