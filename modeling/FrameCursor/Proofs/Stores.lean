import Mathlib.Data.Finset.Card
import FrameCursor.Proofs.Extraction

/-!
A sparse sequence as a finite map beside a length. However it was built, it holds under each key what
was stored there last, and carries the length that was set last. The form in which the entries are kept
shows nothing else of its history, so that two sequences are equal exactly if they read the same.
-/

set_option autoImplicit false

namespace FrameCursor

namespace Sparse

variable {α : Type}

inductive Edit (α : Type) where
  | insert (k : Nat) (a : α)
  | withLength (n : Nat)
  deriving DecidableEq, Repr

def Edit.store? : Edit α → Option (Nat × α)
  | .insert k a => some (k, a)
  | .withLength _ => none

def Edit.length? : Edit α → Option Nat
  | .insert _ _ => none
  | .withLength n => some n

def edit (s : Sparse α) : Edit α → Sparse α
  | .insert k a => (s.insert k a).2
  | .withLength n => s.withLength n

def edited (s : Sparse α) (edits : List (Edit α)) : Sparse α := edits.foldl edit s

def lastStored (k : Nat) (stores : List (Nat × α)) : Option α := stores.reverse.lookup k

def pastLargest (keys : List Nat) : Nat :=
  match keys.max? with
  | none => 0
  | some k => k + 1

theorem lookup_cons_eq (k i : Nat) (a : α) (rest : List (Nat × α)) :
    ((i, a) :: rest).lookup k = if k = i then some a else rest.lookup k := by
  rw [List.lookup_cons]
  by_cases hk : k = i
  · simp [hk]
  · simp [hk, beq_false_of_ne hk]

theorem lookup_putEntry (k j : Nat) (a : α) (entries : List (Nat × α)) :
    (putEntry k a entries).lookup j = if j = k then some a else entries.lookup j := by
  induction entries with
  | nil => exact lookup_cons_eq j k a []
  | cons e rest ih =>
    obtain ⟨i, b⟩ := e
    rcases Nat.lt_trichotomy k i with hlt | rfl | hgt
    · rw [putEntry, if_pos hlt, lookup_cons_eq]
    · rw [putEntry, if_neg (Nat.lt_irrefl k), if_pos rfl, lookup_cons_eq, lookup_cons_eq]
      by_cases hj : j = k
      · rw [if_pos hj, if_pos hj]
      · rw [if_neg hj, if_neg hj, if_neg hj]
    · rw [putEntry, if_neg (Nat.lt_asymm hgt), if_neg (Nat.ne_of_gt hgt), lookup_cons_eq, ih,
        lookup_cons_eq]
      by_cases hi : j = i
      · have hk : j ≠ k := by omega
        rw [if_pos hi, if_neg hk, if_pos hi]
      · rw [if_neg hi, if_neg hi]

theorem get?_put (s : Sparse α) (k j : Nat) (a : α) :
    (s.put k a).get? j = if j = k then some a else s.get? j :=
  lookup_putEntry k j a s.entries

theorem lastStored_snoc (k j : Nat) (a : α) (stores : List (Nat × α)) :
    lastStored j (stores ++ [(k, a)]) = if j = k then some a else lastStored j stores := by
  rw [lastStored, List.reverse_append, List.reverse_singleton, List.singleton_append,
    lookup_cons_eq, lastStored]

/-- Under each key stands what was stored there last, and the length is the one set last. -/
structure Recalls (s : Sparse α) (stores : List (Nat × α)) (lengths : List Nat) : Prop where
  get?_eq : ∀ k, s.get? k = lastStored k stores
  length_eq : s.declaredLength = lengths.getLast?

theorem recalls_empty : (empty : Sparse α).Recalls [] [] := ⟨fun _ => rfl, rfl⟩

theorem Recalls.put {s : Sparse α} {stores : List (Nat × α)} {lengths : List Nat}
    (h : s.Recalls stores lengths) (k : Nat) (a : α) :
    (s.put k a).Recalls (stores ++ [(k, a)]) lengths where
  get?_eq j := by rw [get?_put, lastStored_snoc, h.get?_eq]
  length_eq := h.length_eq

theorem Recalls.withLength {s : Sparse α} {stores : List (Nat × α)} {lengths : List Nat}
    (h : s.Recalls stores lengths) (n : Nat) :
    (s.withLength n).Recalls stores (lengths ++ [n]) where
  get?_eq := h.get?_eq
  length_eq := by rw [List.getLast?_concat]; rfl

theorem Recalls.edited {s : Sparse α} {stores : List (Nat × α)} {lengths : List Nat}
    (h : s.Recalls stores lengths) (edits : List (Edit α)) :
    (s.edited edits).Recalls (stores ++ edits.filterMap Edit.store?)
      (lengths ++ edits.filterMap Edit.length?) := by
  induction edits generalizing s stores lengths with
  | nil => simpa [Sparse.edited] using h
  | cons e edits ih =>
    cases e with
    | insert k a =>
      have hrest := ih (h.put k a)
      rwa [List.append_assoc] at hrest
    | withLength n =>
      have hrest := ih (h.withLength n)
      rwa [List.append_assoc] at hrest

theorem ofEntries_eq (entries : List (Nat × α)) :
    ofEntries entries = empty.edited (entries.map fun e => .insert e.1 e.2) := by
  rw [edited, List.foldl_map]
  rfl

theorem recalls_ofEntries (entries : List (Nat × α)) : (ofEntries entries).Recalls entries [] := by
  have hrecalls := recalls_empty.edited (entries.map fun e => .insert e.1 e.2)
  rw [ofEntries_eq]
  simpa [List.filterMap_map, Function.comp_def, Edit.store?, Edit.length?] using hrecalls

theorem mem_keys_iff {k : Nat} {entries : List (Nat × α)} :
    k ∈ entries.map Prod.fst ↔ (entries.lookup k).isSome = true := by
  rw [List.lookup_isSome_iff, List.mem_map]
  exact exists_congr fun e => and_congr_right' (by rw [beq_iff_eq, eq_comm])

theorem Recalls.mem_keys_iff {s : Sparse α} {stores : List (Nat × α)} {lengths : List Nat}
    (h : s.Recalls stores lengths) (k : Nat) :
    k ∈ s.entries.map Prod.fst ↔ k ∈ stores.map Prod.fst := by
  have hfound : s.entries.lookup k = stores.reverse.lookup k := h.get?_eq k
  rw [Sparse.mem_keys_iff, hfound, ← Sparse.mem_keys_iff, List.map_reverse, List.mem_reverse]

theorem nodup_keys (s : Sparse α) : (s.entries.map Prod.fst).Nodup := by
  rw [List.nodup_iff_pairwise_ne, List.pairwise_map]
  exact s.ascending.imp Nat.ne_of_lt

theorem Recalls.entryCount_eq {s : Sparse α} {stores : List (Nat × α)} {lengths : List Nat}
    (h : s.Recalls stores lengths) : s.entryCount = (stores.map Prod.fst).toFinset.card := by
  have hkeys : (s.entries.map Prod.fst).toFinset = (stores.map Prod.fst).toFinset := by
    ext k
    rw [List.mem_toFinset, List.mem_toFinset, h.mem_keys_iff]
  rw [← hkeys, List.toFinset_card_of_nodup s.nodup_keys, List.length_map]
  rfl

theorem pastLast_le_iff (s : Sparse α) (n : Nat) :
    s.pastLast ≤ n ↔ ∀ k ∈ s.entries.map Prod.fst, k < n := by
  rw [List.forall_mem_map]
  exact ⟨fun h e he => Nat.lt_of_lt_of_le (lt_pastLast he) h, pastLast_le⟩

theorem pastLargest_le_iff (keys : List Nat) (n : Nat) :
    pastLargest keys ≤ n ↔ ∀ k ∈ keys, k < n := by
  cases hm : keys.max? with
  | none => simp [pastLargest, List.max?_eq_none_iff.1 hm]
  | some m =>
    obtain ⟨hmem, hmax⟩ := List.max?_eq_some_iff.1 hm
    simp only [pastLargest, hm]
    exact ⟨fun h k hk => Nat.lt_of_le_of_lt (hmax k hk) h, fun h => h m hmem⟩

theorem Recalls.pastLast_eq {s : Sparse α} {stores : List (Nat × α)} {lengths : List Nat}
    (h : s.Recalls stores lengths) : s.pastLast = pastLargest (stores.map Prod.fst) := by
  refine eq_of_forall_ge_iff fun n => ?_
  rw [pastLast_le_iff, pastLargest_le_iff]
  exact forall_congr' fun k => imp_congr_left (h.mem_keys_iff k)

theorem lookup_eq_none_of_lt {k : Nat} {entries : List (Nat × α)} (h : ∀ e ∈ entries, k < e.1) :
    entries.lookup k = none := by
  rw [List.lookup_eq_none_iff]
  exact fun e he => bne_iff_ne.2 (Nat.ne_of_lt (h e he))

theorem isSome_eq_of_beq [BEq α] {x y : Option α} (h : (x == y) = true) :
    x.isSome = y.isSome := by
  cases x with
  | none =>
    cases y with
    | none => rfl
    | some b => cases h
  | some a =>
    cases y with
    | none => cases h
    | some b => rfl

/-- Where look-ups find the same keys, none comes before all of the others. -/
theorem not_lt_of_same_keys {i j : Nat} {a b : α} {rest rest' : List (Nat × α)}
    (h' : Ascending ((j, b) :: rest'))
    (h : ∀ k, (((i, a) :: rest).lookup k).isSome = (((j, b) :: rest').lookup k).isSome) :
    ¬ i < j := by
  intro hij
  have hlt : ∀ e ∈ (j, b) :: rest', i < e.1 :=
    List.forall_mem_cons.2 ⟨hij, fun e he => Nat.lt_trans hij ((List.pairwise_cons.1 h').1 e he)⟩
  have hhead := h i
  rw [lookup_cons_eq, if_pos rfl, lookup_eq_none_of_lt hlt] at hhead
  cases hhead

theorem beq_entry_iff [BEq α] {i j : Nat} {a b : α} :
    ((i, a) == (j, b)) = true ↔ i = j ∧ (a == b) = true := by
  change (i == j && a == b) = true ↔ _
  simp

theorem lookups_beq_cons_iff [BEq α] {i : Nat} {a b : α} {rest rest' : List (Nat × α)}
    (h : ∀ e ∈ rest, i < e.1) (h' : ∀ e ∈ rest', i < e.1) :
    (∀ k, (((i, a) :: rest).lookup k == ((i, b) :: rest').lookup k) = true) ↔
      (a == b) = true ∧ ∀ k, (rest.lookup k == rest'.lookup k) = true := by
  constructor
  · intro hsame
    refine ⟨by simpa using hsame i, fun k => ?_⟩
    by_cases hk : k = i
    · rw [hk, lookup_eq_none_of_lt h, lookup_eq_none_of_lt h']
      rfl
    · simpa [lookup_cons_eq, hk] using hsame k
  · rintro ⟨hhead, htail⟩ k
    by_cases hk : k = i
    · simpa [lookup_cons_eq, hk] using hhead
    · simpa [lookup_cons_eq, hk] using htail k

theorem beq_entries_iff [BEq α] {entries entries' : List (Nat × α)} (h : Ascending entries)
    (h' : Ascending entries') :
    (entries == entries') = true ↔ ∀ k, (entries.lookup k == entries'.lookup k) = true := by
  induction entries generalizing entries' with
  | nil =>
    cases entries' with
    | nil => simp
    | cons e' rest' =>
      obtain ⟨j, b⟩ := e'
      exact iff_of_false (by simp) fun hsame => by simpa using hsame j
  | cons e rest ih =>
    cases entries' with
    | nil => exact iff_of_false (by simp) fun hsame => by simpa using hsame e.1
    | cons e' rest' =>
      obtain ⟨i, a⟩ := e
      obtain ⟨j, b⟩ := e'
      obtain ⟨hlt, hrest⟩ := List.pairwise_cons.1 h
      obtain ⟨hlt', hrest'⟩ := List.pairwise_cons.1 h'
      rw [List.cons_beq_cons, Bool.and_eq_true, beq_entry_iff, ih hrest hrest']
      by_cases hij : i = j
      · subst hij
        simp [lookups_beq_cons_iff hlt hlt']
      · -- The smaller of the two first keys is missing on the other side.
        refine iff_of_false (fun hsame => hij hsame.1.1) fun hsame => ?_
        have hkeys k := isSome_eq_of_beq (hsame k)
        have hle := not_lt_of_same_keys h' hkeys
        have hge := not_lt_of_same_keys h fun k => (hkeys k).symm
        omega

theorem beq_iff [BEq α] (s s' : Sparse α) :
    (s == s') = true ↔
      s.declaredLength = s'.declaredLength ∧ ∀ k, (s.get? k == s'.get? k) = true := by
  change (s.entries == s'.entries && s.declaredLength == s'.declaredLength) = true ↔ _
  rw [Bool.and_eq_true, beq_entries_iff s.ascending s'.ascending, beq_iff_eq, and_comm]
  rfl

theorem numberFrom_eq (k : Nat) (as : List α) : numberFrom k as = (as.zipIdx k).map Prod.swap := by
  induction as generalizing k with
  | nil => rfl
  | cons a as ih => rw [numberFrom, ih, List.zipIdx_cons, List.map_cons, Prod.swap_prod_mk]

theorem ofItems_eq (items : List α) :
    ofItems items = (ofEntries (items.zipIdx.map Prod.swap)).withLength items.length := by
  have hlength := declaredLength_ofItems items
  rw [ofItems, numberFrom_eq] at hlength ⊢
  simp only [withLength] at hlength ⊢
  rw [hlength]

/-- Whatever is stored in it and whichever lengths are set, a sequence is a map from each key to what
was stored there last, with the last length beside it; and it is equal to any other that reads the
same. The edits may end anywhere, so that what is said of one more store holds of every store. -/
theorem finite_map_with_length {α : Type} [BEq α] (entries : List (Nat × α))
    (edits : List (Edit α)) :
    let s := (ofEntries entries).edited edits
    let stores := entries ++ edits.filterMap Edit.store?
    let length := (edits.filterMap Edit.length?).getLast?
    (∀ k, s.get? k = lastStored k stores ∧ Subject.elementAt s k = lastStored k stores) ∧
    (∀ k a, (s.insert k a).1 = s.get? k ∧
      (s.insert k a).2 = (ofEntries entries).edited (edits ++ [.insert k a]) ∧
      (∀ j, (s.insert k a).2.get? j = if j = k then some a else s.get? j) ∧
      (s.insert k a).2.declaredLength = s.declaredLength) ∧
    s.entryCount = (stores.map Prod.fst).toFinset.card ∧
    Subject.length s = length ∧
    ((∀ e ∈ stores, e.1 < Position.ceiling) →
      pastLargest (stores.map Prod.fst) ≤ Position.ceiling ∧
      s.extent = max (length.getD 0) (pastLargest (stores.map Prod.fst))) ∧
    (∀ (entries' : List (Nat × α)) (edits' : List (Edit α)),
      let s' := (ofEntries entries').edited edits'
      (s == s') = true ↔
        Subject.length s = Subject.length s' ∧ ∀ k, (s.get? k == s'.get? k) = true) ∧
    ∀ items : List α,
      ofItems items = (ofEntries (items.zipIdx.map Prod.swap)).withLength items.length := by
  intro s stores length
  have hrecalls : s.Recalls stores (edits.filterMap Edit.length?) := by
    simpa using (recalls_ofEntries entries).edited edits
  refine ⟨fun k => ⟨hrecalls.get?_eq k, hrecalls.get?_eq k⟩, fun k a => ⟨rfl, ?_, ?_, rfl⟩,
    hrecalls.entryCount_eq, hrecalls.length_eq, fun hkeys => ⟨?_, ?_⟩, fun _ _ => beq_iff _ _,
    ofItems_eq⟩
  · simp [s, edited, edit]
  · exact fun j => s.get?_put k j a
  · rw [pastLargest_le_iff, List.forall_mem_map]
    exact hkeys
  · rw [extent, hrecalls.length_eq, hrecalls.pastLast_eq]

/-- Two keys stored twice, in another order each, and a length set twice. -/
theorem finite_map_with_length_overwritten :
    let entries : List (Nat × Char) := [(4, 'a'), (0, 'b'), (4, 'c')]
    let edits : List (Edit Char) := [.withLength 9, .insert 0 'd', .withLength 2]
    let s := (ofEntries entries).edited edits
    let s' := (ofEntries [(0, 'x'), (4, 'c')]).edited [.insert 0 'd', .withLength 2]
    s.get? 4 = some 'c' ∧ s.get? 0 = some 'd' ∧ s.get? 1 = none ∧
      (s.insert 4 'z').1 = some 'c' ∧ s.entryCount = 2 ∧ Subject.length s = some 2 ∧
      (∀ e ∈ entries ++ edits.filterMap Edit.store?, e.1 < Position.ceiling) ∧ s.extent = 5 ∧
      (s == s') = true := by
  intro entries edits s s'
  obtain ⟨hget, hinsert, hcount, hlength, hextent, hbeq, -⟩ := finite_map_with_length entries edits
  have hkeys : ∀ e ∈ entries ++ edits.filterMap Edit.store?, e.1 < Position.ceiling := by decide
  have hsame : (s == s') = true := by
    refine (hbeq [(0, 'x'), (4, 'c')] [.insert 0 'd', .withLength 2]).2 ⟨rfl, fun k => ?_⟩
    have hentries : s.entries = s'.entries := rfl
    rw [get?, get?, hentries, beq_self_eq_true]
  exact ⟨(hget 4).1, (hget 0).1, (hget 1).1, (hinsert 4 'z').1.trans (hget 4).1,
    hcount.trans (by decide), hlength, hkeys, (hextent hkeys).2, hsame⟩

end Sparse

end FrameCursor
