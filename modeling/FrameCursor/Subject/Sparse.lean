import FrameCursor.Subject
import FrameCursor.Describe

/-!
A sequence with holes: elements stored under positions, and a length that is set on its own. Reads
look the position up and ignore the length. Spans are cut out up to the extent, which reaches past
both the length and the last stored position, so that whatever can be read can be cut out.

The entries are kept in ascending order of position, one for each. This makes the stored form
independent of the order of insertion.
-/

set_option autoImplicit false

namespace FrameCursor

/-- Stores a value under a key in entries that ascend, replacing the one that is there. -/
def putEntry {α : Type} (k : Nat) (a : α) : List (Nat × α) → List (Nat × α)
  | [] => [(k, a)]
  | (j, b) :: rest =>
    if k < j then (k, a) :: (j, b) :: rest
    else if k = j then (k, a) :: rest
    else (j, b) :: putEntry k a rest

abbrev Ascending {α : Type} (entries : List (Nat × α)) : Prop :=
  entries.Pairwise fun x y => x.1 < y.1

theorem mem_putEntry {α : Type} {k : Nat} {a : α} {entries : List (Nat × α)} {x : Nat × α}
    (h : x ∈ putEntry k a entries) : x = (k, a) ∨ x ∈ entries := by
  induction entries with
  | nil => simpa [putEntry] using h
  | cons e rest ih =>
    obtain ⟨j, b⟩ := e
    simp only [putEntry] at h
    split at h
    · simpa using h
    · split at h
      · rcases List.mem_cons.1 h with h | h
        · exact .inl h
        · exact .inr (List.mem_cons_of_mem _ h)
      · rcases List.mem_cons.1 h with h | h
        · exact .inr (by simp [h])
        · exact (ih h).imp id (List.mem_cons_of_mem _)

theorem Ascending.putEntry {α : Type} {entries : List (Nat × α)} (h : Ascending entries)
    (k : Nat) (a : α) : Ascending (putEntry k a entries) := by
  induction entries with
  | nil => simp [FrameCursor.putEntry]
  | cons e rest ih =>
    obtain ⟨j, b⟩ := e
    obtain ⟨hj, hr⟩ := List.pairwise_cons.1 h
    simp only [FrameCursor.putEntry]
    split
    · rename_i hk
      refine List.pairwise_cons.2 ⟨fun x hx => ?_, h⟩
      rcases List.mem_cons.1 hx with rfl | hx
      · exact hk
      · exact Nat.lt_trans hk (hj x hx)
    · rename_i hk
      split
      · rename_i he
        subst he
        exact List.pairwise_cons.2 ⟨hj, hr⟩
      · rename_i hne
        refine List.pairwise_cons.2 ⟨fun x hx => ?_, ih hr⟩
        rcases mem_putEntry hx with rfl | hx
        · exact Nat.lt_of_le_of_ne (Nat.le_of_not_lt hk) (Ne.symm hne)
        · exact hj x hx

structure Sparse (α : Type) where
  entries : List (Nat × α)
  ascending : Ascending entries
  declaredLength : Option Nat
  deriving DecidableEq, Repr

namespace Sparse

variable {α : Type}

def empty : Sparse α := ⟨[], .nil, none⟩

instance : Inhabited (Sparse α) := ⟨empty⟩

instance [BEq α] : BEq (Sparse α) where
  beq a b := a.entries == b.entries && a.declaredLength == b.declaredLength

def get? (s : Sparse α) (k : Nat) : Option α := s.entries.lookup k

def put (s : Sparse α) (k : Nat) (a : α) : Sparse α :=
  { s with entries := putEntry k a s.entries, ascending := s.ascending.putEntry k a }

def insert (s : Sparse α) (k : Nat) (a : α) : Option α × Sparse α := (s.get? k, s.put k a)

def withLength (s : Sparse α) (n : Nat) : Sparse α := { s with declaredLength := some n }

def ofEntries (entries : List (Nat × α)) : Sparse α :=
  entries.foldl (fun s e => s.put e.1 e.2) empty

def numberFrom (k : Nat) : List α → List (Nat × α)
  | [] => []
  | a :: as => (k, a) :: numberFrom (k + 1) as

theorem le_of_mem_numberFrom {k : Nat} {as : List α} {x : Nat × α} (h : x ∈ numberFrom k as) :
    k ≤ x.1 := by
  induction as generalizing k with
  | nil => simp [numberFrom] at h
  | cons a as ih =>
    rcases List.mem_cons.1 h with rfl | h
    · exact Nat.le_refl _
    · exact Nat.le_of_succ_le (ih h)

theorem ascending_numberFrom (k : Nat) (as : List α) : Ascending (numberFrom k as) := by
  induction as generalizing k with
  | nil => exact .nil
  | cons a as ih => exact List.pairwise_cons.2 ⟨fun x hx => le_of_mem_numberFrom hx, ih (k + 1)⟩

def entryCount (s : Sparse α) : Nat := s.entries.length

def ofItems (items : List α) : Sparse α :=
  let s := ofEntries (numberFrom 0 items)
  s.withLength s.entryCount

def pastLast (s : Sparse α) : Nat :=
  match s.entries.getLast? with
  | none => 0
  | some e => e.1 + 1

/-- How far anything can be read: the length or one past the last stored position, whichever is
larger. -/
def extent (s : Sparse α) : Nat := max (s.declaredLength.getD 0) s.pastLast

instance : Subject (Sparse α) α (List (Option α)) where
  length := declaredLength
  elementAt := get?
  extract s span := (span.clamp s.extent).indices.map s.get?

instance [Describe α] : Describe (Sparse α) where
  describe s :=
    let entry (e : Nat × α) : String := describe e.1 ++ ": " ++ describe e.2
    Describe.record "ArrayLike"
      [("entries", "\x7b" ++ ", ".intercalate (s.entries.map entry) ++ "\x7d"),
       ("length", describe s.declaredLength)]

end Sparse

end FrameCursor
