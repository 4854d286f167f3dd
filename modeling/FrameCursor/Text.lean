import FrameCursor.Subject
import FrameCursor.Text.Excerpt

/-!
Text read one character at a time. Positions count characters; the byte offset of each is kept in a
table, so that reading and cutting out go straight to the bytes and never split a character.
-/

set_option autoImplicit false

namespace FrameCursor

/-- The byte offset of every character, counted from `at`, followed by the offset past the last. -/
def offsetsFrom (at_ : Nat) : List Char → List Nat
  | [] => [at_]
  | c :: cs => at_ :: offsetsFrom (at_ + c.utf8Size) cs

theorem length_offsetsFrom (n : Nat) (cs : List Char) :
    (offsetsFrom n cs).length = cs.length + 1 := by
  induction cs generalizing n with
  | nil => rfl
  | cons c cs ih => simp [offsetsFrom, ih]

structure Text where
  buffer : String
  /-- The byte offset of every character, followed by the length of the buffer in bytes. -/
  boundaries : Array Nat
  boundaries_eq : boundaries = (offsetsFrom 0 buffer.toList).toArray
  deriving DecidableEq, Repr

namespace Text

def ofString (s : String) : Text := ⟨s, (offsetsFrom 0 s.toList).toArray, rfl⟩

def ofChars (cs : List Char) : Text := ofString (String.ofList cs)

instance : Inhabited Text := ⟨ofString ""⟩

instance : ToString Text := ⟨buffer⟩

@[ext] theorem ext {a b : Text} (h : a.buffer = b.buffer) : a = b := by
  obtain ⟨s, _, rfl⟩ := a
  obtain ⟨t, _, rfl⟩ := b
  cases h
  rfl

theorem size_boundaries (t : Text) : t.boundaries.size = t.buffer.toList.length + 1 := by
  rw [t.boundaries_eq, List.size_toArray, length_offsetsFrom]

def length (t : Text) : Nat := t.boundaries.size - 1

theorem length_lt_size (t : Text) : t.length < t.boundaries.size := by
  have h := t.size_boundaries
  unfold length; omega

theorem length_eq (t : Text) : t.length = t.buffer.toList.length := by
  have h := t.size_boundaries
  unfold length; omega

/-- The character at a position, read at its offset. At the offset past the last there is none. -/
def charAt (t : Text) (i : Nat) : Option Char :=
  (t.boundaries[i]?).bind fun offset => String.Pos.Raw.get? t.buffer ⟨offset⟩

def extract (t : Text) (span : Span) : Excerpt :=
  let s := span.clamp t.length
  have hstop : s.stop < t.boundaries.size :=
    Nat.lt_of_le_of_lt (span.clamp_stop_le t.length) t.length_lt_size
  have hstart : s.start < t.boundaries.size :=
    Nat.lt_of_le_of_lt (span.clamp_start_le_stop t.length) hstop
  ⟨t.buffer, t.boundaries[s.start], t.boundaries[s.stop]⟩

instance : Subject Text Char Excerpt where
  length t := some t.length
  elementAt := charAt
  extract := extract

instance : Describe Text where
  describe t := Describe.wrapped "Text" (describe t.buffer)

end Text

end FrameCursor
