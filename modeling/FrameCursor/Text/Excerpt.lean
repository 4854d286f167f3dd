import FrameCursor.Describe

set_option autoImplicit false

namespace FrameCursor

structure Excerpt where
  buffer : String
  start : Nat
  stop : Nat
  deriving DecidableEq, Repr

namespace Excerpt

def text (e : Excerpt) : String := String.Pos.Raw.extract e.buffer ⟨e.start⟩ ⟨e.stop⟩

def byteLength (e : Excerpt) : Nat := e.stop - e.start

def isEmpty (e : Excerpt) : Bool := e.start == e.stop

def range (e : Excerpt) : Nat × Nat := (e.start, e.stop)

/-- Equality of what is read, which a buffer or a range may differ under. -/
instance : BEq Excerpt := ⟨fun a b => a.text == b.text⟩

def reads (e : Excerpt) (s : String) : Bool := e.text == s

instance : ToString Excerpt := ⟨text⟩

instance : Describe Excerpt where
  describe e := Describe.record "TextSlice"
    [("buffer", describe e.buffer), ("start", describe e.start), ("end", describe e.stop)]

end Excerpt

end FrameCursor
