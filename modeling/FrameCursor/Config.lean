import FrameCursor.Describe
import FrameCursor.Error

set_option autoImplicit false

namespace FrameCursor

structure Config where
  framed : Bool
  deriving DecidableEq, Repr

namespace Config

def default : Config := ⟨false⟩

def withFraming : Config := ⟨true⟩

/-- A decoder of documents that reads them first, and then looks for what it needs. -/
def decoder {τ : Type} (read : String → Except String τ) (visit : τ → Except String Config)
    (document : String) : Except String Config := do
  visit (← read document)

/-- The configuration that a decoder finds in a document. What the decoder finds wrong with it is
passed on in its words. -/
def parse (decode : String → Except String Config) (document : String) :
    Except CursorError Config :=
  (decode document).mapError fun reason => .config ("failed to parse cursor config: " ++ reason)

instance : Inhabited Config := ⟨default⟩

instance : Describe Config where
  describe c := Describe.record "CursorConfig" [("framed", describe c.framed)]

end Config

end FrameCursor
