import FrameCursor.Subject
import FrameCursor.Describe

set_option autoImplicit false

namespace FrameCursor

def Defect.message : Defect → String
  | .noLength => "subject has no length"
  | .noFirstElement => "subject has no element at index 0"

inductive CursorError where
  | invalidInput (message : String)
  | framingDisabled
  /-- A frame was asked for where none has been recorded, or where no subject is bound. -/
  | emptyFrame
  | config (message : String)
  deriving DecidableEq, Repr

namespace CursorError

inductive Kind where
  | invalidInput
  | framingDisabled
  | emptyFrame
  | config
  deriving DecidableEq, Repr

def kind : CursorError → Kind
  | .invalidInput _ => .invalidInput
  | .framingDisabled => .framingDisabled
  | .emptyFrame => .emptyFrame
  | .config _ => .config

def message : CursorError → String
  | .invalidInput m => "invalid input: " ++ m
  | .framingDisabled => "framing is disabled for this cursor"
  | .emptyFrame => "no frame has been recorded"
  | .config m => "configuration error: " ++ m

def ofDefect (d : Defect) : CursorError := .invalidInput d.message

instance : Describe CursorError where
  describe
    | .invalidInput m => Describe.record "InvalidInput" [("message", describe m)]
    | .framingDisabled => Describe.record "FramingDisabled" []
    | .emptyFrame => Describe.record "EmptyFrame" []
    | .config m => Describe.record "Config" [("message", describe m)]

end CursorError

end FrameCursor
