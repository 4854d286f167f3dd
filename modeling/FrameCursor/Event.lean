import FrameCursor.Subject

set_option autoImplicit false

namespace FrameCursor

inductive Level where
  | info
  | debug
  | trace
  deriving DecidableEq, Repr

inductive FramingCall where
  | record
  | flush
  deriving DecidableEq, Repr

def FramingCall.label : FramingCall → String
  | .record => "record"
  | .flush => "flush"

inductive Event where
  | reset (source : Nat)
  | recorded (start : Nat)
  /-- A frame was cut out; the span is the one asked for, before it is clamped. -/
  | flushed (start stop : Nat)
  | refused (call : FramingCall)
  | rejected (defect : Defect)
  /-- A word was found; the cursor stands at `stop` after it. -/
  | word (text : String) (stop : Nat)
  | framingEnabled
  deriving DecidableEq, Repr

namespace Event

def level : Event → Level
  | .reset _ | .recorded _ | .flushed _ _ => .trace
  | .refused _ | .rejected _ | .word _ _ => .debug
  | .framingEnabled => .info

def message : Event → String
  | .reset _ => "cursor reset"
  | .recorded _ => "frame recorded"
  | .flushed _ _ => "frame flushed"
  | .refused _ => "framing call refused on an unframed cursor"
  | .rejected .noLength => "rejected subject without a length"
  | .rejected .noFirstElement => "rejected subject without a first element"
  | .word _ _ => "word"
  | .framingEnabled => "enabling framing for word extraction"

inductive Field where
  | count (n : Nat)
  | text (s : String)
  deriving DecidableEq, Repr

def fields : Event → List (String × Field)
  | .reset source => [("from", .count source)]
  | .recorded start => [("start", .count start)]
  | .flushed start stop => [("start", .count start), ("end", .count stop)]
  | .refused call => [("operation", .text call.label)]
  | .rejected _ => []
  | .word text stop => [("word", .text text), ("end", .count stop)]
  | .framingEnabled => []

def traces (events : List Event) : List Event := events.filter fun e => e.level = .trace

@[simp] theorem traces_nil : traces [] = [] := rfl

@[simp] theorem traces_append (first rest : List Event) :
    traces (first ++ rest) = traces first ++ traces rest :=
  List.filter_append first rest

end Event

end FrameCursor
