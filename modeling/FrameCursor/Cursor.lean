import FrameCursor.Config
import FrameCursor.Event

/-!
A cursor reads a subject forward. It looks ahead without consuming, jumps over elements, and, when
framing is on, cuts out what lies between a recorded mark and its position. Each call gives a reply:
its result, the cursor afterwards and the events it logged. A call that fails leaves the cursor as
it was, but for a flush without a subject, which uses up the mark.
-/

set_option autoImplicit false

namespace FrameCursor

structure Cursor (σ : Type) where
  subject : Option σ
  position : Nat
  /-- The recorded start of the frame that a flush would cut out. -/
  frameStart : Option Nat
  config : Config
  deriving DecidableEq, Repr

structure Reply (σ β : Type) where
  result : β
  cursor : Cursor σ
  events : List Event

/-- Goes on with the result and the cursor of a reply, unless it failed. Events add up in order. -/
def Reply.andThen {σ β γ : Type} (r : Reply σ (Except CursorError β))
    (next : β → Cursor σ → Reply σ (Except CursorError γ)) : Reply σ (Except CursorError γ) :=
  match r.result with
  | .error e => ⟨.error e, r.cursor, r.events⟩
  | .ok b =>
    let r' := next b r.cursor
    ⟨r'.result, r'.cursor, r.events ++ r'.events⟩

/-- A cursor that was to be made: the cursor or the error, and the events of the attempt. -/
structure Opening (σ : Type) where
  result : Except CursorError (Cursor σ)
  events : List Event

namespace Cursor

variable {σ α φ : Type}

def bind (subject : Option σ) (config : Config) : Cursor σ := ⟨subject, 0, none, config⟩

def unbound (config : Config) : Cursor σ := bind none config

def isFramed (c : Cursor σ) : Bool := c.config.framed

def rewind (c : Cursor σ) : Reply σ Unit :=
  ⟨(), { c with position := 0, frameStart := none }, [.reset c.position]⟩

def record (c : Cursor σ) : Reply σ (Except CursorError Unit) :=
  if c.isFramed then
    ⟨.ok (), { c with frameStart := some c.position }, [.recorded c.position]⟩
  else ⟨.error .framingDisabled, c, [.refused .record]⟩

variable [Subject σ α φ]

def new (subject : Option σ) (config : Config) : Opening σ :=
  match subject.bind Subject.defect? with
  | some d => ⟨.error (.ofDefect d), [.rejected d]⟩
  | none => ⟨.ok (bind subject config), []⟩

def unframed (subject : σ) : Opening σ := new (some subject) .default

def framed (subject : σ) : Opening σ := new (some subject) .withFraming

/-- Whether the position `offset` ahead is at or past the end. Without a subject, and with a subject
that has no length or length zero, there is no end to reach. -/
def atEnd (c : Cursor σ) (offset : Nat) : Bool :=
  match c.subject.bind Subject.length with
  | some n => 0 < n && n ≤ Position.advance c.position offset
  | none => false

def peek (c : Cursor σ) (offset : Nat) : Option α :=
  if c.atEnd offset then none
  else (Position.ahead? c.position offset).bind fun i =>
    c.subject.bind fun s => Subject.elementAt s i

/-- The element at the position; if there is one, the cursor moves past it and `offset` more. -/
def next (c : Cursor σ) (offset : Nat) : Option α × Cursor σ :=
  match c.peek 0 with
  | none => (none, c)
  | some a => (some a, { c with position := Position.advance c.position (offset + 1) })

def flush (c : Cursor σ) : Reply σ (Except CursorError φ) :=
  if c.isFramed then
    match c.frameStart with
    | none => ⟨.error .emptyFrame, c, []⟩
    | some start =>
      let c' := { c with frameStart := none }
      match c.subject with
      | none => ⟨.error .emptyFrame, c', []⟩
      | some s => ⟨.ok (Subject.extract s ⟨start, c.position⟩), c', [.flushed start c.position]⟩
  else ⟨.error .framingDisabled, c, [.refused .flush]⟩

/-- Goes back to the beginning, on a new subject if one is given and fit for binding. -/
def reset (c : Cursor σ) (subject : Option σ) : Reply σ (Except CursorError Unit) :=
  match subject.bind Subject.defect? with
  | some d => ⟨.error (.ofDefect d), c, [.rejected d]⟩
  | none =>
    let r := { c with subject := subject.or c.subject }.rewind
    ⟨.ok (), r.cursor, r.events⟩

def length (c : Cursor σ) : Option (Option Nat) := c.subject.map Subject.length

end Cursor

instance {σ : Type} [Describe σ] : Describe (Cursor σ) where
  describe c := Describe.record "Cursor"
    [("subject", describe c.subject), ("position", describe c.position),
     ("frame_start", describe c.frameStart), ("config", describe c.config)]

end FrameCursor
