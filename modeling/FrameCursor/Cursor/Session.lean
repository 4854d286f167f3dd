import FrameCursor.Cursor.History

/-!
Sessions: all that a program can see of a cursor that it makes and then calls. A session can be told
over one kind of subject and carried over to another, and frames are seen through a view of them, so
that sessions over different kinds can be compared.
-/

set_option autoImplicit false

namespace FrameCursor

def Call.map {ι σ : Type} (f : ι → σ) : Call ι → Call σ
  | .peek k => .peek k
  | .next k => .next k
  | .atEnd k => .atEnd k
  | .record => .record
  | .flush => .flush
  | .rewind => .rewind
  | .reset subject => .reset (subject.map f)

def Origin.map {ι σ : Type} (f : ι → σ) : Origin ι → Origin σ
  | .new subject config => .new (subject.map f) config
  | .unframed subject => .unframed (f subject)
  | .framed subject => .framed (f subject)
  | .unbound config => .unbound config

def Cursor.map {ι σ : Type} (f : ι → σ) (c : Cursor ι) : Cursor σ :=
  ⟨c.subject.map f, c.position, c.frameStart, c.config⟩

def Answer.map {α φ ω : Type} (view : φ → ω) : Answer α φ → Answer α ω
  | .element found => .element found
  | .flag value => .flag value
  | .frame value => .frame (view value)
  | .done => .done
  | .failed error => .failed error

structure Observation (α ω : Type) where
  answer : Answer α ω
  position : Nat
  frameStart : Option Nat
  events : List Event
  deriving DecidableEq, Repr

def Reply.observe {σ α φ ω : Type} (view : φ → ω) (r : Reply σ (Answer α φ)) : Observation α ω :=
  ⟨r.result.map view, r.cursor.position, r.cursor.frameStart, r.events⟩

structure Session (α ω : Type) where
  /-- The position and the mark of the cursor that was made, or the error. -/
  opened : Except CursorError (Nat × Option Nat)
  events : List Event
  observed : List (Observation α ω)

/-- A cursor that could not be made answers no call. -/
def Origin.session {σ α φ ω : Type} [Subject σ α φ] (view : φ → ω) (origin : Origin σ)
    (calls : List (Call σ)) : Session α ω :=
  match origin.opening.result with
  | .error e => ⟨.error e, origin.opening.events, []⟩
  | .ok c =>
    ⟨.ok (c.position, c.frameStart), origin.opening.events,
      (c.run calls).map (Reply.observe view)⟩

end FrameCursor
