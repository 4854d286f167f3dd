import FrameCursor.Cursor

set_option autoImplicit false

namespace FrameCursor

inductive Origin (σ : Type) where
  | new (subject : Option σ) (config : Config)
  | unframed (subject : σ)
  | framed (subject : σ)
  | unbound (config : Config)
  deriving DecidableEq, Repr

namespace Origin

variable {σ α φ : Type}

def subject : Origin σ → Option σ
  | .new subject _ => subject
  | .unframed subject | .framed subject => some subject
  | .unbound _ => none

def config : Origin σ → Config
  | .new _ config | .unbound config => config
  | .unframed _ => .default
  | .framed _ => .withFraming

def opening [Subject σ α φ] : Origin σ → Opening σ
  | .new subject config => Cursor.new subject config
  | .unframed subject => Cursor.unframed subject
  | .framed subject => Cursor.framed subject
  | .unbound config => ⟨.ok (Cursor.unbound config), []⟩

end Origin

inductive Call (σ : Type) where
  | peek (offset : Nat)
  | next (offset : Nat)
  | atEnd (offset : Nat)
  | record
  | flush
  | rewind
  | reset (subject : Option σ)
  deriving DecidableEq, Repr

inductive Answer (α φ : Type) where
  | element (found : Option α)
  | flag (value : Bool)
  | frame (value : φ)
  | done
  | failed (error : CursorError)
  deriving DecidableEq, Repr

def Answer.ofResult {α φ β : Type} (ok : β → Answer α φ) : Except CursorError β → Answer α φ
  | .ok b => ok b
  | .error e => .failed e

namespace Cursor

variable {σ α φ : Type}

/-- Calls that never go back to the beginning, nor try to. -/
def OnlyOnward (calls : List (Call σ)) : Prop :=
  ∀ call ∈ calls, call ≠ .rewind ∧ ∀ s, call ≠ .reset s

variable [Subject σ α φ]

def perform (c : Cursor σ) : Call σ → Reply σ (Answer α φ)
  | .peek k => ⟨.element (c.peek k), c, []⟩
  | .next k => ⟨.element (c.next k).1, (c.next k).2, []⟩
  | .atEnd k => ⟨.flag (c.atEnd k), c, []⟩
  | .record => ⟨.ofResult (fun _ => .done) c.record.result, c.record.cursor, c.record.events⟩
  | .flush => ⟨.ofResult .frame c.flush.result, c.flush.cursor, c.flush.events⟩
  | .rewind => ⟨.done, c.rewind.cursor, c.rewind.events⟩
  | .reset s =>
    ⟨.ofResult (fun _ => .done) (c.reset s).result, (c.reset s).cursor, (c.reset s).events⟩

def run (c : Cursor σ) : List (Call σ) → List (Reply σ (Answer α φ))
  | [] => []
  | call :: calls => c.perform call :: (c.perform call).cursor.run calls

def after (c : Cursor σ) (calls : List (Call σ)) : Cursor σ :=
  calls.foldl (fun c call => (c.perform call).cursor) c

def logged (c : Cursor σ) (calls : List (Call σ)) : List Event := (c.run calls).flatMap Reply.events

def accepted (c : Cursor σ) : Call σ → Option σ
  | .reset subject =>
    match (c.reset subject).result with
    | .ok _ => subject
    | .error _ => none
  | _ => none

/-- Whether a call goes back to the beginning: a rewind does, and a reset that succeeds. -/
def goesBack (c : Cursor σ) : Call σ → Bool
  | .rewind => true
  | .reset subject => (c.reset subject).result.isOk
  | _ => false

end Cursor

end FrameCursor
