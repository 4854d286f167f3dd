import FrameCursor.Cursor.History
import FrameCursor.Words

set_option autoImplicit false

namespace FrameCursor

inductive Action : Type → Type 1 where
  | perform {σ : Type} (call : Call σ) : Action σ
  | words : Action Text

inductive Outcome (α φ : Type) where
  | answer (given : Answer α φ)
  | words (found : Except CursorError (List Excerpt))

def Action.call? {σ : Type} : Action σ → Option (Call σ)
  | .perform call => some call
  | .words => none

namespace Cursor

/-- The cursor and the events that an action leaves. -/
def act : {σ α φ : Type} → [Subject σ α φ] → Cursor σ → Action σ → Reply σ Unit
  | _, _, _, _, c, .perform call => ⟨(), (c.perform call).cursor, (c.perform call).events⟩
  | _, _, _, _, c, .words => ⟨(), c.words.cursor, c.words.events⟩

def reply : {σ α φ : Type} → [Subject σ α φ] → Cursor σ → Action σ → Reply σ (Outcome α φ)
  | _, _, _, _, c, .perform call =>
    ⟨.answer (c.perform call).result, (c.perform call).cursor, (c.perform call).events⟩
  | _, _, _, _, c, .words => ⟨.words c.words.result, c.words.cursor, c.words.events⟩

variable {σ α φ : Type} [Subject σ α φ]

def replies (c : Cursor σ) : List (Action σ) → List (Reply σ (Outcome α φ))
  | [] => []
  | action :: actions => c.reply action :: (c.reply action).cursor.replies actions

def afterActions (c : Cursor σ) (actions : List (Action σ)) : Cursor σ :=
  actions.foldl (fun c action => (c.act action).cursor) c

def log (c : Cursor σ) : List (Action σ) → List Event
  | [] => []
  | action :: actions => (c.act action).events ++ (c.act action).cursor.log actions

/-- The subject that the cursor was last given in the actions and took; before any, `initial`. -/
def lastAccepted (c : Cursor σ) (initial : Option σ) : List (Action σ) → Option σ
  | [] => initial
  | action :: actions =>
    (c.act action).cursor.lastAccepted ((action.call?.bind c.accepted).or initial) actions

/-- Some way of making a cursor and some actions lead to this one. -/
def Reachable (c : Cursor σ) : Prop :=
  ∃ (origin : Origin σ) (start : Cursor σ) (actions : List (Action σ)),
    origin.opening.result = .ok start ∧ start.afterActions actions = c

end Cursor

end FrameCursor
