import FrameCursor.Cursor.Session
import FrameCursor.Proofs.Collected

set_option autoImplicit false

namespace FrameCursor

section Simulation

variable {ι σ τ α φ ψ ω : Type} [Subject σ α φ] [Subject τ α ψ]

/-- Subjects made from the same data by `f` and by `g`, with frames seen through `view` and
`view'`. -/
structure Interchangeable (f : ι → σ) (g : ι → τ) (view : φ → ω) (view' : ψ → ω) : Prop where
  length (x : ι) : Subject.length (f x) = Subject.length (g x)
  elementAt (x : ι) (i : Nat) : Subject.elementAt (f x) i = Subject.elementAt (g x) i
  isValid (x : ι) : Subject.isValid (f x) = Subject.isValid (g x)
  extract (x : ι) (span : Span) :
    view (Subject.extract (f x) span) = view' (Subject.extract (g x) span)

structure Alike (f : ι → σ) (g : ι → τ) (view : φ → ω) (view' : ψ → ω)
    (r : Reply σ (Answer α φ)) (r' : Reply τ (Answer α ψ)) : Prop where
  observed : r.observe view = r'.observe view'
  cursors : ∃ c : Cursor ι, r.cursor = c.map f ∧ r'.cursor = c.map g

namespace Interchangeable

variable {f : ι → σ} {g : ι → τ} {view : φ → ω} {view' : ψ → ω}

theorem record_alike (c : Cursor ι) :
    Alike f g view view' ((c.map f).perform .record) ((c.map g).perform .record) := by
  cases hf : c.config.framed with
  | false =>
    simp only [Cursor.perform, Cursor.record, Cursor.isFramed, Cursor.map, hf]
    exact ⟨rfl, c, rfl, rfl⟩
  | true =>
    simp only [Cursor.perform, Cursor.record, Cursor.isFramed, Cursor.map, hf]
    exact ⟨rfl, { c with frameStart := some c.position }, rfl, rfl⟩

variable (h : Interchangeable f g view view')

include h

theorem defect?_eq (subject : Option ι) :
    (subject.map f).bind Subject.defect? = (subject.map g).bind Subject.defect? := by
  cases subject with
  | none => rfl
  | some x => simp only [Option.map_some, Option.bind_some, Subject.defect?, h.length, h.isValid]

theorem atEnd_eq (c : Cursor ι) (k : Nat) : (c.map f).atEnd k = (c.map g).atEnd k := by
  obtain ⟨subject, position, mark, config⟩ := c
  cases subject with
  | none => rfl
  | some x =>
    simp only [Cursor.atEnd, Cursor.map, Option.map_some, Option.bind_some]
    rw [h.length]
    rfl

theorem peek_eq (c : Cursor ι) (k : Nat) : (c.map f).peek k = (c.map g).peek k := by
  have hend := h.atEnd_eq c k
  obtain ⟨subject, position, mark, config⟩ := c
  cases subject with
  | none => simp [Cursor.peek, Cursor.map]
  | some x =>
    simp only [Cursor.peek]
    rw [hend]
    simp only [Cursor.map, Option.map_some, Option.bind_some, h.elementAt]
    rfl

theorem next_alike (c : Cursor ι) (k : Nat) :
    Alike f g view view' ((c.map f).perform (.next k)) ((c.map g).perform (.next k)) := by
  have hpeek := h.peek_eq c 0
  cases hp : (c.map g).peek 0 with
  | none =>
    rw [hp] at hpeek
    simp only [Cursor.perform, Cursor.next, hp, hpeek]
    exact ⟨rfl, c, rfl, rfl⟩
  | some a =>
    rw [hp] at hpeek
    simp only [Cursor.perform, Cursor.next, hp, hpeek]
    exact ⟨rfl, { c with position := Position.advance c.position (k + 1) }, rfl, rfl⟩

/-- Only here do frames come up. The mark is used up on both sides, with a subject or without. -/
theorem flush_alike (c : Cursor ι) :
    Alike f g view view' ((c.map f).perform .flush) ((c.map g).perform .flush) := by
  obtain ⟨subject, position, mark, config⟩ := c
  cases hf : config.framed with
  | false =>
    simp only [Cursor.perform, Cursor.flush, Cursor.isFramed, Cursor.map, hf]
    exact ⟨rfl, ⟨subject, position, mark, config⟩, rfl, rfl⟩
  | true =>
    simp only [Cursor.perform, Cursor.flush, Cursor.isFramed, Cursor.map, hf, if_true]
    cases mark with
    | none => exact ⟨rfl, ⟨subject, position, none, config⟩, rfl, rfl⟩
    | some start =>
      refine ⟨?_, ⟨subject, position, none, config⟩, ?_, ?_⟩
      · cases subject with
        | none => rfl
        | some x =>
          simp only [Reply.observe, Option.map_some, Answer.ofResult, Answer.map, h.extract]
      · cases subject <;> rfl
      · cases subject <;> rfl

theorem reset_alike (c : Cursor ι) (subject : Option ι) :
    Alike f g view view' ((c.map f).perform (.reset (subject.map f)))
      ((c.map g).perform (.reset (subject.map g))) := by
  have hdefect := h.defect?_eq subject
  cases hd : (subject.map g).bind Subject.defect? with
  | some d =>
    rw [hd] at hdefect
    simp only [Cursor.perform, Cursor.reset, hd, hdefect]
    exact ⟨rfl, c, rfl, rfl⟩
  | none =>
    rw [hd] at hdefect
    simp only [Cursor.perform, Cursor.reset, hd, hdefect]
    refine ⟨rfl, ⟨subject.or c.subject, 0, none, c.config⟩, ?_, ?_⟩
    · cases subject <;> rfl
    · cases subject <;> rfl

theorem perform_alike (c : Cursor ι) (call : Call ι) :
    Alike f g view view' ((c.map f).perform (call.map f)) ((c.map g).perform (call.map g)) := by
  cases call with
  | peek k =>
    simp only [Call.map, Cursor.perform, h.peek_eq]
    exact ⟨rfl, c, rfl, rfl⟩
  | next k => exact h.next_alike c k
  | atEnd k =>
    simp only [Call.map, Cursor.perform, h.atEnd_eq]
    exact ⟨rfl, c, rfl, rfl⟩
  | record => exact record_alike c
  | flush => exact h.flush_alike c
  | rewind => exact ⟨rfl, { c with position := 0, frameStart := none }, rfl, rfl⟩
  | reset subject => exact h.reset_alike c subject

theorem run_eq (c : Cursor ι) (calls : List (Call ι)) :
    ((c.map f).run (calls.map (Call.map f))).map (Reply.observe view) =
      ((c.map g).run (calls.map (Call.map g))).map (Reply.observe view') := by
  induction calls generalizing c with
  | nil => rfl
  | cons call calls ih =>
    obtain ⟨hseen, c', hf, hg⟩ := h.perform_alike c call
    simp only [List.map_cons, Cursor.run, hseen, hf, hg, ih]

theorem new_session_eq (subject : Option ι) (config : Config) (calls : List (Call ι)) :
    (Origin.new (subject.map f) config).session view (calls.map (Call.map f)) =
      (Origin.new (subject.map g) config).session view' (calls.map (Call.map g)) := by
  have hdefect := h.defect?_eq subject
  cases hd : (subject.map g).bind Subject.defect? with
  | some d =>
    rw [hd] at hdefect
    simp only [Origin.session, Origin.opening, Cursor.new, hd, hdefect]
  | none =>
    rw [hd] at hdefect
    have hrun := h.run_eq (Cursor.bind subject config) calls
    simp only [Origin.session, Origin.opening, Cursor.new, hd, hdefect]
    exact congrArg (Session.mk _ _) hrun

theorem session_eq (origin : Origin ι) (calls : List (Call ι)) :
    (origin.map f).session view (calls.map (Call.map f)) =
      (origin.map g).session view' (calls.map (Call.map g)) := by
  cases origin with
  | new subject config => exact h.new_session_eq subject config calls
  | unframed x => exact h.new_session_eq (some x) .default calls
  | framed x => exact h.new_session_eq (some x) .withFraming calls
  | unbound config => exact h.new_session_eq none config calls

end Interchangeable

end Simulation

theorem text_interchangeable :
    Interchangeable Text.ofChars Row.ofList (fun e => e.text.toList) id where
  length cs := congrArg some (Text.length_ofChars cs)
  elementAt cs i := Text.charAt_ofChars cs i
  isValid cs := congrArg (fun a => true && Option.isSome a) (Text.charAt_ofChars cs 0)
  extract cs span := Text.toList_extract_ofChars cs span

theorem sparse_interchangeable {α : Type} :
    Interchangeable (@Sparse.ofItems α) Row.ofList id (List.map some) where
  length as := Sparse.declaredLength_ofItems as
  elementAt as i := Sparse.get?_ofItems as i
  isValid as := congrArg (fun a => true && Option.isSome a) (Sparse.get?_ofItems as 0)
  extract as span := Sparse.extract_ofItems as span

/-- The frames of a text read as the frames of the row, and those of the sparse sequence hold the
same elements, none of them missing. -/
theorem adapters_interchangeable (origin : Origin (List Char)) (calls : List (Call (List Char))) :
    (origin.map Text.ofChars).session (fun e => e.text.toList) (calls.map (Call.map Text.ofChars)) =
        (origin.map Row.ofList).session id (calls.map (Call.map Row.ofList)) ∧
      (origin.map Sparse.ofItems).session id (calls.map (Call.map Sparse.ofItems)) =
        (origin.map Row.ofList).session (List.map some) (calls.map (Call.map Row.ofList)) :=
  ⟨text_interchangeable.session_eq origin calls, sparse_interchangeable.session_eq origin calls⟩

end FrameCursor
