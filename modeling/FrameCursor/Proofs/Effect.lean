import FrameCursor.Cursor.History

/-!
What one call does. `Cursor.Step` lists every case with its guard and the whole reply, and
`Cursor.perform_step` says that there are no others. `Cursor.Effect` keeps of it what happens to the
cursor. What holds of all runs is proved from these by one case for each way a call can go.
-/

set_option autoImplicit false

namespace FrameCursor

variable {σ α φ : Type} [Subject σ α φ]

theorem Cursor.new_eq_ok {subject : Option σ} {config : Config} {c : Cursor σ}
    (h : (Cursor.new subject config).result = .ok c) :
    c = bind subject config ∧ ∀ s, subject = some s → Subject.defect? s = none := by
  cases subject with
  | none =>
    simp only [new, Option.bind_none, Except.ok.injEq] at h
    exact ⟨h.symm, by simp⟩
  | some s =>
    cases hd : Subject.defect? s with
    | some d => simp [new, hd] at h
    | none =>
      simp only [new, Option.bind_some, hd, Except.ok.injEq] at h
      exact ⟨h.symm, by simp [hd]⟩

theorem Cursor.new_of_fit {subject : Option σ} (config : Config)
    (h : ∀ s, subject = some s → Subject.defect? s = none) :
    new subject config = ⟨.ok (bind subject config), []⟩ := by
  cases subject with
  | none => rfl
  | some s => simp [new, h s rfl]

theorem Cursor.new_events {subject : Option σ} {config : Config} {c : Cursor σ}
    (h : (new subject config).result = .ok c) : (new subject config).events = [] := by
  rw [new_of_fit config (new_eq_ok h).2]

theorem Origin.opening_eq_ok {origin : Origin σ} {c : Cursor σ}
    (h : origin.opening.result = .ok c) :
    c = Cursor.bind origin.subject origin.config ∧
      ∀ s, origin.subject = some s → Subject.defect? s = none := by
  cases origin with
  | new subject config => exact Cursor.new_eq_ok h
  | unframed s => exact Cursor.new_eq_ok h
  | framed s => exact Cursor.new_eq_ok h
  | unbound config =>
    simp only [opening, Except.ok.injEq] at h
    exact ⟨h.symm, by simp [subject]⟩

theorem Origin.opening_events {origin : Origin σ} {c : Cursor σ}
    (h : origin.opening.result = .ok c) : origin.opening.events = [] := by
  cases origin with
  | new subject config => exact Cursor.new_events h
  | unframed s => exact Cursor.new_events h
  | framed s => exact Cursor.new_events h
  | unbound config => rfl

namespace Cursor

theorem reset_none_result (c : Cursor σ) : (c.reset none).result = .ok () := rfl

theorem reset_some_of_sound {s : σ} (c : Cursor σ) (h : Subject.defect? s = none) :
    (c.reset (some s)).result = .ok () ∧
      (c.reset (some s)).cursor = bind (some s) c.config := by
  simp [reset, rewind, bind, h]

theorem reset_some_of_defect {s : σ} {d : Defect} (c : Cursor σ)
    (h : Subject.defect? s = some d) :
    (c.reset (some s)).result = .error (.ofDefect d) ∧ (c.reset (some s)).cursor = c := by
  simp [reset, h]

/-- The ways in which a call can go, each under its guard, with its reply. -/
inductive Step (c : Cursor σ) : Call σ → Reply σ (Answer α φ) → Prop where
  | peeked (k : Nat) : Step c (.peek k) ⟨.element (c.peek k), c, []⟩
  | asked (k : Nat) : Step c (.atEnd k) ⟨.flag (c.atEnd k), c, []⟩
  | stayed (k : Nat) (h : c.peek 0 = none) : Step c (.next k) ⟨.element none, c, []⟩
  | moved (k : Nat) (a : α) (h : c.peek 0 = some a) :
      Step c (.next k)
        ⟨.element (some a), { c with position := Position.advance c.position (k + 1) }, []⟩
  | recordRefused (h : c.isFramed = false) :
      Step c .record ⟨.failed .framingDisabled, c, [.refused .record]⟩
  | recorded (h : c.isFramed = true) :
      Step c .record ⟨.done, { c with frameStart := some c.position }, [.recorded c.position]⟩
  | flushRefused (h : c.isFramed = false) :
      Step c .flush ⟨.failed .framingDisabled, c, [.refused .flush]⟩
  | unmarked (h : c.isFramed = true) (hm : c.frameStart = none) :
      Step c .flush ⟨.failed .emptyFrame, c, []⟩
  | forfeited (start : Nat) (h : c.isFramed = true) (hm : c.frameStart = some start)
      (hs : c.subject = none) :
      Step c .flush ⟨.failed .emptyFrame, { c with frameStart := none }, []⟩
  | flushed (start : Nat) (s : σ) (h : c.isFramed = true) (hm : c.frameStart = some start)
      (hs : c.subject = some s) :
      Step c .flush ⟨.frame (Subject.extract s ⟨start, c.position⟩), { c with frameStart := none },
        [.flushed start c.position]⟩
  | rewound (call : Call σ) (hc : call = .rewind ∨ call = .reset none) :
      Step c call ⟨.done, { c with position := 0, frameStart := none }, [.reset c.position]⟩
  | rebound (s : σ) (h : Subject.defect? s = none) :
      Step c (.reset (some s)) ⟨.done, bind (some s) c.config, [.reset c.position]⟩
  | rejected (s : σ) (d : Defect) (h : Subject.defect? s = some d) :
      Step c (.reset (some s)) ⟨.failed (.ofDefect d), c, [.rejected d]⟩

theorem next_step (c : Cursor σ) (k : Nat) : c.Step (.next k) (c.perform (.next k)) := by
  cases hp : c.peek 0 with
  | none => simpa [perform, next, hp] using Step.stayed k hp
  | some a => simpa [perform, next, hp] using Step.moved k a hp

theorem record_step (c : Cursor σ) : c.Step .record (c.perform .record) := by
  cases hf : c.isFramed with
  | false => simpa [perform, record, hf, Answer.ofResult] using Step.recordRefused hf
  | true => simpa [perform, record, hf, Answer.ofResult] using Step.recorded hf

theorem flush_step (c : Cursor σ) : c.Step .flush (c.perform .flush) := by
  cases hf : c.isFramed with
  | false => simpa [perform, flush, hf, Answer.ofResult] using Step.flushRefused hf
  | true =>
    cases hm : c.frameStart with
    | none => simpa [perform, flush, hf, hm, Answer.ofResult] using Step.unmarked hf hm
    | some start =>
      cases hs : c.subject with
      | none =>
        simpa [perform, flush, hf, hm, hs, Answer.ofResult] using Step.forfeited start hf hm hs
      | some s =>
        simpa [perform, flush, hf, hm, hs, Answer.ofResult] using Step.flushed start s hf hm hs

theorem reset_step (c : Cursor σ) (subject : Option σ) :
    c.Step (.reset subject) (c.perform (.reset subject)) := by
  cases subject with
  | none => exact .rewound (.reset none) (.inr rfl)
  | some s =>
    cases hd : Subject.defect? s with
    | none => simpa [perform, reset, rewind, bind, hd, Answer.ofResult] using Step.rebound s hd
    | some d => simpa [perform, reset, hd, Answer.ofResult] using Step.rejected s d hd

theorem perform_step (c : Cursor σ) (call : Call σ) : c.Step call (c.perform call) := by
  cases call with
  | peek k => exact .peeked k
  | atEnd k => exact .asked k
  | next k => exact c.next_step k
  | record => exact c.record_step
  | flush => exact c.flush_step
  | rewind => exact .rewound .rewind (.inl rfl)
  | reset subject => exact c.reset_step subject

inductive Effect (c : Cursor σ) : Call σ → Cursor σ → Prop where
  | peeked (k : Nat) : Effect c (.peek k) c
  | asked (k : Nat) : Effect c (.atEnd k) c
  | stayed (k : Nat) (h : c.peek 0 = none) : Effect c (.next k) c
  | moved (k : Nat) (a : α) (h : c.peek 0 = some a) :
      Effect c (.next k) { c with position := Position.advance c.position (k + 1) }
  | refused (call : Call σ) (hc : call = .record ∨ call = .flush) (h : c.isFramed = false) :
      Effect c call c
  | recorded (h : c.isFramed = true) : Effect c .record { c with frameStart := some c.position }
  | flushed (h : c.isFramed = true) : Effect c .flush { c with frameStart := none }
  | rewound (call : Call σ) (hc : call = .rewind ∨ call = .reset none) :
      Effect c call { c with position := 0, frameStart := none }
  | rebound (s : σ) (h : Subject.defect? s = none) :
      Effect c (.reset (some s)) (bind (some s) c.config)
  | rejected (s : σ) (d : Defect) (h : Subject.defect? s = some d) :
      Effect c (.reset (some s)) c

theorem flush_cursor_of_framed {c : Cursor σ} (h : c.isFramed = true) :
    c.flush.cursor = { c with frameStart := none } := by
  obtain ⟨subject, position, mark, config⟩ := c
  cases mark with
  | none => simp [flush, h]
  | some start => cases subject <;> simp [flush, h]

theorem Step.effect {c : Cursor σ} {call : Call σ} {r : Reply σ (Answer α φ)}
    (h : c.Step call r) : c.Effect call r.cursor := by
  cases h with
  | peeked k => exact .peeked k
  | asked k => exact .asked k
  | stayed k hp => exact .stayed k hp
  | moved k a hp => exact .moved k a hp
  | recordRefused hf => exact .refused .record (.inl rfl) hf
  | recorded hf => exact .recorded hf
  | flushRefused hf => exact .refused .flush (.inr rfl) hf
  | unmarked hf hm =>
    -- Clearing the mark changes nothing here, so this flush falls under those that clear it.
    have hsame : { c with frameStart := none } = c := by rw [← hm]
    have he : c.Effect .flush { c with frameStart := none } := .flushed hf
    rwa [hsame] at he
  | forfeited _ hf _ _ => exact .flushed hf
  | flushed _ _ hf _ _ => exact .flushed hf
  | rewound call hc => exact .rewound call hc
  | rebound s hd => exact .rebound s hd
  | rejected s d hd => exact .rejected s d hd

theorem perform_effect (c : Cursor σ) (call : Call σ) : c.Effect call (c.perform call).cursor :=
  (c.perform_step call).effect

end Cursor

end FrameCursor
