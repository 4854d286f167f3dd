import FrameCursor.Proofs.Effect
import FrameCursor.Subject.Declared

set_option autoImplicit false

namespace FrameCursor

def Subject.JudgedByDefault (σ : Type) {α φ : Type} [Subject σ α φ] : Prop :=
  ∀ s : σ, isValid s = ((length s).isSome && (elementAt s 0).isSome)

variable {σ α φ β : Type} [Subject σ α φ]

/-- The answer to a subject that is to be bound: exactly a valid one is taken, and the missing length
is what is reported wherever the length is missing. -/
structure Judges (s : σ) (result : Except CursorError β) : Prop where
  accepts_iff : (∃ b, result = .ok b) ↔ Subject.isValid s = true
  noLength : Subject.length s = none → result = .error (.invalidInput "subject has no length")
  noFirst : Subject.length s ≠ none → Subject.isValid s = false →
    result = .error (.invalidInput "subject has no element at index 0")

/-- What a failure logs: one event of level debug where a subject or a framing call is refused, and
nothing where there is no frame. No call fails over a configuration. -/
def LoggedFor (events : List Event) : CursorError → Prop
  | .invalidInput _ | .framingDisabled => ∃ event, events = [event] ∧ event.level = .debug
  | .emptyFrame => events = []
  | .config _ => False

theorem Subject.length_of_valid {s : σ} (h : JudgedByDefault σ) (hv : isValid s = true) :
    (length s).isSome = true := by
  rw [h s, Bool.and_eq_true] at hv
  exact hv.1

theorem judges_of_defect? {s : σ} {result : Except CursorError β}
    (h : Subject.JudgedByDefault σ)
    (hok : Subject.defect? s = none → ∃ b, result = .ok b)
    (herr : ∀ d, Subject.defect? s = some d → result = .error (.ofDefect d)) :
    Judges s result := by
  refine ⟨⟨?_, fun hv => ?_⟩, fun hl => ?_, fun hl hv => ?_⟩
  · rintro ⟨b, hb⟩
    cases hd : Subject.defect? s with
    | none => exact ((Subject.defect?_eq_none_iff s).1 hd).2
    | some d => simp [herr d hd] at hb
  · exact hok ((Subject.defect?_eq_none_iff s).2 ⟨Subject.length_of_valid h hv, hv⟩)
  · exact herr .noLength (by simp [Subject.defect?, hl])
  · exact herr .noFirstElement (by simp [Subject.defect?, hl, hv])

theorem Origin.opening_eq_new {origin : Origin σ} {s : σ} (h : origin.subject = some s) :
    origin.opening = Cursor.new (some s) origin.config := by
  cases origin with
  | new subject config =>
    obtain rfl : subject = some s := h
    rfl
  | unframed s' =>
    obtain rfl : s' = s := Option.some.inj h
    rfl
  | framed s' =>
    obtain rfl : s' = s := Option.some.inj h
    rfl
  | unbound config => simp [subject] at h

namespace Cursor

theorem new_of_sound {s : σ} (config : Config) (h : Subject.defect? s = none) :
    new (some s) config = ⟨.ok (bind (some s) config), []⟩ :=
  new_of_fit config (by simpa using h)

theorem new_of_defect {s : σ} {d : Defect} (config : Config) (h : Subject.defect? s = some d) :
    new (some s) config = ⟨.error (.ofDefect d), [.rejected d]⟩ := by
  simp [new, h]

/-- A flush that fails and yet uses up the mark: there is a frame, but nothing to cut it out of. -/
structure Forfeits (c : Cursor σ) (call : Call σ) : Prop where
  isFlush : call = .flush
  framed : c.isFramed = true
  unbound : c.subject = none
  marked : c.frameStart ≠ none

theorem Step.cursor_of_failed {c : Cursor σ} {call : Call σ} {r : Reply σ (Answer α φ)}
    {e : CursorError} (h : c.Step call r) (hr : r.result = .failed e) (hn : ¬ c.Forfeits call) :
    r.cursor = c := by
  cases h with
  | forfeited start hf hm hs => exact absurd ⟨rfl, hf, hs, by simp [hm]⟩ hn
  | moved _ _ _ | recorded _ | flushed _ _ _ _ _ | rewound _ _ | rebound _ _ => cases hr
  | _ => rfl

theorem Forfeits.perform_eq {c : Cursor σ} {call : Call σ} (h : c.Forfeits call) :
    c.perform call = ⟨.failed .emptyFrame, { c with frameStart := none }, []⟩ := by
  obtain ⟨rfl, hf, hs, hm⟩ := h
  obtain ⟨start, hm⟩ := Option.ne_none_iff_exists'.1 hm
  simp [perform, flush, hf, hs, hm, Answer.ofResult]

theorem Step.loggedFor {c : Cursor σ} {call : Call σ} {r : Reply σ (Answer α φ)}
    {e : CursorError} (h : c.Step call r) (hr : r.result = .failed e) : LoggedFor r.events e := by
  cases h with
  | recordRefused _ | flushRefused _ | rejected _ _ _ =>
    cases hr
    exact ⟨_, rfl, rfl⟩
  | unmarked _ _ | forfeited _ _ _ _ =>
    cases hr
    rfl
  | _ => cases hr

end Cursor

theorem Origin.judges {origin : Origin σ} {s : σ} (h : Subject.JudgedByDefault σ)
    (hs : origin.subject = some s) : Judges s origin.opening.result := by
  rw [opening_eq_new hs]
  refine judges_of_defect? h (fun hd => ?_) fun d hd => ?_
  · exact ⟨_, by rw [Cursor.new_of_sound origin.config hd]⟩
  · rw [Cursor.new_of_defect origin.config hd]

theorem Cursor.loggedFor_new {subject : Option σ} {config : Config} {e : CursorError}
    (h : (new subject config).result = .error e) : LoggedFor (new subject config).events e := by
  cases hd : subject.bind Subject.defect? with
  | none => simp [new, hd] at h
  | some d =>
    obtain rfl : CursorError.ofDefect d = e := by simpa [new, hd] using h
    simp only [new, hd]
    exact ⟨_, rfl, rfl⟩

theorem Origin.loggedFor {origin : Origin σ} {e : CursorError}
    (h : origin.opening.result = .error e) : LoggedFor origin.opening.events e := by
  cases origin with
  | new subject config => exact Cursor.loggedFor_new h
  | unframed s => exact Cursor.loggedFor_new h
  | framed s => exact Cursor.loggedFor_new h
  | unbound config => simp [opening] at h

/-- Every way of making a cursor and every reset take the same subjects and refuse the others in the
same words. Any cursor, however it came about, is left as it was by a call that fails, but for the
mark that a flush without a subject uses up. -/
theorem failures_exact_and_atomic :
    (Subject.JudgedByDefault σ → ∀ s : σ,
      (∀ origin : Origin σ, origin.subject = some s → Judges s origin.opening.result) ∧
      ∀ c : Cursor σ, Judges s (c.reset (some s)).result) ∧
    (∀ (c : Cursor σ) (call : Call σ) (e : CursorError), (c.perform call).result = .failed e →
      ¬ c.Forfeits call → (c.perform call).cursor = c) ∧
    (∀ (c : Cursor σ) (call : Call σ), c.Forfeits call →
      c.perform call = ⟨.failed .emptyFrame, { c with frameStart := none }, []⟩) ∧
    (∀ (origin : Origin σ) (e : CursorError), origin.opening.result = .error e →
      LoggedFor origin.opening.events e) ∧
    ∀ (c : Cursor σ) (call : Call σ) (e : CursorError), (c.perform call).result = .failed e →
      LoggedFor (c.perform call).events e := by
  refine ⟨fun h s => ⟨fun origin hs => Origin.judges h hs, fun c => ?_⟩, ?_, ?_, ?_, ?_⟩
  · refine judges_of_defect? h (fun hd => ⟨(), (c.reset_some_of_sound hd).1⟩) fun d hd => ?_
    exact (c.reset_some_of_defect hd).1
  · intro c call e h hn
    exact (c.perform_step call).cursor_of_failed h hn
  · intro c call h
    exact h.perform_eq
  · intro origin e h
    exact Origin.loggedFor h
  · intro c call e h
    exact (c.perform_step call).loggedFor h

/-- A cursor without a subject that holds a mark refuses a subject that has neither a length nor a
first element, and then loses the mark to a flush. -/
theorem failures_exact_and_atomic_without_subject :
    let c : Cursor (Declared Nat) := ⟨none, 0, some 0, .withFraming⟩
    let s : Declared Nat := ⟨none, [none]⟩
    Subject.JudgedByDefault (Declared Nat) ∧
      (c.reset (some s)).result = .error (.invalidInput "subject has no length") ∧
      (c.perform (.reset (some s))).cursor = c ∧
      LoggedFor (c.perform (.reset (some s))).events (.invalidInput "subject has no length") ∧
      c.Forfeits .flush ∧ (c.perform .flush).cursor = ⟨none, 0, none, .withFraming⟩ := by
  intro c s
  have hdefault : Subject.JudgedByDefault (Declared Nat) := fun _ => rfl
  have hfailed : (c.perform (.reset (some s))).result =
      .failed (.invalidInput "subject has no length") := rfl
  have hforfeit : c.Forfeits .flush := ⟨rfl, rfl, rfl, by simp [c]⟩
  obtain ⟨hjudges, hkept, hflush, -, hlogged⟩ := failures_exact_and_atomic (σ := Declared Nat)
  refine ⟨hdefault, ((hjudges hdefault s).2 c).noLength rfl, ?_, hlogged c _ _ hfailed,
    hforfeit, by rw [hflush c _ hforfeit]⟩
  exact hkept c _ _ hfailed fun h => by simpa using h.isFlush

end FrameCursor
