import FrameCursor.Proofs.Reachable

set_option autoImplicit false

namespace FrameCursor

variable {σ α φ : Type} [Subject σ α φ]

namespace Cursor

/-- A cursor in the very state of one that is made over `subject`, which no later run of actions
tells from it. -/
def LikeFresh (c : Cursor σ) (subject : Option σ) (config : Config) : Prop :=
  ∃ fresh : Cursor σ, (new subject config).result = .ok fresh ∧ c = fresh ∧
    ∀ later, c.replies later = fresh.replies later

theorem likeFresh_bind {subject : Option σ} (config : Config)
    (h : ∀ s, subject = some s → Subject.defect? s = none) :
    (bind subject config).LikeFresh subject config :=
  ⟨_, by rw [new_of_fit config h], rfl, fun _ => rfl⟩

theorem defect?_of_reset {c : Cursor σ} {s : σ} (h : (c.reset (some s)).result = .ok ()) :
    Subject.defect? s = none := by
  cases hd : Subject.defect? s with
  | none => rfl
  | some d => simp [(c.reset_some_of_defect hd).1] at h

theorem rewind_cursor (c : Cursor σ) : c.rewind.cursor = bind c.subject c.config := rfl

/-- What is left of a run: the configuration, and the last subject that was taken. -/
theorem afterActions_remains {origin : Origin σ} {start : Cursor σ} (actions : List (Action σ))
    (h : origin.opening.result = .ok start) :
    (start.afterActions actions).config = origin.config ∧
      (start.afterActions actions).subject = start.lastAccepted origin.subject actions := by
  obtain ⟨hc, hconfig, hsubject⟩ := sound_opening h
  exact ⟨(afterActions_config actions hc).trans hconfig,
    (afterActions_subject actions hc).trans (by rw [hsubject])⟩

theorem reset_cursor {origin : Origin σ} {start : Cursor σ} (actions : List (Action σ)) {s : σ}
    (h : origin.opening.result = .ok start) (hd : Subject.defect? s = none) :
    ((start.afterActions actions).reset (some s)).cursor = bind (some s) origin.config := by
  rw [(reset_some_of_sound _ hd).2, (afterActions_remains actions h).1]

theorem rewound_cursor {origin : Origin σ} {start : Cursor σ} (actions : List (Action σ))
    (h : origin.opening.result = .ok start) :
    (start.afterActions actions).rewind.cursor =
      bind (start.lastAccepted origin.subject actions) origin.config := by
  obtain ⟨hconfig, hsubject⟩ := afterActions_remains actions h
  rw [rewind_cursor, hconfig, hsubject]

theorem defect?_of_last {origin : Origin σ} {start : Cursor σ} {actions : List (Action σ)} {s : σ}
    (h : origin.opening.result = .ok start)
    (hs : start.lastAccepted origin.subject actions = some s) : Subject.defect? s = none :=
  defect?_of_lastAccepted (Origin.opening_eq_ok h).2 hs

/-- After a reset or a rewind the cursor is a fresh one, so that two histories under one
configuration that end in the same reset, or in a rewind over the same subject, are not told
apart. -/
theorem reset_forgets (origin : Origin σ) (start : Cursor σ) (actions : List (Action σ))
    (h : origin.opening.result = .ok start) :
    let c := start.afterActions actions
    let last := start.lastAccepted origin.subject actions
    (∀ s, (c.reset (some s)).result = .ok () →
      (c.reset (some s)).cursor.LikeFresh (some s) origin.config) ∧
    c.rewind.cursor.LikeFresh last origin.config ∧
    (c.reset none).result = .ok () ∧ (c.reset none).cursor.LikeFresh last origin.config ∧
    (last = none → c.rewind.cursor = unbound origin.config ∧
      (c.reset none).cursor = unbound origin.config) ∧
    ∀ (origin' : Origin σ) (start' : Cursor σ) (actions' : List (Action σ)),
      origin'.opening.result = .ok start' → origin'.config = origin.config →
        let c' := start'.afterActions actions'
        (∀ s, (c.reset (some s)).result = .ok () →
          (c'.reset (some s)).result = .ok () ∧
          (c'.reset (some s)).cursor = (c.reset (some s)).cursor ∧
          ∀ later, (c'.reset (some s)).cursor.replies later =
            (c.reset (some s)).cursor.replies later) ∧
        (start'.lastAccepted origin'.subject actions' = last →
          c'.rewind.cursor = c.rewind.cursor ∧ (c'.reset none).cursor = (c.reset none).cursor ∧
          ∀ later, c'.rewind.cursor.replies later = c.rewind.cursor.replies later) := by
  have hrewound := rewound_cursor actions h
  have hfit : ∀ s, start.lastAccepted origin.subject actions = some s →
      Subject.defect? s = none := fun s => defect?_of_last h
  have hfresh := likeFresh_bind origin.config hfit
  rw [← hrewound] at hfresh
  refine ⟨fun s hs => ?_, hfresh, rfl, hfresh, fun hn => ?_, ?_⟩
  · have hd := defect?_of_reset hs
    rw [reset_cursor actions h hd]
    refine likeFresh_bind origin.config fun s' hs' => ?_
    obtain rfl : s = s' := Option.some.inj hs'
    exact hd
  · rw [hn] at hrewound
    exact ⟨hrewound, hrewound⟩
  · -- Both histories end in the fresh cursor, in which nothing of them is left.
    intro origin' start' actions' h' hconfig
    refine ⟨fun s hs => ?_, fun hlast => ?_⟩
    · have hd := defect?_of_reset hs
      have hsame : ((start'.afterActions actions').reset (some s)).cursor =
          ((start.afterActions actions).reset (some s)).cursor := by
        rw [reset_cursor actions h hd, reset_cursor actions' h' hd, hconfig]
      exact ⟨(reset_some_of_sound _ hd).1, hsame, fun later => by rw [hsame]⟩
    · have hsame : (start'.afterActions actions').rewind.cursor =
          (start.afterActions actions).rewind.cursor := by
        rw [hrewound, rewound_cursor actions' h', hlast, hconfig]
      exact ⟨hsame, hsame, fun later => by rw [hsame]⟩

/-- One history splits a text and opens a frame, and the other has only been refused a subject. -/
theorem reset_forgets_splitting :
    let start : Cursor Text := bind (some (.ofString "a b")) .withFraming
    let start' : Cursor Text := unbound .withFraming
    let s := Text.ofString "c"
    let c := start.afterActions [.words, .perform .record]
    let c' := start'.afterActions [.perform .record, .perform (.reset (some (.ofString "")))]
    (c.reset (some s)).result = .ok () ∧
      (c.reset (some s)).cursor.LikeFresh (some s) .withFraming ∧
      (c'.reset (some s)).cursor = (c.reset (some s)).cursor ∧
      c.rewind.cursor.LikeFresh (some (.ofString "a b")) .withFraming ∧
      c'.rewind.cursor = unbound .withFraming := by
  have hd : Subject.defect? (Text.ofString "c") = none := rfl
  intro start start' s c c'
  have hs : (c.reset (some s)).result = .ok () := (c.reset_some_of_sound hd).1
  have h := reset_forgets (.framed (Text.ofString "a b")) start [.words, .perform .record] rfl
  have h' := reset_forgets (.unbound .withFraming) start'
    [.perform .record, .perform (.reset (some (.ofString "")))] rfl
  obtain ⟨hreset, hrewind, -, -, -, hsame⟩ := h
  obtain ⟨-, -, -, -, hunbound, -⟩ := h'
  refine ⟨hs, hreset s hs, ?_, hrewind, (hunbound rfl).1⟩
  exact ((hsame (.unbound .withFraming) start' _ rfl rfl).1 s hs).2.1

end Cursor

end FrameCursor
