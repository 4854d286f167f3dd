import FrameCursor.Proofs.Effect
import FrameCursor.Proofs.Reading

set_option autoImplicit false

namespace FrameCursor

variable {σ α φ : Type} [Subject σ α φ]

namespace Cursor

theorem subject_of_peek {c : Cursor σ} {k : Nat} {a : α} (h : c.peek k = some a) :
    ∃ s, c.subject = some s := by
  cases hs : c.subject with
  | some s => exact ⟨s, rfl⟩
  | none => simp [peek, hs] at h

structure Sound (c : Cursor σ) : Prop where
  position_le : c.position ≤ Position.ceiling
  unbound : c.subject = none → c.position = 0
  marked : ∀ f, c.frameStart = some f → c.isFramed = true ∧ f ≤ c.position

theorem sound_bind (subject : Option σ) (config : Config) : (bind subject config).Sound where
  position_le := Nat.zero_le _
  unbound _ := rfl
  marked := by simp [bind]

theorem Effect.config_eq {c c' : Cursor σ} {call : Call σ} (h : c.Effect call c') :
    c'.config = c.config := by
  cases h <;> rfl

theorem Effect.subject_eq {c c' : Cursor σ} {call : Call σ} (h : c.Effect call c') :
    c'.subject = (c.accepted call).or c.subject := by
  cases h with
  | refused _ hc => rcases hc with rfl | rfl <;> rfl
  | rewound _ hc => rcases hc with rfl | rfl <;> simp [accepted, reset_none_result]
  | rebound s hd => simp [accepted, (c.reset_some_of_sound hd).1, bind]
  | rejected s d hd => simp [accepted, (c.reset_some_of_defect hd).1]
  | _ => rfl

theorem Effect.position_le {c c' : Cursor σ} {call : Call σ} (h : c.Effect call c')
    (hp : c.position ≤ Position.ceiling) (hb : c.goesBack call = false) :
    c.position ≤ c'.position := by
  cases h with
  | moved k a _ => exact Position.le_advance _ hp
  | rewound _ hc => rcases hc with rfl | rfl <;> simp [goesBack, reset_none_result, Except.toBool] at hb
  | rebound s hd => simp [goesBack, (c.reset_some_of_sound hd).1, Except.toBool] at hb
  | _ => exact Nat.le_refl _

theorem Effect.sound {c c' : Cursor σ} {call : Call σ} (h : c.Effect call c') (hc : c.Sound) :
    c'.Sound := by
  cases h with
  | moved k a ha =>
    obtain ⟨s, hs⟩ := subject_of_peek ha
    refine ⟨Position.advance_le _ _, fun hn => ?_, fun f hf => ?_⟩
    · simp [hs] at hn
    · have hle := Position.le_advance (k + 1) hc.position_le
      exact ⟨(hc.marked f hf).1, Nat.le_trans (hc.marked f hf).2 hle⟩
  | recorded hf =>
    refine ⟨hc.position_le, hc.unbound, fun f hm => ?_⟩
    obtain rfl : c.position = f := by simpa using hm
    exact ⟨hf, Nat.le_refl _⟩
  | flushed _ => exact ⟨hc.position_le, hc.unbound, by simp⟩
  | rewound _ _ => exact ⟨Nat.zero_le _, fun _ => rfl, by simp⟩
  | rebound s hd => exact sound_bind _ _
  | _ => exact hc

def ReadsTo (c c' : Cursor σ) : Prop :=
  ∃ calls : List (Call σ), OnlyOnward calls ∧ c.after calls = c'

theorem Reads.readsTo {c c' : Cursor σ} {events : List Event} (h : c.Reads events c') :
    c.ReadsTo c' := by
  obtain ⟨calls, hcalls, ha, -⟩ := h
  exact ⟨calls, hcalls, ha⟩

theorem sound_after {c : Cursor σ} (calls : List (Call σ)) (hc : c.Sound) :
    (c.after calls).Sound := by
  induction calls generalizing c with
  | nil => exact hc
  | cons call calls ih => exact ih ((c.perform_effect call).sound hc)

theorem ReadsTo.sound {c c' : Cursor σ} (h : c.ReadsTo c') (hc : c.Sound) : c'.Sound := by
  obtain ⟨calls, -, rfl⟩ := h
  exact sound_after calls hc

theorem ReadsTo.onward {c c' : Cursor σ} (h : c.ReadsTo c') (hc : c.Sound) :
    c'.config = c.config ∧ c'.subject = c.subject ∧ c.position ≤ c'.position := by
  obtain ⟨calls, hcalls, rfl⟩ := h
  induction calls generalizing c with
  | nil => exact ⟨rfl, rfl, Nat.le_refl _⟩
  | cons call calls ih =>
    obtain ⟨hw, hr⟩ := hcalls call (by simp)
    have he := c.perform_effect call
    have ha : c.accepted call = none ∧ c.goesBack call = false := by
      cases call with
      | rewind => exact absurd rfl hw
      | reset s => exact absurd rfl (hr s)
      | _ => exact ⟨rfl, rfl⟩
    obtain ⟨hg, hs, hp⟩ := ih (he.sound hc) fun call h => hcalls call (by simp [h])
    have hsubject := he.subject_eq
    rw [ha.1, Option.none_or] at hsubject
    exact ⟨hg.trans he.config_eq, hs.trans hsubject,
      Nat.le_trans (he.position_le hc.position_le ha.2) hp⟩

theorem sound_words {c : Cursor Text} (hc : c.Sound) : c.words.cursor.Sound :=
  (reads_words c).readsTo.sound hc

theorem words_onward {c : Cursor Text} (hc : c.Sound) :
    c.words.cursor.config = c.config ∧ c.words.cursor.subject = c.subject ∧
      c.position ≤ c.words.cursor.position :=
  (reads_words c).readsTo.onward hc

theorem sound_act {c : Cursor σ} (action : Action σ) (hc : c.Sound) :
    (c.act action).cursor.Sound := by
  cases action with
  | perform call => exact (c.perform_effect call).sound hc
  | words => exact sound_words hc

theorem act_config {c : Cursor σ} (action : Action σ) (hc : c.Sound) :
    (c.act action).cursor.config = c.config := by
  cases action with
  | perform call => exact (c.perform_effect call).config_eq
  | words => exact (words_onward hc).1

theorem act_subject {c : Cursor σ} (action : Action σ) (hc : c.Sound) :
    (c.act action).cursor.subject = (action.call?.bind c.accepted).or c.subject := by
  cases action with
  | perform call => exact (c.perform_effect call).subject_eq
  | words => exact (words_onward hc).2.1

theorem le_act_position {c : Cursor σ} (action : Action σ) (hc : c.Sound)
    (hb : ∀ call, action = .perform call → c.goesBack call = false) :
    c.position ≤ (c.act action).cursor.position := by
  cases action with
  | perform call => exact (c.perform_effect call).position_le hc.position_le (hb call rfl)
  | words => exact (words_onward hc).2.2

theorem afterActions_append (c : Cursor σ) (first rest : List (Action σ)) :
    c.afterActions (first ++ rest) = (c.afterActions first).afterActions rest :=
  List.foldl_append

theorem sound_afterActions {c : Cursor σ} (actions : List (Action σ)) (hc : c.Sound) :
    (c.afterActions actions).Sound := by
  induction actions generalizing c with
  | nil => exact hc
  | cons action actions ih => exact ih (sound_act action hc)

theorem afterActions_config {c : Cursor σ} (actions : List (Action σ)) (hc : c.Sound) :
    (c.afterActions actions).config = c.config := by
  induction actions generalizing c with
  | nil => rfl
  | cons action actions ih => exact (ih (sound_act action hc)).trans (act_config action hc)

theorem afterActions_subject {c : Cursor σ} (actions : List (Action σ)) (hc : c.Sound) :
    (c.afterActions actions).subject = c.lastAccepted c.subject actions := by
  induction actions generalizing c with
  | nil => rfl
  | cons action actions ih =>
    simp only [lastAccepted, ← act_subject action hc]
    exact ih (sound_act action hc)

theorem defect?_of_accepted {c : Cursor σ} {call : Call σ} {s : σ}
    (h : c.accepted call = some s) : Subject.defect? s = none := by
  cases call with
  | reset subject =>
    cases subject with
    | none => simp [accepted, reset_none_result] at h
    | some s' =>
      cases hd : Subject.defect? s' with
      | none =>
        obtain rfl : s' = s := by simpa [accepted, (c.reset_some_of_sound hd).1] using h
        exact hd
      | some d => simp [accepted, (c.reset_some_of_defect hd).1] at h
  | _ => simp [accepted] at h

theorem defect?_of_lastAccepted {c : Cursor σ} {initial : Option σ} {actions : List (Action σ)}
    {s : σ} (hi : ∀ s, initial = some s → Subject.defect? s = none)
    (h : c.lastAccepted initial actions = some s) : Subject.defect? s = none := by
  induction actions generalizing c initial with
  | nil => exact hi s h
  | cons action actions ih =>
    refine ih (fun s' hs => ?_) h
    rcases Option.or_eq_some_iff.1 hs with ha | ⟨-, hs⟩
    · obtain ⟨call, -, ha⟩ := Option.bind_eq_some_iff.1 ha
      exact defect?_of_accepted ha
    · exact hi s' hs

def NeverBack (c : Cursor σ) (actions : List (Action σ)) : Prop :=
  ∀ i call, actions[i]? = some (.perform call) →
    (c.afterActions (actions.take i)).goesBack call = false

theorem le_afterActions_position {c : Cursor σ} {actions : List (Action σ)} (hc : c.Sound)
    (h : c.NeverBack actions) : c.position ≤ (c.afterActions actions).position := by
  induction actions generalizing c with
  | nil => exact Nat.le_refl _
  | cons action actions ih =>
    have head : c.position ≤ (c.act action).cursor.position :=
      le_act_position action hc fun call ha => h 0 call (by simp [ha])
    have tail : (c.act action).cursor.NeverBack actions := fun i call hi =>
      h (i + 1) call (by simpa using hi)
    exact Nat.le_trans head (ih (sound_act action hc) tail)

theorem sound_opening {origin : Origin σ} {start : Cursor σ}
    (h : origin.opening.result = .ok start) :
    start.Sound ∧ start.config = origin.config ∧ start.subject = origin.subject := by
  obtain ⟨rfl, -⟩ := Origin.opening_eq_ok h
  exact ⟨sound_bind _ _, rfl, rfl⟩

theorem Reachable.sound {c : Cursor σ} (h : c.Reachable) : c.Sound := by
  obtain ⟨origin, start, actions, ho, rfl⟩ := h
  exact sound_afterActions actions (sound_opening ho).1

theorem Reachable.defect?_eq_none {c : Cursor σ} {s : σ} (h : c.Reachable)
    (hs : c.subject = some s) : Subject.defect? s = none := by
  obtain ⟨origin, start, actions, ho, rfl⟩ := h
  obtain ⟨hstart, -, hsubject⟩ := sound_opening ho
  rw [afterActions_subject actions hstart, hsubject] at hs
  exact defect?_of_lastAccepted (Origin.opening_eq_ok ho).2 hs

/-- What is true of a cursor whatever has been done with it since it was made. -/
theorem reachable_invariant (origin : Origin σ) (start : Cursor σ) (actions : List (Action σ))
    (h : origin.opening.result = .ok start) :
    let c := start.afterActions actions
    c.config = origin.config ∧
    c.subject = start.lastAccepted origin.subject actions ∧
    (∀ s, c.subject = some s → Subject.isValid s = true) ∧
    (c.subject = none → c.position = 0 ∧ (c.frameStart = none ∨ c.frameStart = some 0)) ∧
    (∀ f, c.frameStart = some f → c.isFramed = true ∧ f ≤ c.position) ∧
    ∀ before stretch, actions = before ++ stretch →
      (start.afterActions before).NeverBack stretch →
        (start.afterActions before).position ≤ c.position := by
  obtain ⟨hstart, hconfig, hsubject⟩ := sound_opening h
  have hc := sound_afterActions actions hstart
  refine ⟨?_, ?_, fun s hs => ?_, fun hn => ⟨hc.unbound hn, ?_⟩, hc.marked, ?_⟩
  · rw [afterActions_config actions hstart, hconfig]
  · rw [afterActions_subject actions hstart, hsubject]
  · have hd := Reachable.defect?_eq_none ⟨origin, start, actions, h, rfl⟩ hs
    exact ((Subject.defect?_eq_none_iff s).1 hd).2
  · cases hf : (start.afterActions actions).frameStart with
    | none => exact .inl rfl
    | some f =>
      have hle := (hc.marked f hf).2
      rw [hc.unbound hn, Nat.le_zero] at hle
      exact .inr (by rw [hle])
  · rintro before stretch rfl hb
    rw [afterActions_append]
    exact le_afterActions_position (sound_afterActions before hstart) hb

/-- A cursor that has read a text to its end and goes back while a frame is open. -/
theorem reachable_invariant_split_text :
    let start : Cursor Text := bind (some (Text.ofString "añ b")) .withFraming
    let c := start.afterActions [.words, .perform .record, .perform .rewind]
    (Origin.framed (Text.ofString "añ b")).opening.result = .ok start ∧
      c.config = .withFraming ∧ (∀ s, c.subject = some s → Subject.isValid s = true) ∧
      ∀ f, c.frameStart = some f → c.isFramed = true ∧ f ≤ c.position := by
  intro start c
  have h := reachable_invariant (.framed (Text.ofString "añ b")) start
    [.words, .perform .record, .perform .rewind] rfl
  exact ⟨rfl, h.1, h.2.2.1, h.2.2.2.2.1⟩

end Cursor

end FrameCursor
