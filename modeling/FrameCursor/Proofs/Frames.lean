import FrameCursor.Proofs.Reachable
import FrameCursor.Subject.Row

/-!
The frame protocol over whole runs. A record stays open until a flush, a rewind or a successful
reset; the mark that a cursor carries is the position of the latest open record, and a flush cuts
out what lies between that position and its own.
-/

set_option autoImplicit false

namespace FrameCursor

variable {σ α φ : Type} [Subject σ α φ]

namespace Cursor

def atStep (c : Cursor σ) (calls : List (Call σ)) (i : Nat) : Cursor σ := c.after (calls.take i)

def dropsFrame (c : Cursor σ) : Call σ → Bool
  | .flush => true
  | call => c.goesBack call

/-- Step `r` recorded, and no step between it and step `t` used the record up. -/
structure OpenRecord (c : Cursor σ) (calls : List (Call σ)) (t r : Nat) : Prop where
  lt : r < t
  isRecord : calls[r]? = some .record
  succeeded : (c.atStep calls r).record.result = .ok ()
  kept : ∀ i call, r < i → i < t → calls[i]? = some call →
    (c.atStep calls i).dropsFrame call = false

structure LatestRecord (c : Cursor σ) (calls : List (Call σ)) (t r : Nat) : Prop where
  isOpen : c.OpenRecord calls t r
  latest : ∀ r', c.OpenRecord calls t r' → r' ≤ r

theorem atStep_succ_of_some {c : Cursor σ} {calls : List (Call σ)} {t : Nat} {call : Call σ}
    (h : calls[t]? = some call) :
    c.atStep calls (t + 1) = ((c.atStep calls t).perform call).cursor := by
  simp [atStep, after, List.take_add_one, h]

theorem atStep_succ_of_none {c : Cursor σ} {calls : List (Call σ)} {t : Nat}
    (h : calls[t]? = none) : c.atStep calls (t + 1) = c.atStep calls t := by
  simp [atStep, List.take_add_one, h]

theorem getElem?_run (c : Cursor σ) (calls : List (Call σ)) (t : Nat) :
    (c.run calls)[t]? = calls[t]?.map (c.atStep calls t).perform := by
  induction calls generalizing c t with
  | nil => simp [run]
  | cons call calls ih =>
    cases t with
    | zero => simp [run, atStep, after]
    | succ t => exact ih (c.perform call).cursor t

theorem record_result (c : Cursor σ) : c.record.result = .ok () ↔ c.isFramed = true := by
  cases h : c.isFramed <;> simp [record, h]

/-- A step adds an open record if it records, and drops all of them if it uses them up. -/
theorem openRecord_succ {c : Cursor σ} {calls : List (Call σ)} {t r : Nat} :
    c.OpenRecord calls (t + 1) r ↔
      (c.OpenRecord calls t r ∧
        ∀ call, calls[t]? = some call → (c.atStep calls t).dropsFrame call = false) ∨
      (r = t ∧ calls[t]? = some .record ∧ (c.atStep calls t).record.result = .ok ()) := by
  constructor
  · rintro ⟨hlt, hr, hs, hk⟩
    by_cases he : r = t
    · subst he
      exact .inr ⟨rfl, hr, hs⟩
    · have hlt : r < t := by omega
      refine .inl ⟨⟨hlt, hr, hs, fun i call hi ht => hk i call hi (by omega)⟩, fun call hc => ?_⟩
      exact hk t call hlt (Nat.lt_succ_self t) hc
  · rintro (⟨⟨hlt, hr, hs, hk⟩, hd⟩ | ⟨rfl, hr, hs⟩)
    · refine ⟨by omega, hr, hs, fun i call hi ht hc => ?_⟩
      by_cases he : i = t
      · subst he
        exact hd call hc
      · exact hk i call hi (by omega) hc
    · exact ⟨Nat.lt_succ_self r, hr, hs, fun i call hi ht => by omega⟩

theorem Effect.frameStart_of_drops {c c' : Cursor σ} {call : Call σ} (h : c.Effect call c')
    (hc : c.Sound) (hd : c.dropsFrame call = true) : c'.frameStart = none := by
  cases h with
  | refused _ _ hf =>
    -- Without framing no mark was ever set.
    cases hm : c.frameStart with
    | none => rfl
    | some f => simp [(hc.marked f hm).1] at hf
  | flushed _ => rfl
  | rewound _ _ => rfl
  | rebound _ _ => rfl
  | rejected s d hs =>
    simp [dropsFrame, goesBack, (c.reset_some_of_defect hs).1, Except.toBool] at hd
  | _ => simp [dropsFrame, goesBack] at hd

theorem Effect.frameStart_of_keeps {c c' : Cursor σ} {call : Call σ} (h : c.Effect call c')
    (hd : c.dropsFrame call = false) (hr : call = .record → c.isFramed = false) :
    c'.frameStart = c.frameStart := by
  cases h with
  | recorded hf => simp [hf] at hr
  | flushed _ => simp [dropsFrame] at hd
  | rewound _ hcall =>
    rcases hcall with rfl | rfl <;> simp [dropsFrame, goesBack, reset_none_result, Except.toBool] at hd
  | rebound s hs => simp [dropsFrame, goesBack, (c.reset_some_of_sound hs).1, Except.toBool] at hd
  | _ => rfl

theorem sound_atStep {c : Cursor σ} (calls : List (Call σ)) (t : Nat) (hc : c.Sound) :
    (c.atStep calls t).Sound :=
  sound_after _ hc

/-- The invariant that carries the mark through a run: without an open record there is none, and
else it is the position of the latest. -/
def MarkFollows (c : Cursor σ) (calls : List (Call σ)) (t : Nat) : Prop :=
  ((c.atStep calls t).frameStart = none ∧ ∀ r, ¬ c.OpenRecord calls t r) ∨
    ∃ r, c.LatestRecord calls t r ∧
      (c.atStep calls t).frameStart = some (c.atStep calls r).position

theorem MarkFollows.keep {c : Cursor σ} {calls : List (Call σ)} {t : Nat}
    (h : c.MarkFollows calls t)
    (ho : ∀ r, c.OpenRecord calls (t + 1) r ↔ c.OpenRecord calls t r)
    (hm : (c.atStep calls (t + 1)).frameStart = (c.atStep calls t).frameStart) :
    c.MarkFollows calls (t + 1) := by
  rcases h with ⟨hn, hnone⟩ | ⟨r, hl, hf⟩
  · exact .inl ⟨hm.trans hn, fun r h => hnone r ((ho r).1 h)⟩
  · refine .inr ⟨r, ⟨(ho r).2 hl.isOpen, fun r' h => ?_⟩, hm.trans hf⟩
    exact hl.latest r' ((ho r').1 h)

theorem markFollows_of_drops {c : Cursor σ} {calls : List (Call σ)} {t : Nat} {call : Call σ}
    (hc : c.Sound) (hcall : calls[t]? = some call)
    (hd : (c.atStep calls t).dropsFrame call = true) : c.MarkFollows calls (t + 1) := by
  have he := (c.atStep calls t).perform_effect call
  refine .inl ⟨?_, fun r h => ?_⟩
  · rw [atStep_succ_of_some hcall]
    exact he.frameStart_of_drops (sound_atStep calls t hc) hd
  · rcases openRecord_succ.1 h with ⟨-, hk⟩ | ⟨rfl, hr, -⟩
    · simp [hk call hcall] at hd
    · obtain rfl : call = .record := Option.some.inj (hcall.symm.trans hr)
      simp [dropsFrame, goesBack] at hd

theorem markFollows_of_record {c : Cursor σ} {calls : List (Call σ)} {t : Nat}
    (hcall : calls[t]? = some .record) (hf : (c.atStep calls t).isFramed = true) :
    c.MarkFollows calls (t + 1) := by
  have ho : c.OpenRecord calls (t + 1) t :=
    openRecord_succ.2 (.inr ⟨rfl, hcall, (record_result _).2 hf⟩)
  refine .inr ⟨t, ⟨ho, fun r h => Nat.le_of_lt_succ h.lt⟩, ?_⟩
  rw [atStep_succ_of_some hcall]
  simp [perform, record, hf]

theorem MarkFollows.of_keeps {c : Cursor σ} {calls : List (Call σ)} {t : Nat} {call : Call σ}
    (h : c.MarkFollows calls t) (hcall : calls[t]? = some call)
    (hd : (c.atStep calls t).dropsFrame call = false)
    (hr : call = .record → (c.atStep calls t).isFramed = false) :
    c.MarkFollows calls (t + 1) := by
  have he := (c.atStep calls t).perform_effect call
  refine h.keep (fun r => ⟨fun h => ?_, fun h => ?_⟩) ?_
  · rcases openRecord_succ.1 h with ⟨h, -⟩ | ⟨rfl, hc, hs⟩
    · exact h
    · have hf := hr (Option.some.inj (hcall.symm.trans hc))
      simp [(record_result _).1 hs] at hf
  · refine openRecord_succ.2 (.inl ⟨h, fun call' hc => ?_⟩)
    obtain rfl : call = call' := Option.some.inj (hcall.symm.trans hc)
    exact hd
  · rw [atStep_succ_of_some hcall]
    exact he.frameStart_of_keeps hd hr

theorem markFollows {c : Cursor σ} (calls : List (Call σ)) (t : Nat) (hc : c.Sound)
    (hm : c.frameStart = none) : c.MarkFollows calls t := by
  induction t with
  | zero => exact .inl ⟨hm, fun r h => Nat.not_lt_zero r h.lt⟩
  | succ t ih =>
    cases hcall : calls[t]? with
    | none =>
      refine ih.keep (fun r => ?_) (by rw [atStep_succ_of_none hcall])
      simp [openRecord_succ, hcall]
    | some call =>
      cases hd : (c.atStep calls t).dropsFrame call with
      | true => exact markFollows_of_drops hc hcall hd
      | false =>
        by_cases hr : call = .record ∧ (c.atStep calls t).isFramed = true
        · obtain ⟨rfl, hf⟩ := hr
          exact markFollows_of_record hcall hf
        · exact ih.of_keeps hcall hd fun h => by simpa [h] using hr

theorem MarkFollows.frameStart_of_latest {c : Cursor σ} {calls : List (Call σ)} {t r : Nat}
    (h : c.MarkFollows calls t) (hr : c.LatestRecord calls t r) :
    (c.atStep calls t).frameStart = some (c.atStep calls r).position := by
  rcases h with ⟨-, ho⟩ | ⟨r', hl, hf⟩
  · exact absurd hr.isOpen (ho r)
  · obtain rfl : r = r' := Nat.le_antisymm (hl.latest r hr.isOpen) (hr.latest r' hl.isOpen)
    exact hf

theorem MarkFollows.eq_some_iff {c : Cursor σ} {calls : List (Call σ)} {t p : Nat}
    (h : c.MarkFollows calls t) :
    (c.atStep calls t).frameStart = some p ↔
      ∃ r, c.LatestRecord calls t r ∧ (c.atStep calls r).position = p := by
  constructor
  · intro hp
    rcases h with ⟨hn, -⟩ | ⟨r, hl, hf⟩
    · simp [hn] at hp
    · exact ⟨r, hl, Option.some.inj (hf.symm.trans hp)⟩
  · rintro ⟨r, hl, rfl⟩
    exact h.frameStart_of_latest hl

theorem MarkFollows.eq_none_iff {c : Cursor σ} {calls : List (Call σ)} {t : Nat}
    (h : c.MarkFollows calls t) :
    (c.atStep calls t).frameStart = none ↔ ¬ ∃ r, c.OpenRecord calls t r := by
  rcases h with ⟨hn, ho⟩ | ⟨r, hl, hf⟩
  · exact iff_of_true hn fun ⟨r, h⟩ => ho r h
  · exact iff_of_false (by simp [hf]) fun h => h ⟨r, hl.isOpen⟩

theorem LatestRecord.of_failed_reset {c : Cursor σ} {calls : List (Call σ)} {t r : Nat}
    {subject : Option σ} (h : c.LatestRecord calls t r)
    (hcall : calls[t]? = some (.reset subject))
    (hf : ((c.atStep calls t).reset subject).result ≠ .ok ()) :
    c.LatestRecord calls (t + 1) r := by
  have hd : (c.atStep calls t).dropsFrame (.reset subject) = false := by
    cases hr : ((c.atStep calls t).reset subject).result with
    | ok _ => exact absurd hr hf
    | error e => simp [dropsFrame, goesBack, hr, Except.toBool]
  refine ⟨openRecord_succ.2 (.inl ⟨h.isOpen, fun call hc => ?_⟩), fun r' hr => ?_⟩
  · obtain rfl : .reset subject = call := Option.some.inj (hcall.symm.trans hc)
    exact hd
  · rcases openRecord_succ.1 hr with ⟨ho, -⟩ | ⟨-, hc, -⟩
    · exact h.latest r' ho
    · simp [hcall] at hc

theorem flush_of_marked {c : Cursor σ} {s : σ} {start : Nat} (hf : c.isFramed = true)
    (hs : c.subject = some s) (hm : c.frameStart = some start) :
    c.flush.result = .ok (Subject.extract s ⟨start, c.position⟩) := by
  simp [flush, hf, hs, hm]

theorem flush_of_unframed {c : Cursor σ} (h : c.isFramed = false) :
    c.flush.result = .error .framingDisabled := by
  simp [flush, h]

theorem flush_of_empty {c : Cursor σ} (hf : c.isFramed = true)
    (h : c.subject = none ∨ c.frameStart = none) : c.flush.result = .error .emptyFrame := by
  cases hm : c.frameStart with
  | none => simp [flush, hf, hm]
  | some start =>
    have hs : c.subject = none := by simpa [hm] using h
    simp [flush, hf, hm, hs]

/-- What the reply to a flush at step `t` of a run is, told from the steps before it. -/
structure FlushAnswers (c : Cursor σ) (calls : List (Call σ)) (t : Nat)
    (reply : Reply σ (Answer α φ)) : Prop where
  succeeds_iff : (∃ frame, reply.result = .frame frame) ↔
    (c.atStep calls t).isFramed = true ∧ (c.atStep calls t).subject ≠ none ∧
      ∃ r, c.OpenRecord calls t r
  frame : ∀ s r, (c.atStep calls t).isFramed = true → (c.atStep calls t).subject = some s →
    c.LatestRecord calls t r →
      (c.atStep calls r).position ≤ (c.atStep calls t).position ∧
      reply.result = .frame
        (Subject.extract s ⟨(c.atStep calls r).position, (c.atStep calls t).position⟩) ∧
      reply.cursor = { c.atStep calls t with frameStart := none }
  unframed : (c.atStep calls t).isFramed = false → reply.result = .failed .framingDisabled
  empty : (c.atStep calls t).isFramed = true →
    (c.atStep calls t).subject = none ∨ (¬ ∃ r, c.OpenRecord calls t r) →
      reply.result = .failed .emptyFrame

theorem MarkFollows.flushAnswers {c : Cursor σ} {calls : List (Call σ)} {t : Nat}
    (h : c.MarkFollows calls t) (hc : (c.atStep calls t).Sound) :
    c.FlushAnswers calls t ((c.atStep calls t).perform .flush) := by
  have hframe : ∀ s r, (c.atStep calls t).isFramed = true → (c.atStep calls t).subject = some s →
      c.LatestRecord calls t r → ((c.atStep calls t).perform .flush).result = .frame
        (Subject.extract s ⟨(c.atStep calls r).position, (c.atStep calls t).position⟩) := by
    intro s r hf hs hl
    simp [perform, flush_of_marked hf hs (h.frameStart_of_latest hl), Answer.ofResult]
  have hempty : (c.atStep calls t).isFramed = true →
      (c.atStep calls t).subject = none ∨ (¬ ∃ r, c.OpenRecord calls t r) →
        ((c.atStep calls t).perform .flush).result = .failed .emptyFrame := by
    intro hf he
    simp [perform, flush_of_empty hf (he.imp id h.eq_none_iff.2), Answer.ofResult]
  have hunframed : (c.atStep calls t).isFramed = false →
      ((c.atStep calls t).perform .flush).result = .failed .framingDisabled := by
    intro hf
    simp [perform, flush_of_unframed hf, Answer.ofResult]
  refine ⟨⟨?_, ?_⟩, ?_, hunframed, hempty⟩
  · rintro ⟨frame, hr⟩
    cases hf : (c.atStep calls t).isFramed with
    | false => simp [hunframed hf] at hr
    | true =>
      refine ⟨rfl, fun hs => ?_, Classical.byContradiction fun ho => ?_⟩
      · simp [hempty hf (.inl hs)] at hr
      · simp [hempty hf (.inr ho)] at hr
  · rintro ⟨hf, hs, r, ho⟩
    obtain ⟨s, hs⟩ := Option.ne_none_iff_exists'.1 hs
    rcases h with ⟨-, hno⟩ | ⟨r, hl, -⟩
    · exact absurd ho (hno r)
    · exact ⟨_, hframe s r hf hs hl⟩
  · intro s r hf hs hl
    have hle := (hc.marked _ (h.frameStart_of_latest hl)).2
    exact ⟨hle, hframe s r hf hs hl, flush_cursor_of_framed hf⟩

/-- At every step of every run the mark is where the latest open record stood, and a flush cuts out
what lies between. -/
theorem frame_protocol (origin : Origin σ) (start : Cursor σ) (calls : List (Call σ)) (t : Nat)
    (h : origin.opening.result = .ok start) :
    (∀ p, (start.atStep calls t).frameStart = some p ↔
      ∃ r, start.LatestRecord calls t r ∧ (start.atStep calls r).position = p) ∧
    ((start.atStep calls t).frameStart = none ↔ ¬ ∃ r, start.OpenRecord calls t r) ∧
    (∀ subject r, calls[t]? = some (.reset subject) →
      ((start.atStep calls t).reset subject).result ≠ .ok () →
        start.LatestRecord calls t r → start.LatestRecord calls (t + 1) r) ∧
    (calls[t]? = some .flush → ∃ reply, (start.run calls)[t]? = some reply ∧
      start.FlushAnswers calls t reply) := by
  obtain ⟨rfl, -⟩ := Origin.opening_eq_ok h
  have hc : (bind origin.subject origin.config).Sound := sound_bind _ _
  have hm := markFollows calls t hc rfl
  refine ⟨fun p => hm.eq_some_iff, hm.eq_none_iff, ?_, fun hcall => ?_⟩
  · intro subject r hcall hf hl
    exact hl.of_failed_reset hcall hf
  · refine ⟨_, ?_, hm.flushAnswers (sound_atStep calls t hc)⟩
    simp [getElem?_run, hcall]

/-- The third step's reset is refused, so that the flush still finds the first step's record. -/
theorem frame_protocol_refused_reset :
    let start : Cursor (Row Nat) := bind (some (.ofList [10, 20, 30])) .withFraming
    let calls : List (Call (Row Nat)) := [.record, .next 1, .reset (some (.ofList [])), .flush]
    (Origin.framed (Row.ofList [10, 20, 30])).opening.result = .ok start ∧
      (∃ r, start.LatestRecord calls 3 r ∧ (start.atStep calls r).position = 0) ∧
      ∃ reply, (start.run calls)[3]? = some reply ∧ start.FlushAnswers calls 3 reply ∧
        reply.result = .frame [10, 20] := by
  intro start calls
  have h := frame_protocol (.framed (Row.ofList [10, 20, 30])) start calls 3 rfl
  obtain ⟨reply, hr, ha⟩ := h.2.2.2 rfl
  refine ⟨rfl, (h.1 0).1 rfl, reply, hr, ha, ?_⟩
  obtain rfl := Option.some.inj hr
  rfl

end Cursor

end FrameCursor
