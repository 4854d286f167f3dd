import Mathlib.Data.List.Basic
import FrameCursor.Proofs.Reachable
import FrameCursor.Subject.Row

/-!
The traces of a run. A frame that is cut out is traced right after the record that it starts from, a
reset traces where it came from, and from one reset to the next the positions told of never go back
and end at or before the one that the reset came from. The log and the cursor keep this together: an
open frame is what the last trace says.
-/

set_option autoImplicit false

namespace FrameCursor

namespace Event

def mark? : Event → Option Nat
  | .recorded start => some start
  | .flushed _ stop => some stop
  | _ => none

def marks (events : List Event) : List Nat := events.filterMap mark?

def Unbroken (events : List Event) : Prop := ∀ source, .reset source ∉ events

structure Climbs (events : List Event) (bound : Nat) : Prop where
  ascending : (marks events).Pairwise (· ≤ ·)
  le_bound : ∀ m ∈ marks events, m ≤ bound

theorem climbs_nil (bound : Nat) : Climbs [] bound := ⟨.nil, by simp [marks]⟩

theorem Climbs.mono {events : List Event} {p q : Nat} (h : Climbs events p) (hpq : p ≤ q) :
    Climbs events q :=
  ⟨h.ascending, fun m hm => Nat.le_trans (h.le_bound m hm) hpq⟩

theorem Climbs.snoc {events : List Event} {e : Event} {p : Nat} (h : Climbs events p)
    (he : ∀ m, e.mark? = some m → m = p) : Climbs (events ++ [e]) p := by
  have hmarks : marks (events ++ [e]) = marks events ++ e.mark?.toList := by
    cases hm : e.mark? <;> simp [marks, hm]
  refine ⟨?_, fun m hm => ?_⟩
  · rw [hmarks, List.pairwise_append]
    refine ⟨h.ascending, ?_, fun m hm m' hm' => ?_⟩
    · cases e.mark? <;> simp
    · rw [he m' (by simpa using hm')]
      exact h.le_bound m hm
  · rw [hmarks, List.mem_append] at hm
    rcases hm with hm | hm
    · exact h.le_bound m hm
    · exact Nat.le_of_eq (he m (by simpa using hm))

theorem mem_traces {e : Event} {events : List Event} :
    e ∈ traces events ↔ e ∈ events ∧ e.level = .trace := by
  simp [traces]

end Event

theorem eq_of_snoc_eq {α : Type} {log before after : List α} {e x : α}
    (h : log ++ [e] = before ++ x :: after) :
    (before = log ∧ x = e ∧ after = []) ∨ ∃ rest, after = rest ++ [e] ∧ log = before ++ x :: rest := by
  rcases after.eq_nil_or_concat' with rfl | ⟨rest, last, rfl⟩
  · obtain ⟨rfl, he⟩ := List.append_inj' h rfl
    exact .inl ⟨rfl, (List.cons.inj he).1.symm, rfl⟩
  · rw [← List.cons_append, ← List.append_assoc] at h
    obtain ⟨rfl, he⟩ := List.append_inj' h rfl
    exact .inr ⟨rest, by rw [(List.cons.inj he).1], rfl⟩

variable {σ α φ : Type} [Subject σ α φ]

namespace Cursor

/-- What a call traces, and what that says about the cursors before and after it. -/
inductive Traces (c c' : Cursor σ) : List Event → Prop where
  | silent (hp : c.position ≤ c'.position)
      (hm : ∀ start, c'.frameStart = some start → c.frameStart = some start) : Traces c c' []
  | recorded (hp : c'.position = c.position) (hm : c'.frameStart = some c.position) :
      Traces c c' [.recorded c.position]
  | flushed (start : Nat) (hp : c'.position = c.position) (hs : c.frameStart = some start)
      (hm : c'.frameStart = none) : Traces c c' [.flushed start c.position]
  | reset (hm : c'.frameStart = none) : Traces c c' [.reset c.position]

theorem Step.traces {c : Cursor σ} {call : Call σ} {r : Reply σ (Answer α φ)}
    (h : c.Step call r) (hc : c.Sound) : c.Traces r.cursor (Event.traces r.events) := by
  cases h with
  | moved k a _ => exact .silent (Position.le_advance _ hc.position_le) fun _ h => h
  | recorded _ => exact .recorded rfl rfl
  | forfeited _ _ _ _ => exact .silent (Nat.le_refl _) (by simp)
  | flushed start _ _ hm _ => exact .flushed start rfl hm rfl
  | rewound _ _ | rebound _ _ => exact .reset rfl
  | _ => exact .silent (Nat.le_refl _) fun _ h => h

/-- The invariant of the traces so far and the cursor that they led to. The stretch since the last
reset stays open: its marks are bounded by the position, from which the next reset will come. -/
structure Bracketed (log : List Event) (c : Cursor σ) : Prop where
  flushed : ∀ before start stop after, log = before ++ .flushed start stop :: after →
    start ≤ stop ∧ before.getLast? = some (.recorded start)
  closed : ∀ before stretch source after, log = before ++ stretch ++ .reset source :: after →
    Event.Unbroken stretch → Event.Climbs stretch source
  pending : ∀ before stretch, log = before ++ stretch → Event.Unbroken stretch →
    Event.Climbs stretch c.position
  marked : ∀ start, c.frameStart = some start → log.getLast? = some (.recorded start)

theorem bracketed_nil {c : Cursor σ} (h : c.frameStart = none) : c.Bracketed [] where
  flushed before start stop after h := by simp at h
  closed before stretch source after h := by simp at h
  pending before stretch h _ := by
    obtain ⟨-, rfl⟩ := List.nil_eq_append_iff.1 h
    exact Event.climbs_nil _
  marked start hm := by simp [h] at hm

theorem Bracketed.silent {log : List Event} {c c' : Cursor σ} (h : c.Bracketed log)
    (hp : c.position ≤ c'.position)
    (hm : ∀ start, c'.frameStart = some start → c.frameStart = some start) : c'.Bracketed log where
  flushed := h.flushed
  closed := h.closed
  pending before stretch hl hu := (h.pending before stretch hl hu).mono hp
  marked start hs := h.marked start (hm start hs)

/-- One more event: a reset closes the stretch, and any other one tells of the position, where the
cursor stays. -/
theorem Bracketed.snoc {log : List Event} {c c' : Cursor σ} {e : Event} (h : c.Bracketed log)
    (hflush : ∀ start stop, e = .flushed start stop →
      start ≤ stop ∧ log.getLast? = some (.recorded start))
    (hreset : ∀ source, e = .reset source → source = c.position)
    (hmark : ∀ m, e.mark? = some m → m = c.position)
    (hp : (∀ source, e ≠ .reset source) → c'.position = c.position)
    (hm : ∀ start, c'.frameStart = some start → e = .recorded start) :
    c'.Bracketed (log ++ [e]) where
  flushed before start stop after hl := by
    rcases eq_of_snoc_eq hl with ⟨rfl, he, -⟩ | ⟨rest, -, hl⟩
    · exact hflush start stop he.symm
    · exact h.flushed before start stop rest hl
  closed before stretch source after hl hu := by
    rcases eq_of_snoc_eq hl with ⟨hl, he, -⟩ | ⟨rest, -, hl⟩
    · rw [hreset source he.symm]
      exact h.pending before stretch hl.symm hu
    · exact h.closed before stretch source rest hl hu
  pending before stretch hl hu := by
    rcases stretch.eq_nil_or_concat' with rfl | ⟨stretch, last, rfl⟩
    · exact Event.climbs_nil _
    · -- The new event ends the stretch, so it is no reset and the cursor has stayed.
      rw [← List.append_assoc] at hl
      obtain ⟨rfl, he⟩ := List.append_inj' hl rfl
      obtain rfl : e = last := (List.cons.inj he).1
      rw [hp fun source he => hu source (by simp [he])]
      exact (h.pending before stretch rfl fun source hs => hu source (by simp [hs])).snoc hmark
  marked start hs := by simp [hm start hs]

theorem Bracketed.step {log events : List Event} {c c' : Cursor σ} (h : c.Bracketed log)
    (hc : c.Sound) (ht : c.Traces c' events) : c'.Bracketed (log ++ events) := by
  cases ht with
  | silent hp hm =>
    rw [List.append_nil]
    exact h.silent hp hm
  | recorded hp hm =>
    refine h.snoc (by simp) (by simp) (by simp [Event.mark?]) (fun _ => hp) fun start hs => ?_
    rw [Option.some.inj (hm.symm.trans hs)]
  | flushed start hp hs hm =>
    refine h.snoc ?_ (by simp) (by simp [Event.mark?]) (fun _ => hp) (by simp [hm])
    -- The frame starts at the mark, which the last trace recorded.
    intro start' stop he
    obtain ⟨rfl, rfl⟩ := Event.flushed.inj he
    exact ⟨(hc.marked start hs).2, h.marked start hs⟩
  | reset hm =>
    refine h.snoc (by simp) (by simp) (by simp [Event.mark?]) (fun hn => ?_) (by simp [hm])
    exact absurd rfl (hn c.position)

theorem Bracketed.run {log : List Event} {c : Cursor σ} (h : c.Bracketed log) (hc : c.Sound)
    (calls : List (Call σ)) :
    (c.after calls).Bracketed (log ++ Event.traces (c.logged calls)) := by
  induction calls generalizing c log with
  | nil =>
    rw [logged, Cursor.run, List.flatMap_nil, Event.traces_nil, List.append_nil]
    exact h
  | cons call calls ih =>
    have hstep := h.step hc ((c.perform_step call).traces hc)
    rw [logged_cons, Event.traces_append, ← List.append_assoc]
    exact ih hstep ((c.perform_effect call).sound hc)

theorem Bracketed.reads {log events : List Event} {c c' : Cursor σ} (h : c.Bracketed log)
    (hc : c.Sound) (hr : c.Reads events c') : c'.Bracketed (log ++ Event.traces events) := by
  obtain ⟨calls, -, rfl, ht⟩ := hr
  rw [← ht]
  exact h.run hc calls

theorem Bracketed.words {log : List Event} {c : Cursor Text} (h : c.Bracketed log) (hc : c.Sound) :
    c.words.cursor.Bracketed (log ++ Event.traces c.words.events) :=
  h.reads hc (reads_words c)

theorem Bracketed.act {log : List Event} {c : Cursor σ} (h : c.Bracketed log) (hc : c.Sound)
    (action : Action σ) :
    (c.act action).cursor.Bracketed (log ++ Event.traces (c.act action).events) := by
  cases action with
  | perform call => exact h.step hc ((c.perform_step call).traces hc)
  | words => exact h.words hc

theorem Bracketed.actions {log : List Event} {c : Cursor σ} (h : c.Bracketed log) (hc : c.Sound)
    (actions : List (Action σ)) :
    (c.afterActions actions).Bracketed (log ++ Event.traces (c.log actions)) := by
  induction actions generalizing c log with
  | nil =>
    rw [Cursor.log, Event.traces_nil, List.append_nil]
    exact h
  | cons action actions ih =>
    have hact := h.act hc action
    rw [Cursor.log, Event.traces_append, ← List.append_assoc]
    exact ih hact (sound_act action hc)

theorem Step.source_eq {c : Cursor σ} {call : Call σ} {r : Reply σ (Answer α φ)} {source : Nat}
    (h : c.Step call r) (hs : .reset source ∈ r.events) : source = c.position := by
  cases h with
  | rewound _ _ | rebound _ _ => simpa using hs
  | _ => simp at hs

theorem Step.unbroken {c : Cursor σ} {call : Call σ} {r : Reply σ (Answer α φ)}
    (h : c.Step call r) (hw : call ≠ .rewind) (hr : ∀ s, call ≠ .reset s) :
    Event.Unbroken r.events := by
  cases h with
  | rewound _ hc =>
    rcases hc with rfl | rfl
    · exact absurd rfl hw
    · exact absurd rfl (hr none)
  | rebound s _ => exact absurd rfl (hr (some s))
  | _ => simp [Event.Unbroken]

theorem unbroken_logged {c : Cursor σ} {calls : List (Call σ)}
    (h : OnlyOnward calls) :
    Event.Unbroken (c.logged calls) := by
  induction calls generalizing c with
  | nil => simp [Event.Unbroken, logged, Cursor.run]
  | cons call calls ih =>
    obtain ⟨hw, hr⟩ := h call (by simp)
    have hhead := (c.perform_step call).unbroken hw hr
    intro source hmem
    rw [logged_cons, List.mem_append] at hmem
    rcases hmem with hmem | hmem
    · exact hhead source hmem
    · exact ih (fun call h' => h call (List.mem_cons_of_mem _ h')) source hmem

theorem Reads.unbroken {c c' : Cursor σ} {events : List Event} (h : c.Reads events c') :
    Event.Unbroken events := by
  obtain ⟨calls, hcalls, -, ht⟩ := h
  intro source hmem
  -- A reset would be a trace, and the traces are those of calls that do not go back.
  have htrace := Event.mem_traces.2 ⟨hmem, rfl⟩
  rw [← ht] at htrace
  exact unbroken_logged hcalls source (Event.mem_traces.1 htrace).1

theorem unbroken_words (c : Cursor Text) : Event.Unbroken c.words.events := (reads_words c).unbroken

theorem source_of_act {c : Cursor σ} {action : Action σ} {source : Nat}
    (h : .reset source ∈ (c.act action).events) : source = c.position := by
  cases action with
  | perform call => exact (c.perform_step call).source_eq h
  | words => exact absurd h (unbroken_words c source)

/-- The log of every run, from the making of the cursor on. What is said of a stretch without a
reset that one closes holds of the stretch between two resets, and of the one before the first. -/
theorem traces_well_bracketed (origin : Origin σ) (start : Cursor σ) (actions : List (Action σ))
    (h : origin.opening.result = .ok start) :
    let log := Event.traces (origin.opening.events ++ start.log actions)
    (∀ before a b after, log = before ++ .flushed a b :: after →
      a ≤ b ∧ before.getLast? = some (.recorded a)) ∧
    (∀ before action after, actions = before ++ action :: after →
      ∀ source, .reset source ∈ ((start.afterActions before).act action).events →
        source = (start.afterActions before).position) ∧
    (∀ before stretch source after, log = before ++ stretch ++ .reset source :: after →
      Event.Unbroken stretch →
        (Event.marks stretch).Pairwise (· ≤ ·) ∧ ∀ m ∈ Event.marks stretch, m ≤ source) ∧
    ∀ a, (start.afterActions actions).frameStart = some a →
      log.getLast? = some (.recorded a) := by
  obtain ⟨hc, -, -⟩ := sound_opening h
  have hstart : start.Bracketed [] := by
    obtain ⟨rfl, -⟩ := Origin.opening_eq_ok h
    exact bracketed_nil rfl
  have hb := hstart.actions hc actions
  rw [List.nil_append] at hb
  rw [Origin.opening_events h, List.nil_append]
  refine ⟨hb.flushed, ?_, fun before stretch source after hl hu => ?_, hb.marked⟩
  · rintro before action after rfl source hs
    exact source_of_act hs
  · have hclimb := hb.closed before stretch source after hl hu
    exact ⟨hclimb.ascending, hclimb.le_bound⟩

/-- A run with a refused reset between a record and its flush, and a record that a rewind drops. -/
theorem traces_well_bracketed_refused_reset :
    let start : Cursor (Row Nat) := bind (some (.ofList [10, 20, 30])) .withFraming
    let calls : List (Call (Row Nat)) :=
      [.record, .next 1, .reset (some (.ofList [])), .flush, .record, .rewind, .record]
    let actions := calls.map Action.perform
    let log : List Event :=
      [.recorded 0, .flushed 0 2, .recorded 2, .reset 2, .recorded 0]
    (Origin.framed (Row.ofList [10, 20, 30])).opening.result = .ok start ∧
      Event.traces (start.log actions) = log ∧ 0 ≤ 2 ∧
      (Event.marks [.recorded 0, .flushed 0 2, .recorded 2]).Pairwise (· ≤ ·) ∧
      (start.afterActions actions).frameStart = some 0 ∧ log.getLast? = some (.recorded 0) := by
  intro start calls actions log
  obtain ⟨hflush, -, hclosed, hmarked⟩ :=
    traces_well_bracketed (.framed (Row.ofList [10, 20, 30])) start actions rfl
  refine ⟨rfl, rfl, (hflush [.recorded 0] 0 2 _ rfl).1, ?_, rfl, hmarked 0 rfl⟩
  exact (hclosed [] [.recorded 0, .flushed 0 2, .recorded 2] 2 [.recorded 0] rfl
    (by simp [Event.Unbroken])).1

end Cursor

end FrameCursor
