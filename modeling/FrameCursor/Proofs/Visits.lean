import FrameCursor.Proofs.FrameContents

/-!
Runs of reads. The offsets alone say which positions the reads of a run would visit, each as far
beyond the one before as its read moves. The cursor keeps to these positions up to the first where
nothing can be read, and stays there: its reads find what stands at the positions before, and then
nothing any more.
-/

set_option autoImplicit false

namespace FrameCursor

/-- The position after the first `i` reads with these offsets, if each of them finds something. -/
def Position.visit (p : Nat) (offsets : List Nat) (i : Nat) : Nat :=
  (offsets.take i).foldl (fun q k => Position.advance q (k + 1)) p

@[simp] theorem Position.visit_zero (p : Nat) (offsets : List Nat) :
    Position.visit p offsets 0 = p := by
  simp [Position.visit]

@[simp] theorem Position.visit_cons_succ (p k : Nat) (offsets : List Nat) (i : Nat) :
    Position.visit p (k :: offsets) (i + 1) =
      Position.visit (Position.advance p (k + 1)) offsets i := by
  simp [Position.visit]

def Call.offset? {σ : Type} : Call σ → Option Nat
  | .next k => some k
  | _ => none

def Call.offsets {σ : Type} (calls : List (Call σ)) : List Nat := calls.filterMap Call.offset?

theorem Call.offsets_cons {σ : Type} (call : Call σ) (calls : List (Call σ)) :
    Call.offsets (call :: calls) = call.offset?.toList ++ Call.offsets calls := by
  cases h : call.offset? <;> simp [Call.offsets, h]

variable {σ α φ : Type} [Subject σ α φ]

namespace Subject

structure Readable (s : σ) (i : Nat) : Prop where
  within : ∃ n, length s = some n ∧ (n = 0 ∨ i < n)
  present : (elementAt s i).isSome = true

/-- Of the positions that the offsets visit from `p` on, the first that is not readable is number
`r`, or all are readable and `r` counts them. -/
structure ReadableUntil (s : σ) (p : Nat) (offsets : List Nat) (r : Nat) : Prop where
  le_length : r ≤ offsets.length
  readable : ∀ i, i < r → Readable s (Position.visit p offsets i)
  stop : r < offsets.length → ¬ Readable s (Position.visit p offsets r)

theorem ReadableUntil.cons {s : σ} {p k r : Nat} {offsets : List Nat} (h : Readable s p)
    (hr : ReadableUntil s (Position.advance p (k + 1)) offsets r) :
    ReadableUntil s p (k :: offsets) (r + 1) := by
  refine ⟨Nat.succ_le_succ hr.le_length, fun i hi => ?_, fun hlt => ?_⟩
  · cases i with
    | zero => exact h
    | succ i => exact hr.readable i (Nat.lt_of_succ_lt_succ hi)
  · exact hr.stop (Nat.lt_of_succ_lt_succ hlt)

theorem ReadableUntil.unique {s : σ} {p r r' : Nat} {offsets : List Nat}
    (h : ReadableUntil s p offsets r) (h' : ReadableUntil s p offsets r') : r = r' := by
  have hle := h.le_length
  have hle' := h'.le_length
  rcases Nat.lt_trichotomy r r' with hlt | heq | hgt
  · exact absurd (h'.readable r hlt) (h.stop (by omega))
  · exact heq
  · exact absurd (h.readable r' hgt) (h'.stop (by omega))

end Subject

namespace Cursor

structure Over (c : Cursor σ) (s : σ) : Prop where
  subject : c.subject = some s
  position_le : c.position ≤ Position.ceiling
  length : (Subject.length s).isSome = true

theorem Reachable.over {c : Cursor σ} {s : σ} (h : c.Reachable) (hs : c.subject = some s) :
    c.Over s :=
  ⟨hs, h.sound.position_le, ((Subject.defect?_eq_none_iff s).1 (h.defect?_eq_none hs)).1⟩

theorem Over.move {c : Cursor σ} {s : σ} (h : c.Over s) (k : Nat) :
    { c with position := Position.advance c.position k }.Over s :=
  ⟨h.subject, Position.advance_le _ _, h.length⟩

theorem Over.peek_eq_some_iff {c : Cursor σ} {s : σ} {a : α} (h : c.Over s) :
    c.peek 0 = some a ↔
      Subject.Readable s c.position ∧ Subject.elementAt s c.position = some a := by
  obtain ⟨n, hl⟩ := Option.isSome_iff_exists.1 h.length
  have hle := h.position_le
  have hadv : Position.advance c.position 0 = c.position := Position.advance_of_le hle
  have hend : c.atEnd 0 = false ↔ n = 0 ∨ c.position < n := by
    rw [← Bool.not_eq_true, atEnd_of_bound h.subject hl, hadv]
    omega
  rw [Cursor.peek_eq_some_iff h.subject, hend]
  constructor
  · rintro ⟨hn, -, ha⟩
    exact ⟨⟨⟨n, hl, hn⟩, by simp_all⟩, ha⟩
  · rintro ⟨⟨⟨n', hl', hn⟩, -⟩, ha⟩
    obtain rfl : n = n' := Option.some.inj (hl.symm.trans hl')
    exact ⟨hn, hle, ha⟩

theorem Over.not_readable {c : Cursor σ} {s : σ} (h : c.Over s) (hp : c.peek 0 = none) :
    ¬ Subject.Readable s c.position := by
  intro hr
  obtain ⟨a, ha⟩ := Option.isSome_iff_exists.1 hr.present
  have hsome := h.peek_eq_some_iff.2 ⟨hr, ha⟩
  simp [hp] at hsome

theorem perform_of_stalled {c : Cursor σ} {call : Call σ} (hp : c.peek 0 = none)
    (h : call.IsRead) : (c.perform call).cursor = c := by
  cases h with
  | peek k => rfl
  | atEnd k => rfl
  | next k => simp [perform, next, hp]

/-- Where nothing is found the cursor stays, whatever else is read. -/
theorem after_of_stalled {c : Cursor σ} {calls : List (Call σ)} (hp : c.peek 0 = none)
    (h : ∀ call ∈ calls, call.IsRead) : c.after calls = c := by
  induction calls with
  | nil => rfl
  | cons call calls ih =>
    have hstay := perform_of_stalled hp (h call (by simp))
    change (c.perform call).cursor.after calls = c
    rw [hstay]
    exact ih fun call hmem => h call (by simp [hmem])

theorem run_of_stalled {c : Cursor σ} {calls : List (Call σ)} {t k : Nat} (hp : c.peek 0 = none)
    (h : ∀ call ∈ calls, call.IsRead) (hcall : calls[t]? = some (.next k)) :
    ∃ reply, (c.run calls)[t]? = some reply ∧ reply.result = .element none := by
  have hstay : c.atStep calls t = c :=
    after_of_stalled hp fun call hmem => h call (List.mem_of_mem_take hmem)
  refine ⟨c.perform (.next k), ?_, ?_⟩
  · rw [getElem?_run, hcall, hstay, Option.map_some]
  · simp [perform, next, hp]

/-- How a run of reads goes if number `r` is the first position that it cannot read. -/
structure Follows (c : Cursor σ) (s : σ) (calls : List (Call σ)) (r : Nat) : Prop where
  reach : Subject.ReadableUntil s c.position (Call.offsets calls) r
  after_eq : c.after calls =
    { c with position := Position.visit c.position (Call.offsets calls) r }
  answers : ∀ t k i, calls[t]? = some (.next k) → (Call.offsets (calls.take t)).length = i →
    ∃ reply, (c.run calls)[t]? = some reply ∧ reply.result = .element
      (if i < r then Subject.elementAt s (Position.visit c.position (Call.offsets calls) i)
        else none)

theorem follows_nil (c : Cursor σ) (s : σ) : c.Follows s [] 0 where
  reach := ⟨Nat.le_refl _, by simp, by simp [Call.offsets]⟩
  after_eq := by simp [after]
  answers := by simp

theorem Follows.quiet {c : Cursor σ} {s : σ} {calls : List (Call σ)} {r : Nat} {call : Call σ}
    (h : c.Follows s calls r) (hstay : (c.perform call).cursor = c) (hq : call.offset? = none) :
    c.Follows s (call :: calls) r := by
  have hoffsets : ∀ calls : List (Call σ), Call.offsets (call :: calls) = Call.offsets calls := by
    intro calls
    simp [Call.offsets_cons, hq]
  refine ⟨?_, ?_, fun t k i hcall hi => ?_⟩
  · rw [hoffsets]
    exact h.reach
  · change (c.perform call).cursor.after calls = _
    rw [hstay, hoffsets]
    exact h.after_eq
  · cases t with
    | zero =>
      obtain rfl : call = .next k := by simpa using hcall
      simp [Call.offset?] at hq
    | succ t =>
      rw [List.take_succ_cons, hoffsets] at hi
      rw [hoffsets, run, hstay, List.getElem?_cons_succ]
      exact h.answers t k i (by simpa using hcall) hi

theorem Over.follows_stalled {c : Cursor σ} {s : σ} {calls : List (Call σ)} (h : c.Over s)
    (hp : c.peek 0 = none) (hcalls : ∀ call ∈ calls, call.IsRead) : c.Follows s calls 0 where
  reach := ⟨Nat.zero_le _, by simp, fun _ => by simpa using h.not_readable hp⟩
  after_eq := by
    rw [after_of_stalled hp hcalls]
    simp
  answers t k i hcall _ := by simpa using run_of_stalled hp hcalls hcall

theorem Over.follows_moved {c : Cursor σ} {s : σ} {calls : List (Call σ)} {k r : Nat} {a : α}
    (h : c.Over s) (ha : c.peek 0 = some a)
    (hr : { c with position := Position.advance c.position (k + 1) }.Follows s calls r) :
    c.Follows s (.next k :: calls) (r + 1) := by
  obtain ⟨hreadable, hget⟩ := h.peek_eq_some_iff.1 ha
  have hmove : (c.perform (.next k)).cursor =
      { c with position := Position.advance c.position (k + 1) } := by
    simp [perform, next_of_peek k ha]
  have hoffsets : ∀ calls : List (Call σ),
      Call.offsets (.next k :: calls) = k :: Call.offsets calls := fun _ => rfl
  refine ⟨hr.reach.cons hreadable, ?_, fun t j i hcall hi => ?_⟩
  · change (c.perform (.next k)).cursor.after calls = _
    rw [hmove, hr.after_eq, hoffsets, Position.visit_cons_succ]
  · cases t with
    | zero =>
      obtain rfl : k = j := by simpa using hcall
      obtain rfl : 0 = i := by simpa [Call.offsets] using hi
      exact ⟨_, rfl, by simp [perform, next_of_peek k ha, hget]⟩
    | succ t =>
      rw [List.take_succ_cons, hoffsets, List.length_cons] at hi
      subst hi
      rw [hoffsets, run, hmove, List.getElem?_cons_succ, Position.visit_cons_succ]
      simpa using hr.answers t j _ (by simpa using hcall) rfl

theorem Over.follows {c : Cursor σ} {s : σ} {calls : List (Call σ)} (h : c.Over s)
    (hcalls : ∀ call ∈ calls, call.IsRead) : ∃ r, c.Follows s calls r := by
  -- A read that moves adds one to what the calls after it give; the first that does not ends it.
  induction calls generalizing c with
  | nil => exact ⟨0, follows_nil c s⟩
  | cons call calls ih =>
    have hrest : ∀ call ∈ calls, call.IsRead := fun call hmem => hcalls call (by simp [hmem])
    cases hcalls call (by simp) with
    | peek k =>
      obtain ⟨r, hr⟩ := ih h hrest
      exact ⟨r, hr.quiet rfl rfl⟩
    | atEnd k =>
      obtain ⟨r, hr⟩ := ih h hrest
      exact ⟨r, hr.quiet rfl rfl⟩
    | next k =>
      cases hp : c.peek 0 with
      | none => exact ⟨0, h.follows_stalled hp hcalls⟩
      | some a =>
        obtain ⟨r, hr⟩ := ih (h.move (k + 1)) hrest
        exact ⟨r + 1, h.follows_moved hp hr⟩

/-- Reads find what stands at the positions that their offsets visit, one after the other up to the
first that cannot be read. There the cursor stays for good, and nothing is found any more. -/
theorem reads_follow_visits {c : Cursor σ} {s : σ} (hc : c.Reachable) (hs : c.subject = some s) :
    (∀ calls : List (Call σ), (∀ call ∈ calls, call.IsRead) →
      ∃ r, c.Follows s calls r ∧ ∀ r', Subject.ReadableUntil s c.position (Call.offsets calls) r' →
        r' = r) ∧
    ∀ k, (c.next k).1 = none → (c.next k).2 = c ∧
      ∀ later : List (Call σ), (∀ call ∈ later, call.IsRead) → c.after later = c ∧
        ∀ t j : Nat, later[t]? = some (.next j) →
          ∃ reply, (c.run later)[t]? = some reply ∧ reply.result = .element none := by
  refine ⟨fun calls hcalls => ?_, fun k hk => ?_⟩
  · obtain ⟨r, hr⟩ := (hc.over hs).follows hcalls
    exact ⟨r, hr, fun r' hr' => hr'.unique hr.reach⟩
  · have hp : c.peek 0 = none := by
      cases hp : c.peek 0 with
      | none => rfl
      | some a => simp [next, hp] at hk
    refine ⟨by simp [next, hp], fun later hlater => ⟨after_of_stalled hp hlater, ?_⟩⟩
    intro t j hcall
    exact run_of_stalled hp hlater hcall

/-- A hole within the length stops the reads, although there is an element after it. -/
theorem reads_follow_visits_to_hole :
    let s : Sparse Nat := (Sparse.ofEntries [(0, 10), (3, 40), (9, 90)]).withLength 12
    let c : Cursor (Sparse Nat) := bind (some s) .default
    let calls : List (Call (Sparse Nat)) := [.next 2, .peek 5, .next 1, .atEnd 8, .next 3]
    c.Reachable ∧ (∀ call ∈ calls, call.IsRead) ∧ c.Follows s calls 2 ∧
      (c.after calls).position = 5 ∧ ((c.after calls).next 3).1 = none ∧
      ((c.after calls).after [.next 0, .peek 4]) = c.after calls := by
  intro s c calls
  have hc : c.Reachable := ⟨.unframed s, c, [], rfl, rfl⟩
  have hcalls : ∀ call ∈ calls, call.IsRead := by
    simp [calls, Call.IsRead.next, Call.IsRead.peek, Call.IsRead.atEnd]
  have huntil : Subject.ReadableUntil s 0 (Call.offsets calls) 2 := by
    refine ⟨by decide, fun i hi => ?_, fun _ h => ?_⟩
    · obtain rfl | rfl : i = 0 ∨ i = 1 := by omega
      · exact ⟨⟨12, rfl, .inr (by decide)⟩, rfl⟩
      · exact ⟨⟨12, rfl, .inr (by decide)⟩, rfl⟩
    · cases h.present
  obtain ⟨r, hr, hunique⟩ := (reads_follow_visits hc rfl).1 calls hcalls
  obtain rfl : 2 = r := hunique 2 huntil
  have hstop : c.after calls = { c with position := 5 } := hr.after_eq
  have hc' : (c.after calls).Reachable :=
    ⟨.unframed s, c, calls.map .perform, rfl, rfl⟩
  have hnone : ((c.after calls).next 3).1 = none := by
    rw [hstop]
    rfl
  have hstay := ((reads_follow_visits hc' (s := s) (by rw [hstop]; rfl)).2 3 hnone).2
    [.next 0, .peek 4] (by simp [Call.IsRead.next, Call.IsRead.peek])
  exact ⟨hc, hcalls, hr, by rw [hstop], hnone, hstay.1⟩

end Cursor

end FrameCursor
