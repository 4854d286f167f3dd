import Mathlib.Data.Finset.Card
import FrameCursor.Cursor.Sweep
import FrameCursor.Proofs.Frames
import FrameCursor.Subject.Sparse

/-!
Reads move on. A read that finds something leaves the cursor further on, and so no position is read
twice and reading over and over comes to an end, with one exception: a subject that declares length
zero never ends, and where it stores something at the last position a cursor there cannot move.
-/

set_option autoImplicit false

namespace FrameCursor

variable {σ α φ : Type} [Subject σ α φ]

def Subject.LengthFits (s : σ) : Prop :=
  ∀ n, length s = some n → n ≤ Position.ceiling

namespace Cursor

theorem atEnd_of_bound {c : Cursor σ} {s : σ} {n k : Nat} (hs : c.subject = some s)
    (hl : Subject.length s = some n) :
    c.atEnd k = true ↔ 0 < n ∧ n ≤ Position.advance c.position k := by
  simp [atEnd, hs, hl]

theorem peek_eq_some_iff {c : Cursor σ} {s : σ} {k : Nat} {a : α} (hs : c.subject = some s) :
    c.peek k = some a ↔ c.atEnd k = false ∧ c.position + k ≤ Position.ceiling ∧
      Subject.elementAt s (c.position + k) = some a := by
  cases he : c.atEnd k with
  | true => simp [peek, he]
  | false =>
    by_cases hle : c.position + k ≤ Position.ceiling
    · simp [peek, he, Position.ahead?, hle, hs]
    · simp [peek, he, Position.ahead?, hle]

theorem next_of_peek {c : Cursor σ} {a : α} (k : Nat) (h : c.peek 0 = some a) :
    c.next k = (some a, { c with position := Position.advance c.position (k + 1) }) := by
  simp [next, h]

theorem peek_of_next {c : Cursor σ} {k : Nat} {a : α} (h : (c.next k).1 = some a) :
    c.peek 0 = some a := by
  cases hp : c.peek 0 with
  | none => simp [next, hp] at h
  | some b => simpa [next, hp] using h

theorem element_of_next {c : Cursor σ} {s : σ} {k : Nat} {a : α} (hs : c.subject = some s)
    (h : (c.next k).1 = some a) :
    Subject.elementAt s c.position = some a ∧ c.position ≤ Position.ceiling ∧
      ∀ n, Subject.length s = some n → n = 0 ∨ c.position < n := by
  obtain ⟨hend, hle, hget⟩ := (peek_eq_some_iff hs).1 (peek_of_next h)
  refine ⟨hget, hle, fun n hl => ?_⟩
  by_contra hn
  have htrue : c.atEnd 0 = true := by
    rw [atEnd_of_bound hs hl]
    simp only [Position.advance]
    omega
  simp [hend] at htrue

/-- The cursor stands at the last position of a subject that has no end and stores `a` there. -/
structure Held (c : Cursor σ) (s : σ) (a : α) : Prop where
  subject : c.subject = some s
  position : c.position = Position.ceiling
  endless : Subject.length s = some 0
  element : Subject.elementAt s Position.ceiling = some a

theorem Held.peek {c : Cursor σ} {s : σ} {a : α} (h : c.Held s a) : c.peek 0 = some a := by
  refine (peek_eq_some_iff h.subject).2 ⟨?_, Nat.le_of_eq h.position, ?_⟩
  · simp [atEnd, h.subject, h.endless]
  · simpa [h.position] using h.element

theorem Held.next {c : Cursor σ} {s : σ} {a : α} (h : c.Held s a) (k : Nat) :
    c.next k = (some a, c) := by
  have hadv : Position.advance c.position (k + 1) = c.position := by
    rw [h.position]
    simp only [Position.advance]
    omega
  rw [next_of_peek k h.peek, hadv]

theorem Held.take {c : Cursor σ} {s : σ} {a : α} (h : c.Held s a) (k m : Nat) :
    c.take k m = (List.replicate m a, c) := by
  induction m with
  | zero => rfl
  | succ m ih => simp [Cursor.take, h.next k, ih, List.replicate_succ]

theorem held_of_next {c : Cursor σ} {s : σ} {k : Nat} {a : α} (hs : c.subject = some s)
    (hd : Subject.defect? s = none) (hn : Subject.LengthFits s) (h : (c.next k).1 = some a)
    (hp : Position.ceiling ≤ c.position) : c.Held s a := by
  obtain ⟨hget, hle, hend⟩ := element_of_next hs h
  have hpos : c.position = Position.ceiling := Nat.le_antisymm hle hp
  obtain ⟨n, hl⟩ := Option.isSome_iff_exists.1 ((Subject.defect?_eq_none_iff s).1 hd).1
  have hfits := hn n hl
  rcases hend n hl with rfl | hlt
  · exact ⟨hs, hpos, hl, by rwa [hpos] at hget⟩
  · omega

theorem position_lt_next {c : Cursor σ} {k : Nat} {a : α} (h : (c.next k).1 = some a)
    (hp : c.position < Position.ceiling) : c.position < (c.next k).2.position := by
  rw [next_of_peek k (peek_of_next h)]
  simp only [Position.advance]
  omega

/-- A read that finds something moves on, or else the cursor is held where it is. -/
theorem moves_or_held {c : Cursor σ} {s : σ} {k : Nat} {a : α} (hs : c.subject = some s)
    (hd : Subject.defect? s = none) (hn : Subject.LengthFits s) (h : (c.next k).1 = some a) :
    c.position < (c.next k).2.position ∨ c.Held s a := by
  by_cases hp : c.position < Position.ceiling
  · exact .inl (position_lt_next h hp)
  · exact .inr (held_of_next hs hd hn h (Nat.le_of_not_lt hp))

theorem next_subject (c : Cursor σ) (k : Nat) : (c.next k).2.subject = c.subject := by
  cases hp : c.peek 0 with
  | none => simp [next, hp]
  | some a => simp [next, hp]

theorem take_succ_of_next {c : Cursor σ} {k m : Nat} {a : α} (h : (c.next k).1 = some a) :
    c.take k (m + 1) = (a :: ((c.next k).2.take k m).1, ((c.next k).2.take k m).2) := by
  simp [take, next_of_peek k (peek_of_next h)]

/-- Where only finitely much is stored ahead, each read that moves on leaves less of it. -/
theorem take_ends {s : σ} (hd : Subject.defect? s = none) (hn : Subject.LengthFits s)
    {stored : Finset Nat} {c : Cursor σ} (hs : c.subject = some s)
    (h : ∀ i, c.position ≤ i → (Subject.elementAt s i).isSome = true → i ∈ stored) (k : Nat) :
    ∃ m ≤ stored.card,
      ((c.take k m).2.next k).1 = none ∨ ∃ a, (c.take k m).2.Held s a := by
  induction hcard : stored.card generalizing c stored with
  | zero =>
    refine ⟨0, Nat.le_refl _, .inl ?_⟩
    by_contra hne
    obtain ⟨a, ha⟩ := Option.ne_none_iff_exists'.1 hne
    have hmem := h c.position (Nat.le_refl _) (by simp [(element_of_next hs ha).1])
    simp [Finset.card_eq_zero.1 hcard] at hmem
  | succ n ih =>
    cases ha : (c.next k).1 with
    | none => exact ⟨0, Nat.zero_le _, .inl ha⟩
    | some a =>
      rcases moves_or_held hs hd hn ha with hlt | hheld
      · have hmem := h c.position (Nat.le_refl _) (by simp [(element_of_next hs ha).1])
        -- The old position is not ahead of the new one.
        have hrest : ∀ i, (c.next k).2.position ≤ i → (Subject.elementAt s i).isSome = true →
            i ∈ stored.erase c.position := fun i hi hsome =>
          Finset.mem_erase.2 ⟨by omega, h i (by omega) hsome⟩
        have hcard' : (stored.erase c.position).card = n := by
          rw [Finset.card_erase_of_mem hmem, hcard, Nat.add_sub_cancel]
        obtain ⟨m, hm, hend⟩ := ih ((c.next_subject k).trans hs) hrest hcard'
        refine ⟨m + 1, by omega, ?_⟩
        rwa [take_succ_of_next ha]
      · exact ⟨0, Nat.zero_le _, .inr ⟨a, hheld⟩⟩

/-- Step `t` of a run is a read that finds `a` at position `i`. -/
structure FindsAt (c : Cursor σ) (calls : List (Call σ)) (t i : Nat) (a : α) : Prop where
  position : (c.atStep calls t).position = i
  found : ∃ k reply, calls[t]? = some (.next k) ∧ (c.run calls)[t]? = some reply ∧
    reply.result = .element (some a)

theorem findsAt_of_next {c : Cursor σ} {calls : List (Call σ)} {t k : Nat} {a : α}
    (hcall : calls[t]? = some (.next k)) (h : ((c.atStep calls t).next k).1 = some a) :
    c.FindsAt calls t (c.atStep calls t).position a := by
  refine ⟨rfl, k, (c.atStep calls t).perform (.next k), hcall, ?_, ?_⟩
  · rw [getElem?_run, hcall, Option.map_some]
  · simp [perform, h]

theorem FindsAt.next {c : Cursor σ} {calls : List (Call σ)} {t i : Nat} {a : α}
    (h : c.FindsAt calls t i a) :
    ∃ k, calls[t]? = some (.next k) ∧ ((c.atStep calls t).next k).1 = some a := by
  obtain ⟨k, reply, hcall, hreply, hresult⟩ := h.found
  rw [getElem?_run, hcall] at hreply
  obtain rfl := Option.some.inj hreply
  exact ⟨k, hcall, by simpa [perform] using hresult⟩

theorem atStep_readsTo {c : Cursor σ} {calls : List (Call σ)}
    (hcalls : OnlyOnward calls) {t t' : Nat} (h : t ≤ t') :
    (c.atStep calls t).ReadsTo (c.atStep calls t') := by
  obtain ⟨d, rfl⟩ := Nat.exists_eq_add_of_le h
  refine ⟨(calls.drop t).take d, fun call hmem => ?_, ?_⟩
  · exact hcalls call (List.mem_of_mem_drop (List.mem_of_mem_take hmem))
  · rw [atStep, atStep, List.take_add, after_append]

theorem FindsAt.element {c : Cursor σ} {calls : List (Call σ)} {t i : Nat} {a : α} {s : σ}
    (h : c.FindsAt calls t i a) (hc : c.Sound) (hs : c.subject = some s)
    (hcalls : OnlyOnward calls) :
    Subject.elementAt s i = some a ∧ ∀ n, Subject.length s = some n → n = 0 ∨ i < n := by
  obtain ⟨k, -, hnext⟩ := h.next
  have hreads : c.ReadsTo (c.atStep calls t) := atStep_readsTo hcalls (Nat.zero_le t)
  obtain ⟨hget, -, hend⟩ := element_of_next ((hreads.onward hc).2.1.trans hs) hnext
  rw [h.position] at hget hend
  exact ⟨hget, hend⟩

theorem FindsAt.passed {c : Cursor σ} {calls : List (Call σ)} {t t' i : Nat} {a : α}
    (h : c.FindsAt calls t i a) (hc : c.Sound)
    (hcalls : OnlyOnward calls)
    (hi : i < Position.ceiling) (ht : t < t') : i < (c.atStep calls t').position := by
  obtain ⟨k, hcall, hnext⟩ := h.next
  have hstep : c.atStep calls (t + 1) = ((c.atStep calls t).next k).2 :=
    atStep_succ_of_some hcall
  have hlt : i < (c.atStep calls (t + 1)).position := by
    rw [hstep, ← h.position]
    exact position_lt_next hnext (by rwa [h.position])
  have hreads : (c.atStep calls (t + 1)).ReadsTo (c.atStep calls t') := atStep_readsTo hcalls ht
  exact Nat.lt_of_lt_of_le hlt (hreads.onward (sound_atStep calls _ hc)).2.2

/-- Of two reads in a run that never goes back, the later one finds something further on. -/
theorem FindsAt.lt_or_held {c : Cursor σ} {calls : List (Call σ)} {t t' i i' : Nat} {a a' : α}
    {s : σ} (h : c.FindsAt calls t i a) (h' : c.FindsAt calls t' i' a') (hc : c.Sound)
    (hs : c.subject = some s) (hd : Subject.defect? s = none) (hn : Subject.LengthFits s)
    (hcalls : OnlyOnward calls) (ht : t < t') :
    i < i' ∨ (c.atStep calls t).Held s a ∧ (c.atStep calls t').Held s a' := by
  by_cases hi : i < Position.ceiling
  · have hlt := h.passed hc hcalls hi ht
    rw [h'.position] at hlt
    exact .inl hlt
  · have hsubject : ∀ j, (c.atStep calls j).subject = some s := fun j =>
      ((atStep_readsTo hcalls (Nat.zero_le j)).onward hc).2.1.trans hs
    have hreads : (c.atStep calls t).ReadsTo (c.atStep calls t') :=
      atStep_readsTo hcalls (Nat.le_of_lt ht)
    have hle := (hreads.onward (sound_atStep calls t hc)).2.2
    have hp : Position.ceiling ≤ (c.atStep calls t).position := by
      rw [h.position]
      exact Nat.le_of_not_lt hi
    obtain ⟨k, -, hnext⟩ := h.next
    obtain ⟨k', -, hnext'⟩ := h'.next
    exact .inr ⟨held_of_next (hsubject t) hd hn hnext hp,
      held_of_next (hsubject t') hd hn hnext' (Nat.le_trans hp hle)⟩

/-- Reads move on unless the cursor is held: each read that finds something moves the cursor, no
position is read twice without going back, and where finitely much is stored reading over and over
ends after as many reads at most. A cursor that is held finds the same element for ever; nothing
holds it in a subject that stores nothing past its length. -/
theorem reads_move_on {c : Cursor σ} {s : σ} (hc : c.Reachable) (hs : c.subject = some s)
    (hn : Subject.LengthFits s) :
    (∀ k a, (c.next k).1 = some a → (c.position < (c.next k).2.position ↔ ¬ c.Held s a)) ∧
    (∀ calls : List (Call σ), OnlyOnward calls →
      ∀ t t' i i' a a', t < t' → c.FindsAt calls t i a → c.FindsAt calls t' i' a' →
        i < i' ∨ (c.atStep calls t).Held s a ∧ (c.atStep calls t').Held s a') ∧
    (∀ stored : Finset Nat, (∀ i, (Subject.elementAt s i).isSome = true → i ∈ stored) →
      ∀ k, ∃ m ≤ stored.card,
        ((c.take k m).2.next k).1 = none ∨ ∃ a, (c.take k m).2.Held s a) ∧
    (∀ (c' : Cursor σ) a, c'.Held s a →
      ∀ k m, c'.next k = (some a, c') ∧ c'.take k m = (List.replicate m a, c')) ∧
    ((∀ i a, Subject.elementAt s i = some a → ∀ n, Subject.length s = some n → i < n) →
      ∀ (c' : Cursor σ) a, ¬ c'.Held s a) := by
  have hd := hc.defect?_eq_none hs
  refine ⟨fun k a ha => ⟨fun hlt hheld => ?_, fun hfree => ?_⟩, ?_, ?_, ?_, ?_⟩
  · simp [hheld.next k] at hlt
  · exact (moves_or_held hs hd hn ha).resolve_right hfree
  · intro calls hcalls t t' i i' a a' ht h h'
    exact h.lt_or_held h' hc.sound hs hd hn hcalls ht
  · intro stored hstored k
    exact take_ends hd hn hs (fun i _ hsome => hstored i hsome) k
  · intro c' a hheld k m
    exact ⟨hheld.next k, hheld.take k m⟩
  · intro hwithin c' a hheld
    exact Nat.not_lt_zero _ (hwithin _ a hheld.element 0 hheld.endless)

/-- Two entries far apart in a sequence of length zero are both found, and then the reads end. -/
theorem reads_move_on_past_length :
    let s : Sparse Nat := (Sparse.ofEntries [(5, 60), (0, 10)]).withLength 0
    let c : Cursor (Sparse Nat) := bind (some s) .default
    c.Reachable ∧ Subject.LengthFits s ∧ (c.next 4).1 = some 10 ∧
      c.position < (c.next 4).2.position ∧ ∃ m ≤ 2, ((c.take 4 m).2.next 4).1 = none := by
  intro s c
  have hc : c.Reachable := ⟨.unframed s, c, [], rfl, rfl⟩
  have hn : Subject.LengthFits s := fun n hl => by
    obtain rfl : 0 = n := Option.some.inj hl
    exact Nat.zero_le _
  have hstored : ∀ i, (Subject.elementAt s i).isSome = true → i ∈ ({0, 5} : Finset Nat) := by
    intro i hi
    change (List.lookup i [(0, 10), (5, 60)]).isSome = true at hi
    by_cases h0 : i = 0
    · simp [h0]
    · by_cases h5 : i = 5
      · simp [h5]
      · simp [List.lookup_cons, beq_false_of_ne h0, beq_false_of_ne h5] at hi
  have hfree : ∀ (c' : Cursor (Sparse Nat)) a, ¬ c'.Held s a := fun c' a hheld => by
    have hnone : Subject.elementAt s Position.ceiling = none := rfl
    simpa [hnone] using hheld.element
  obtain ⟨hmoves, -, hends, -⟩ := reads_move_on hc rfl hn
  obtain ⟨m, hm, hend⟩ := hends {0, 5} hstored 4
  refine ⟨hc, hn, rfl, (hmoves 4 10 rfl).2 (hfree c 10), m, hm, ?_⟩
  exact hend.resolve_right fun ⟨a, hheld⟩ => hfree _ a hheld

/-- A sequence of length zero may store something at the last position. A cursor that has jumped
there finds it again and again, and stays. -/
theorem read_without_progress :
    let s : Sparse Nat := (Sparse.ofEntries [(0, 10), (Position.ceiling, 20)]).withLength 0
    let c : Cursor (Sparse Nat) := ⟨some s, Position.ceiling, none, .default⟩
    c.Reachable ∧ c.FindsAt [.next 0, .next 0] 0 Position.ceiling 20 ∧
      c.FindsAt [.next 0, .next 0] 1 Position.ceiling 20 ∧
      (∀ m, c.take 0 m = (List.replicate m 20, c)) ∧
      ¬ ∀ (c : Cursor (Sparse Nat)) (k a : Nat), c.Reachable → (c.next k).1 = some a →
        c.position < (c.next k).2.position := by
  intro s c
  have hfirst : (bind (some s) Config.default).peek 0 = some 10 := rfl
  have hadv : Position.advance 0 (Position.ceiling - 1 + 1) = Position.ceiling := by decide
  have hjump : (bind (some s) Config.default).next (Position.ceiling - 1) = (some 10, c) := by
    rw [next_of_peek _ hfirst]
    simp only [bind, hadv, c]
  have hc : c.Reachable :=
    ⟨.unframed s, bind (some s) .default, [.perform (.next (Position.ceiling - 1))], rfl,
      by simp [afterActions, act, perform, hjump]⟩
  have hheld : c.Held s 20 := ⟨rfl, rfl, rfl, rfl⟩
  have hstay : c.atStep [.next 0, .next 0] 1 = c := congrArg Prod.snd (hheld.next 0)
  have hsecond : c.FindsAt [.next 0, .next 0] 1 (c.atStep [.next 0, .next 0] 1).position 20 :=
    findsAt_of_next rfl (by rw [hstay, hheld.next 0])
  rw [hstay] at hsecond
  refine ⟨hc, findsAt_of_next rfl (congrArg Prod.fst (hheld.next 0)), hsecond, hheld.take 0, ?_⟩
  intro h
  have hlt := h c 0 20 hc (by rw [hheld.next 0])
  simp [hheld.next 0] at hlt

end Cursor

end FrameCursor
