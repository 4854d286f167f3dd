import FrameCursor.Proofs.Extraction

set_option autoImplicit false

namespace FrameCursor

/-- For each list of offsets a round: a record, a read with each of the offsets, and a flush. -/
def Call.rounds {σ : Type} (rounds : List (List Nat)) : List (Call σ) :=
  rounds.flatMap fun offsets => framing (offsets.map .next)

theorem Call.isRead_of_mem_map_next {σ : Type} {offsets : List Nat} {call : Call σ}
    (h : call ∈ offsets.map .next) : call.IsRead := by
  obtain ⟨k, -, rfl⟩ := List.mem_map.1 h
  exact .next k

def Excerpt.EndToEnd : Nat → List Excerpt → Nat → Prop
  | start, [], stop => start = stop
  | start, e :: rest, stop => e.start = start ∧ EndToEnd e.stop rest stop

theorem map_getElem?_range {α : Type} (xs : List α) :
    (List.range xs.length).map (fun i => xs[i]?) = xs.map some := by
  induction xs with
  | nil => rfl
  | cons x xs ih =>
    rw [List.length_cons, List.range_succ_eq_map, List.map_cons, List.map_map, List.map_cons, ← ih]
    rfl

variable {σ α φ ω : Type} [Subject σ α φ]

namespace Subject

/-- Frames of `s` one after another: the first begins at `p`, each of the others where the one
before it stops, and the last stops at `q`. -/
inductive Tiled (s : σ) : Nat → List φ → Nat → Prop where
  | nil (p : Nat) : Tiled s p [] p
  | cons {p r q : Nat} {frames : List φ} (hle : p ≤ r) (rest : Tiled s r frames q) :
      Tiled s p (extract s ⟨p, r⟩ :: frames) q

def Seamless (s : σ) (view : φ → List ω) : Prop :=
  ∀ p r q, p ≤ r → r ≤ q →
    view (extract s ⟨p, r⟩) ++ view (extract s ⟨r, q⟩) = view (extract s ⟨p, q⟩)

theorem CopiesTo.seamless {s : σ} {view : φ → List (Option α)} {bound : Nat}
    (h : CopiesTo s view bound) : Seamless s view := by
  intro p r q hpr hrq
  -- Both bounds of the seam are clamped to the same position.
  rw [h, h, h, ← List.map_append, Span.clamp_of_le hpr, Span.clamp_of_le hrq,
    Span.clamp_of_le (Nat.le_trans hpr hrq), Span.indices_append (by omega) (by omega)]

theorem CopiesTo.whole {s : σ} {view : φ → List (Option α)} {bound q : Nat}
    (h : CopiesTo s view bound) (hq : bound ≤ q) :
    view (extract s ⟨0, q⟩) = (List.range bound).map (elementAt s) := by
  rw [h, Span.clamp_of_le (Nat.zero_le q), Nat.zero_min, Nat.min_eq_right hq, Span.indices,
    List.range_eq_range', Nat.sub_zero]

theorem Seamless.of_map {s : σ} {view : φ → List ω} {β : Type} {g : ω → β}
    (hg : Function.Injective g) (h : Seamless s fun frame => (view frame).map g) :
    Seamless s view := by
  intro p r q hpr hrq
  apply List.map_injective_iff.2 hg
  rw [List.map_append]
  exact h p r q hpr hrq

theorem Seamless.nil {s : σ} {view : φ → List ω} (h : Seamless s view) (p : Nat) :
    view (extract s ⟨p, p⟩) = [] := by
  have hdouble := h p p p (Nat.le_refl p) (Nat.le_refl p)
  exact List.self_eq_append_right.1 hdouble.symm

theorem Tiled.le {s : σ} {p q : Nat} {frames : List φ} (h : Tiled s p frames q) : p ≤ q := by
  induction h with
  | nil p => exact Nat.le_refl p
  | cons hle _ ih => exact Nat.le_trans hle ih

theorem Tiled.joined {s : σ} {view : φ → List ω} {p q : Nat} {frames : List φ}
    (h : Tiled s p frames q) (hs : Seamless s view) :
    frames.flatMap view = view (extract s ⟨p, q⟩) := by
  induction h with
  | nil p => exact (hs.nil p).symm
  | cons hle rest ih => rw [List.flatMap_cons, ih, hs _ _ _ hle rest.le]

end Subject

namespace Text

theorem extract_of_le (t : Text) {p q : Nat} (h : p ≤ q) :
    t.extract ⟨p, q⟩ =
      ⟨t.buffer, String.utf8Len (t.chars.take p), String.utf8Len (t.chars.take q)⟩ := by
  have htake : ∀ i, t.chars.take (min i t.length) = t.chars.take i := by
    intro i
    rw [← length_chars, ← List.take_eq_take_min]
  rw [extract_eq, Span.clamp_of_le h, htake, htake]

theorem endToEnd_of_tiled {t : Text} {p q : Nat} {frames : List Excerpt}
    (h : Subject.Tiled t p frames q) :
    (∀ e ∈ frames, e.buffer = t.buffer) ∧
      Excerpt.EndToEnd (String.utf8Len (t.chars.take p)) frames
        (String.utf8Len (t.chars.take q)) := by
  induction h with
  | nil p => exact ⟨by simp, rfl⟩
  | @cons p r q frames hle rest ih =>
    have he : Subject.extract t ⟨p, r⟩ =
        ⟨t.buffer, String.utf8Len (t.chars.take p), String.utf8Len (t.chars.take r)⟩ :=
      t.extract_of_le hle
    rw [he]
    exact ⟨List.forall_mem_cons.2 ⟨rfl, ih.1⟩, rfl, ih.2⟩

end Text

namespace Cursor

def flushAnswers (c : Cursor σ) : List (Call σ) → List (Answer α φ)
  | [] => []
  | call :: calls =>
    let later := (c.perform call).cursor.flushAnswers calls
    match call with
    | .flush => (c.perform .flush).result :: later
    | _ => later

theorem flushAnswers_append (c : Cursor σ) (first rest : List (Call σ)) :
    c.flushAnswers (first ++ rest) =
      c.flushAnswers first ++ (c.after first).flushAnswers rest := by
  induction first generalizing c with
  | nil => rfl
  | cons call first ih =>
    have hrest := ih (c.perform call).cursor
    cases call with
    | flush => exact congrArg (List.cons _) hrest
    | _ => exact hrest

theorem flushAnswers_of_reads {c : Cursor σ} {reads : List (Call σ)}
    (h : ∀ call ∈ reads, call.IsRead) : c.flushAnswers reads = [] := by
  induction reads generalizing c with
  | nil => rfl
  | cons call reads ih =>
    have hrest : ∀ call ∈ reads, call.IsRead := fun call hmem => h call (by simp [hmem])
    cases h call (by simp) with
    | peek k => exact ih hrest
    | next k => exact ih hrest
    | atEnd k => exact ih hrest

theorem after_record_reads (c : Cursor σ) (reads : List (Call σ)) :
    (c.perform .record).cursor.after reads = c.beforeFlush reads := by
  rw [beforeFlush, atStep, Call.take_framing]
  rfl

/-- One round. It cuts out what lies between its record and its flush, and leaves the cursor where
the flush found it. -/
theorem round_gives {c : Cursor σ} {s : σ} {reads : List (Call σ)} (hc : c.Sound)
    (hf : c.isFramed = true) (hs : c.subject = some s) (hreads : ∀ call ∈ reads, call.IsRead) :
    ∃ q, c.position ≤ q ∧
      c.flushAnswers (Call.framing reads) = [.frame (Subject.extract s ⟨c.position, q⟩)] ∧
      c.after (Call.framing reads) = { c with position := q, frameStart := none } := by
  have hbefore := beforeFlush_eq hf hreads
  have hframed : (c.beforeFlush reads).isFramed = true := by
    rw [hbefore]
    exact hf
  have hflush : (c.beforeFlush reads).flush.result =
      .ok (Subject.extract s ⟨c.position, (c.beforeFlush reads).position⟩) := by
    refine flush_of_marked hframed ?_ ?_
    · rw [hbefore]
      exact hs
    · rw [hbefore]
  have honward : c.ReadsTo (c.beforeFlush reads) :=
    atStep_readsTo (Call.onlyOnward_framing hreads) (Nat.zero_le _)
  refine ⟨(c.beforeFlush reads).position, (honward.onward hc).2.2, ?_, ?_⟩
  · change (c.perform .record).cursor.flushAnswers (reads ++ [.flush]) = _
    rw [flushAnswers_append, flushAnswers_of_reads hreads, after_record_reads]
    simp [flushAnswers, perform, hflush, Answer.ofResult]
  · change (c.perform .record).cursor.after (reads ++ [.flush]) = _
    rw [after_append, after_record_reads]
    change (c.beforeFlush reads).flush.cursor = _
    rw [flush_cursor_of_framed hframed]
    exact congrArg (fun c' : Cursor σ => { c' with frameStart := none }) hbefore

theorem rounds_tiled {c : Cursor σ} {s : σ} (hc : c.Sound) (hf : c.isFramed = true)
    (hs : c.subject = some s) (rounds : List (List Nat)) :
    ∃ frames, c.flushAnswers (Call.rounds rounds) = frames.map .frame ∧
      frames.length = rounds.length ∧
      Subject.Tiled s c.position frames (c.after (Call.rounds rounds)).position := by
  induction rounds generalizing c with
  | nil => exact ⟨[], rfl, rfl, .nil _⟩
  | cons offsets rounds ih =>
    have hreads : ∀ call ∈ offsets.map (Call.next : Nat → Call σ), call.IsRead :=
      fun _ hmem => Call.isRead_of_mem_map_next hmem
    obtain ⟨q, hle, hanswer, hafter⟩ := round_gives hc hf hs hreads
    have hsound := sound_after (Call.framing (offsets.map .next)) hc
    rw [hafter] at hsound
    obtain ⟨frames, hanswers, hcount, htiled⟩ := ih hsound hf hs
    have hrounds : Call.rounds (σ := σ) (offsets :: rounds) =
        Call.framing (offsets.map .next) ++ Call.rounds rounds := rfl
    refine ⟨Subject.extract s ⟨c.position, q⟩ :: frames, ?_, congrArg Nat.succ hcount, ?_⟩
    · rw [hrounds, flushAnswers_append, hanswer, hafter, hanswers]
      rfl
    · rw [hrounds, after_append, hafter]
      exact .cons hle htiled

/-- What rounds give, where `view` shows frames as parts of `whole` and frames reach as far as
`bound`: a frame for every round, which joined are the span between the first position and the last,
and all there is if they start at the beginning and stop no earlier than the bound. -/
structure RoundsGive (c : Cursor σ) (s : σ) (rounds : List (List Nat)) (view : φ → List ω)
    (bound : Nat) (whole : List ω) (frames : List φ) : Prop where
  answers : c.flushAnswers (Call.rounds rounds) = frames.map .frame
  count : frames.length = rounds.length
  joined : frames.flatMap view =
    view (Subject.extract s ⟨c.position, (c.after (Call.rounds rounds)).position⟩)
  whole : c.position = 0 → bound ≤ (c.after (Call.rounds rounds)).position →
    frames.flatMap view = whole

theorem RoundsGive.frames_eq {c : Cursor σ} {s : σ} {rounds : List (List Nat)}
    {view : φ → List ω} {bound : Nat} {whole : List ω} {frames frames' : List φ}
    (h : c.RoundsGive s rounds view bound whole frames)
    (ha : c.flushAnswers (Call.rounds rounds) = frames'.map .frame) : frames = frames' :=
  List.map_injective_iff.2 (fun _ _ => Answer.frame.inj) (h.answers.symm.trans ha)

theorem exists_roundsGive {c : Cursor σ} {s : σ} {view : φ → List ω} {g : ω → Option α}
    {bound : Nat} {whole : List ω} (rounds : List (List Nat)) (hc : c.Reachable)
    (hf : c.isFramed = true) (hs : c.subject = some s) (hg : Function.Injective g)
    (hcopies : Subject.CopiesTo s (fun frame => (view frame).map g) bound)
    (hwhole : whole.map g = (List.range bound).map (Subject.elementAt s)) :
    ∃ frames, c.RoundsGive s rounds view bound whole frames ∧
      Subject.Tiled s c.position frames (c.after (Call.rounds rounds)).position := by
  obtain ⟨frames, hanswers, hcount, htiled⟩ := rounds_tiled hc.sound hf hs rounds
  have hjoined := htiled.joined (hcopies.seamless.of_map hg)
  refine ⟨frames, ⟨hanswers, hcount, hjoined, fun hzero hbound => ?_⟩, htiled⟩
  apply List.map_injective_iff.2 hg
  rw [hjoined, hzero, hwhole]
  exact hcopies.whole hbound

/-- The frames of consecutive rounds tile texts, rows and sparse sequences: joined they are the one
frame over all rounds, and those of a text lie end to end in its bytes. -/
theorem consecutive_frames_tile (α : Type) (rounds : List (List Nat)) :
    (∀ (c : Cursor Text) (t : Text), c.Reachable → c.isFramed = true → c.subject = some t →
      let joined := t.extract ⟨c.position, (c.after (Call.rounds rounds)).position⟩
      ∃ frames, c.RoundsGive t rounds (fun e => e.text.toList) t.length t.buffer.toList frames ∧
        (∀ e ∈ frames, e.buffer = t.buffer) ∧ Excerpt.EndToEnd joined.start frames joined.stop) ∧
    (∀ (c : Cursor (Row α)) (r : Row α), c.Reachable → c.isFramed = true → c.subject = some r →
      ∃ frames, c.RoundsGive r rounds id r.items.length r.items frames) ∧
    ∀ (c : Cursor (Sparse α)) (s : Sparse α), c.Reachable → c.isFramed = true →
      c.subject = some s → (∀ e ∈ s.entries, e.1 < Position.ceiling) → Subject.LengthFits s →
      s.extent ≤ Position.ceiling ∧
        ∃ frames, c.RoundsGive s rounds id s.extent ((List.range s.extent).map s.get?) frames := by
  refine ⟨fun c t hc hf hs => ?_, fun c r hc hf hs => ?_, fun c s hc hf hs hkeys hn => ?_⟩
  · have hwhole : t.buffer.toList.map some =
        (List.range t.length).map (Subject.elementAt t) := by
      rw [t.elementAt_eq, ← t.length_chars, map_getElem?_range]
      rfl
    obtain ⟨frames, hgives, htiled⟩ :=
      exists_roundsGive rounds hc hf hs (Option.some_injective Char) t.copiesTo hwhole
    have hends := Text.endToEnd_of_tiled htiled
    rw [t.extract_of_le htiled.le]
    exact ⟨frames, hgives, hends⟩
  · obtain ⟨frames, hgives, -⟩ := exists_roundsGive rounds hc hf hs (Option.some_injective α)
      r.copiesTo (map_getElem?_range r.items).symm
    exact ⟨frames, hgives⟩
  · have hcopies : Subject.CopiesTo s (fun frame => (id frame).map id) s.extent := fun span =>
      (List.map_id _).trans (s.copiesTo span)
    obtain ⟨frames, hgives, -⟩ :=
      exists_roundsGive rounds hc hf hs Function.injective_id hcopies (List.map_id _)
    exact ⟨Sparse.extent_le_ceiling hkeys hn, frames, hgives⟩

/-- An empty round and one that jumps past the end of a text, and rounds over the holes of a
sequence of length zero. -/
theorem consecutive_frames_tile_past_end :
    let t : Text := Text.ofString "añ b"
    let c : Cursor Text := bind (some t) .withFraming
    let s : Sparse Char := (Sparse.ofEntries [(3, 'y'), (0, 'w')]).withLength 0
    let d : Cursor (Sparse Char) := bind (some s) .withFraming
    let rounds : List (List Nat) := [[2], [], [5]]
    c.Reachable ∧ d.Reachable ∧ (∀ e ∈ s.entries, e.1 < Position.ceiling) ∧
      Subject.LengthFits s ∧
      (∃ frames, frames.map Excerpt.range = [(0, 4), (4, 4), (4, 5)] ∧
        c.RoundsGive t rounds (fun e => e.text.toList) t.length t.buffer.toList frames ∧
        frames.flatMap (fun e => e.text.toList) = t.buffer.toList) ∧
      d.RoundsGive s rounds id s.extent ((List.range s.extent).map s.get?)
        [[some 'w', none, none], [], [some 'y']] := by
  have ho : (Origin.framed (Text.ofString "añ b")).opening.result =
      .ok (bind (some (Text.ofString "añ b")) .withFraming) := rfl
  intro t c s d rounds
  have hc : c.Reachable := ⟨_, _, [], ho, rfl⟩
  have hd : d.Reachable := ⟨.framed s, d, [], rfl, rfl⟩
  have hkeys : ∀ e ∈ s.entries, e.1 < Position.ceiling := by decide
  have hn : Subject.LengthFits s := fun n hl => by
    obtain rfl : 0 = n := Option.some.inj hl
    decide
  obtain ⟨htext, -, hsparse⟩ := consecutive_frames_tile Char rounds
  obtain ⟨frames, hgives, -⟩ := htext c t hc rfl rfl
  obtain ⟨-, frames', hgives'⟩ := hsparse d s hd rfl rfl hkeys hn
  have hanswers : c.flushAnswers (Call.rounds rounds) =
      [⟨"añ b", 0, 4⟩, ⟨"añ b", 4, 4⟩, ⟨"añ b", 4, 5⟩].map .frame := by decide +kernel
  have hanswers' : d.flushAnswers (Call.rounds rounds) =
      [[some 'w', none, none], [], [some 'y']].map .frame := by decide +kernel
  have hend : t.length ≤ (c.after (Call.rounds rounds)).position := by decide +kernel
  obtain rfl := hgives.frames_eq hanswers
  obtain rfl := hgives'.frames_eq hanswers'
  exact ⟨hc, hd, hkeys, hn, ⟨_, rfl, hgives, hgives.whole rfl hend⟩, hgives'⟩

end Cursor

end FrameCursor
