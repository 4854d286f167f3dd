import FrameCursor.Proofs.Collected
import FrameCursor.Proofs.Progress
import FrameCursor.Subject.Declared

set_option autoImplicit false

namespace FrameCursor

inductive Call.IsRead {σ : Type} : Call σ → Prop where
  | peek (k : Nat) : IsRead (.peek k)
  | next (k : Nat) : IsRead (.next k)
  | atEnd (k : Nat) : IsRead (.atEnd k)

def Call.framing {σ : Type} (reads : List (Call σ)) : List (Call σ) :=
  .record :: (reads ++ [.flush])

theorem Call.getElem?_framing {σ : Type} (reads : List (Call σ)) :
    (framing reads)[reads.length + 1]? = some .flush := by
  simp [framing]

theorem Call.take_framing {σ : Type} (reads : List (Call σ)) :
    (framing reads).take (reads.length + 1) = .record :: reads := by
  simp [framing]

theorem Call.onlyOnward_framing {σ : Type} {reads : List (Call σ)}
    (h : ∀ call ∈ reads, call.IsRead) : Cursor.OnlyOnward (framing reads) := by
  intro call hmem
  rcases List.mem_cons.1 hmem with rfl | hmem
  · simp
  · rcases List.mem_append.1 hmem with hmem | hmem
    · cases h call hmem <;> simp
    · obtain rfl := List.mem_singleton.1 hmem
      simp

theorem Span.length_map_indices {β : Type} (f : Nat → β) (s : Span) :
    (s.indices.map f).length = s.stop - s.start := by
  simp [indices]

theorem Span.getElem?_map_indices {β : Type} (f : Nat → β) {s : Span} {j : Nat}
    (h : j < s.stop - s.start) : (s.indices.map f)[j]? = some (f (s.start + j)) := by
  rw [indices, List.getElem?_map, List.getElem?_range' h, Option.map_some, Nat.one_mul]

variable {σ α φ : Type} [Subject σ α φ]

/-- Frames of `s`, whose entries `view` lists, are copies of its elements as far as `bound`. -/
def Subject.CopiesTo (s : σ) (view : φ → List (Option α)) (bound : Nat) : Prop :=
  ∀ span, view (extract s span) = (span.clamp bound).indices.map (elementAt s)

theorem Row.copiesTo {α : Type} (r : Row α) :
    Subject.CopiesTo r (List.map some) r.items.length := fun span =>
  (map_getElem?_indices r.items span).symm

theorem Text.elementAt_eq (t : Text) : Subject.elementAt t = fun i => t.chars[i]? :=
  funext t.charAt_eq

theorem Text.copiesTo (t : Text) :
    Subject.CopiesTo t (fun e => e.text.toList.map some) t.length := by
  intro span
  rw [elementAt_eq, ← t.length_chars, map_getElem?_indices, ← t.toList_extract]
  rfl

theorem Sparse.copiesTo {α : Type} (s : Sparse α) : Subject.CopiesTo s id s.extent :=
  fun _ => rfl

theorem Sparse.mem_of_get? {α : Type} {s : Sparse α} {k : Nat} {a : α} (h : s.get? k = some a) :
    (k, a) ∈ s.entries := by
  obtain ⟨before, after, hsplit, -⟩ := List.lookup_eq_some_iff.1 h
  simp [hsplit]

theorem Sparse.lt_pastLast {α : Type} {s : Sparse α} {x : Nat × α} (h : x ∈ s.entries) :
    x.1 < s.pastLast := by
  cases hl : s.entries.getLast? with
  | none => simp [List.getLast?_eq_none_iff.1 hl] at h
  | some e =>
    simp only [pastLast, hl]
    obtain ⟨others, hsplit⟩ := List.getLast?_eq_some_iff.1 hl
    have hascending := s.ascending
    rw [hsplit] at h hascending
    rcases List.mem_append.1 h with h | h
    · exact Nat.lt_succ_of_lt ((List.pairwise_append.1 hascending).2.2 x h e (by simp))
    · rw [List.mem_singleton.1 h]
      exact Nat.lt_succ_self _

theorem Sparse.lt_extent {α : Type} {s : Sparse α} {k : Nat} {a : α} (h : s.get? k = some a) :
    k < s.extent :=
  Nat.lt_of_lt_of_le (lt_pastLast (mem_of_get? h)) (Nat.le_max_right _ _)

namespace Cursor

theorem perform_of_isRead {c : Cursor σ} {call : Call σ} (h : call.IsRead) :
    ∃ p, (c.perform call).cursor = { c with position := p } := by
  cases h with
  | peek k => exact ⟨c.position, rfl⟩
  | atEnd k => exact ⟨c.position, rfl⟩
  | next k =>
    cases hp : c.peek 0 with
    | none => exact ⟨c.position, by simp [perform, next, hp]⟩
    | some a => exact ⟨Position.advance c.position (k + 1), by simp [perform, next, hp]⟩

theorem after_of_reads {c : Cursor σ} {reads : List (Call σ)} (h : ∀ call ∈ reads, call.IsRead) :
    ∃ p, c.after reads = { c with position := p } := by
  induction reads generalizing c with
  | nil => exact ⟨c.position, rfl⟩
  | cons call reads ih =>
    obtain ⟨p, hp⟩ := c.perform_of_isRead (h call (by simp))
    obtain ⟨q, hq⟩ := ih (c := { c with position := p }) fun call hmem => h call (by simp [hmem])
    refine ⟨q, ?_⟩
    change (c.perform call).cursor.after reads = _
    rw [hp, hq]

def beforeFlush (c : Cursor σ) (reads : List (Call σ)) : Cursor σ :=
  c.atStep (Call.framing reads) (reads.length + 1)

theorem beforeFlush_eq {c : Cursor σ} {reads : List (Call σ)} (hf : c.isFramed = true)
    (h : ∀ call ∈ reads, call.IsRead) :
    c.beforeFlush reads =
      ⟨c.subject, (c.beforeFlush reads).position, some c.position, c.config⟩ := by
  have hrecord : c.record.cursor = { c with frameStart := some c.position } := by
    simp [record, hf]
  obtain ⟨q, hq⟩ := c.record.cursor.after_of_reads h
  have hafter : c.beforeFlush reads = { c.record.cursor with position := q } := by
    rw [beforeFlush, atStep, Call.take_framing, ← hq]
    rfl
  rw [hafter, hrecord]

/-- What the entries of the frame are that a record, reads and a flush give: the elements between
the two positions as far as `bound`, holes included, so that all that was read is there. -/
structure FrameHolds (c : Cursor σ) (reads : List (Call σ)) (s : σ) (bound : Nat)
    (entries : List (Option α)) : Prop where
  length : entries.length = min (c.beforeFlush reads).position bound -
    min c.position (min (c.beforeFlush reads).position bound)
  entry : ∀ j, j < entries.length → entries[j]? = some (Subject.elementAt s (c.position + j))
  read : ∀ t i a, c.FindsAt (Call.framing reads) t i a →
    c.position ≤ i ∧ entries[i - c.position]? = some (some a)

def FlushGives (c : Cursor σ) (reads : List (Call σ)) (holds : φ → Prop) : Prop :=
  ∃ reply frame, (c.run (Call.framing reads))[reads.length + 1]? = some reply ∧
    reply.result = .frame frame ∧ holds frame

theorem flushGives {c : Cursor σ} {reads : List (Call σ)} {s : σ} (hf : c.isFramed = true)
    (hs : c.subject = some s) (h : ∀ call ∈ reads, call.IsRead) {holds : φ → Prop}
    (hholds : holds (Subject.extract s ⟨c.position, (c.beforeFlush reads).position⟩)) :
    c.FlushGives reads holds := by
  have hcursor := beforeFlush_eq hf h
  refine ⟨(c.beforeFlush reads).perform .flush, _, ?_, ?_, hholds⟩
  · rw [getElem?_run, Call.getElem?_framing]
    rfl
  · rw [hcursor]
    simp only [isFramed] at hf
    simp [perform, flush, isFramed, hf, hs, Answer.ofResult]

theorem FindsAt.before_flush {c : Cursor σ} {reads : List (Call σ)} {t i : Nat} {a : α}
    (h : c.FindsAt (Call.framing reads) t i a) : t < reads.length + 1 := by
  obtain ⟨k, hcall, -⟩ := h.next
  obtain ⟨hlt, -⟩ := List.getElem?_eq_some_iff.1 hcall
  by_contra hle
  have ht : t = reads.length + 1 := by
    simp only [Call.framing, List.length_cons, List.length_append, List.length_nil] at hlt
    omega
  rw [ht, Call.getElem?_framing] at hcall
  cases hcall

theorem FindsAt.between {c : Cursor σ} {reads : List (Call σ)} {t i : Nat} {a : α}
    (h : c.FindsAt (Call.framing reads) t i a) (hc : c.Sound)
    (hreads : ∀ call ∈ reads, call.IsRead) (hi : i < Position.ceiling) :
    c.position ≤ i ∧ i < (c.beforeFlush reads).position := by
  have honward := Call.onlyOnward_framing hreads
  have hto : c.ReadsTo (c.atStep (Call.framing reads) t) := atStep_readsTo honward (Nat.zero_le t)
  have hle := (hto.onward hc).2.2
  rw [h.position] at hle
  exact ⟨hle, h.passed hc honward hi h.before_flush⟩

theorem frameHolds_of_copy {c : Cursor σ} {reads : List (Call σ)} {s : σ} {bound : Nat}
    (hc : c.Sound) (hreads : ∀ call ∈ reads, call.IsRead) (hs : c.subject = some s)
    (hbound : ∀ t i a, c.FindsAt (Call.framing reads) t i a → i < bound ∧ i < Position.ceiling) :
    c.FrameHolds reads s bound
      (((Span.mk c.position (c.beforeFlush reads).position).clamp bound).indices.map
        (Subject.elementAt s)) := by
  have hentry : ∀ j,
      j < min (c.beforeFlush reads).position bound -
        min c.position (min (c.beforeFlush reads).position bound) →
      (((Span.mk c.position (c.beforeFlush reads).position).clamp bound).indices.map
        (Subject.elementAt s))[j]? = some (Subject.elementAt s (c.position + j)) := by
    intro j hj
    have hstart : min c.position (min (c.beforeFlush reads).position bound) = c.position := by
      omega
    rw [Span.getElem?_map_indices _ hj, Span.clamp, hstart]
  refine ⟨Span.length_map_indices _ _, fun j hj => ?_, fun t i a h => ?_⟩
  · rw [Span.length_map_indices] at hj
    exact hentry j hj
  · obtain ⟨hlt, hi⟩ := hbound t i a h
    obtain ⟨hle, hq⟩ := h.between hc hreads hi
    obtain ⟨hget, -⟩ := h.element hc hs (Call.onlyOnward_framing hreads)
    refine ⟨hle, ?_⟩
    rw [hentry (i - c.position) (by omega), Nat.add_sub_cancel' hle, hget]

theorem flushGives_of_copiesTo {c : Cursor σ} {reads : List (Call σ)} {s : σ} {bound : Nat}
    {view : φ → List (Option α)} (hc : c.Sound) (hf : c.isFramed = true)
    (hs : c.subject = some s) (hreads : ∀ call ∈ reads, call.IsRead)
    (hcopies : Subject.CopiesTo s view bound)
    (hbound : ∀ t i a, c.FindsAt (Call.framing reads) t i a → i < bound ∧ i < Position.ceiling) :
    c.FlushGives reads fun frame => c.FrameHolds reads s bound (view frame) := by
  refine flushGives hf hs hreads ?_
  rw [hcopies]
  exact frameHolds_of_copy hc hreads hs hbound

theorem flushGives_of_elements {c : Cursor σ} {reads : List (Call σ)} {s : σ} {bound : Nat}
    {view : φ → List (Option α)} (hc : c.Reachable) (hf : c.isFramed = true)
    (hs : c.subject = some s) (hreads : ∀ call ∈ reads, call.IsRead)
    (hcopies : Subject.CopiesTo s view bound)
    (hbound : ∀ i a, Subject.elementAt s i = some a → i < bound ∧ i < Position.ceiling) :
    c.FlushGives reads fun frame => c.FrameHolds reads s bound (view frame) :=
  flushGives_of_copiesTo hc.sound hf hs hreads hcopies fun _ i a h =>
    hbound i a (h.element hc.sound hs (Call.onlyOnward_framing hreads)).1

/-- Frames of texts, of rows and of sparse sequences give back all that was read, each element at
its distance from the record, with what lies between. A sparse sequence may have any length, but must
not store anything at the last position, which no cursor can pass. -/
theorem frames_give_back_reads (α : Type) :
    (∀ (c : Cursor Text) (t : Text) (reads : List (Call Text)),
      c.Reachable → c.isFramed = true → c.subject = some t → t.length ≤ Position.ceiling →
      (∀ call ∈ reads, call.IsRead) →
      c.FlushGives reads fun frame =>
        c.FrameHolds reads t t.length (frame.text.toList.map some)) ∧
    (∀ (c : Cursor (Row α)) (r : Row α) (reads : List (Call (Row α))),
      c.Reachable → c.isFramed = true → c.subject = some r →
      r.items.length ≤ Position.ceiling → (∀ call ∈ reads, call.IsRead) →
      c.FlushGives reads fun frame =>
        c.FrameHolds reads r r.items.length (frame.map some)) ∧
    ∀ (c : Cursor (Sparse α)) (s : Sparse α) (reads : List (Call (Sparse α))),
      c.Reachable → c.isFramed = true → c.subject = some s →
      (∀ e ∈ s.entries, e.1 < Position.ceiling) → (∀ call ∈ reads, call.IsRead) →
      c.FlushGives reads fun frame => c.FrameHolds reads s s.extent frame := by
  refine ⟨?_, ?_, ?_⟩
  · intro c t reads hc hf hs hn hreads
    refine flushGives_of_elements hc hf hs hreads t.copiesTo fun i ch hch => ?_
    have hlt : i < t.length := t.lt_length_of_getElem? ((t.charAt_eq i).symm.trans hch)
    exact ⟨hlt, Nat.lt_of_lt_of_le hlt hn⟩
  · intro c r reads hc hf hs hn hreads
    refine flushGives_of_elements hc hf hs hreads r.copiesTo fun i a ha => ?_
    obtain ⟨hlt, -⟩ := List.getElem?_eq_some_iff.1 ha
    exact ⟨hlt, Nat.lt_of_lt_of_le hlt hn⟩
  · intro c s reads hc hf hs hkeys hreads
    refine flushGives_of_elements hc hf hs hreads s.copiesTo fun i a ha => ?_
    exact ⟨Sparse.lt_extent ha, hkeys _ (Sparse.mem_of_get? ha)⟩

/-- Two entries with a hole between them, in a sequence of length zero, are read and flushed. -/
theorem frames_give_back_reads_past_length :
    let s : Sparse Char := (Sparse.ofEntries [(3, 'y'), (1, 'x'), (0, 'w')]).withLength 0
    let c : Cursor (Sparse Char) := ⟨some s, 1, none, .withFraming⟩
    let reads : List (Call (Sparse Char)) := [.next 1, .peek 9, .next 7]
    c.Reachable ∧ (∀ e ∈ s.entries, e.1 < Position.ceiling) ∧ (∀ call ∈ reads, call.IsRead) ∧
      c.FindsAt (Call.framing reads) 3 3 'y' ∧
      c.FlushGives reads fun frame => c.FrameHolds reads s s.extent frame ∧
        frame = [some 'x', none, some 'y'] := by
  intro s c reads
  have hc : c.Reachable :=
    ⟨.framed s, bind (some s) .withFraming, [.perform (.next 0)], rfl, rfl⟩
  have hkeys : ∀ e ∈ s.entries, e.1 < Position.ceiling := by decide
  have hreads : ∀ call ∈ reads, call.IsRead := by
    simp [reads, Call.IsRead.next, Call.IsRead.peek]
  obtain ⟨reply, frame, hreply, hresult, hholds⟩ :=
    (frames_give_back_reads Char).2.2 c s reads hc rfl rfl hkeys hreads
  have hflushed : (c.run (Call.framing reads))[4]?.map Reply.result =
      some (.frame [some 'x', none, some 'y']) := by decide +kernel
  have hlast : (c.run (Call.framing reads))[4]? = some reply := hreply
  rw [hlast, Option.map_some, hresult] at hflushed
  exact ⟨hc, hkeys, hreads, ⟨rfl, 7, _, rfl, rfl, rfl⟩, reply, frame, hreply, hresult, hholds,
    Answer.frame.inj (Option.some.inj hflushed)⟩

/-- The frames of a subject that falls back on copying give back all that was read, unless its length
is zero. Reading then has no end, and every frame is empty. -/
theorem copied_frames_give_back_reads {σ α : Type} [Subject σ α (List (Option α))] {c : Cursor σ}
    {s : σ} {reads : List (Call σ)} (hc : c.Reachable) (hf : c.isFramed = true)
    (hs : c.subject = some s) (hcopy : ∀ span, Subject.extract s span = Subject.copy s span)
    (hn : Subject.LengthFits s) (hreads : ∀ call ∈ reads, call.IsRead) :
    ∃ n, Subject.length s = some n ∧
      (n ≠ 0 → c.FlushGives reads fun frame => c.FrameHolds reads s n frame) ∧
      (n = 0 → c.FlushGives reads fun frame => frame = []) := by
  have hd := hc.defect?_eq_none hs
  obtain ⟨n, hl⟩ := Option.isSome_iff_exists.1 ((Subject.defect?_eq_none_iff s).1 hd).1
  have hcopies : Subject.CopiesTo s id n := by
    intro span
    rw [hcopy, Subject.copy, copyWithin, hl]
    rfl
  refine ⟨n, hl, fun hpos => ?_, fun hzero => flushGives hf hs hreads ?_⟩
  · refine flushGives_of_copiesTo hc.sound hf hs hreads hcopies fun t i a h => ?_
    obtain ⟨-, hend⟩ := h.element hc.sound hs (Call.onlyOnward_framing hreads)
    have hlt := (hend n hl).resolve_left hpos
    exact ⟨hlt, Nat.lt_of_lt_of_le hlt (hn n hl)⟩
  · subst hzero
    rw [hcopy, Subject.copy, copyWithin, hl]
    simp [Span.clamp, Span.indices]

/-- A hole is read around, and the jump past the end does not matter. -/
theorem copied_frames_give_back_reads_around_hole :
    let s : Declared Nat := ⟨some 3, [some 10, none, some 30]⟩
    let c : Cursor (Declared Nat) := bind (some s) .withFraming
    let reads : List (Call (Declared Nat)) := [.next 1, .atEnd 0, .next 5]
    c.Reachable ∧ (∀ span, Subject.extract s span = Subject.copy s span) ∧
      Subject.LengthFits s ∧ (∀ call ∈ reads, call.IsRead) ∧
      c.FlushGives reads fun frame => c.FrameHolds reads s 3 frame := by
  intro s c reads
  have hc : c.Reachable := ⟨.framed s, c, [], rfl, rfl⟩
  have hcopy : ∀ span, Subject.extract s span = Subject.copy s span := fun _ => rfl
  have hn : Subject.LengthFits s := fun n hl => by
    obtain rfl : 3 = n := Option.some.inj hl
    decide
  have hreads : ∀ call ∈ reads, call.IsRead := by
    simp [reads, Call.IsRead.next, Call.IsRead.atEnd]
  obtain ⟨n, hl, hgives, -⟩ := copied_frames_give_back_reads hc rfl rfl hcopy hn hreads
  obtain rfl : 3 = n := Option.some.inj hl
  exact ⟨hc, hcopy, hn, hreads, hgives (by decide)⟩

/-- Of a subject that declares length zero and yet holds an element, the element is read and the
frame that was open is empty. -/
theorem copied_frame_loses_read :
    let s : Declared Nat := ⟨some 0, [some 7]⟩
    let c : Cursor (Declared Nat) := bind (some s) .withFraming
    let reads : List (Call (Declared Nat)) := [.next 0]
    (Origin.framed s).opening.result = .ok c ∧
      (∀ span, Subject.extract s span = Subject.copy s span) ∧
      (∀ call ∈ reads, call.IsRead) ∧ c.FindsAt (Call.framing reads) 1 0 7 ∧
      c.FlushGives reads (fun frame => frame = []) ∧
      ¬ c.FlushGives reads fun frame => ∀ t i a, c.FindsAt (Call.framing reads) t i a →
        frame[i - c.position]? = some (some a) := by
  intro s c reads
  have hfinds : c.FindsAt (Call.framing reads) 1 0 7 := ⟨rfl, 0, _, rfl, rfl, rfl⟩
  have hreads : ∀ call ∈ reads, call.IsRead := by simp [reads, Call.IsRead.next]
  refine ⟨rfl, fun _ => rfl, hreads, hfinds, ⟨_, [], rfl, rfl, rfl⟩, ?_⟩
  rintro ⟨reply, frame, hreply, hresult, hkeeps⟩
  obtain rfl := Option.some.inj hreply
  obtain rfl : [] = frame := Answer.frame.inj hresult
  have hget := hkeeps 1 0 7 hfinds
  cases hget

end Cursor

end FrameCursor
