import FrameCursor.Cursor.Action

set_option autoImplicit false

namespace FrameCursor

variable {σ α φ : Type} [Subject σ α φ]

namespace Cursor

theorem after_append (c : Cursor σ) (first rest : List (Call σ)) :
    c.after (first ++ rest) = (c.after first).after rest :=
  List.foldl_append

@[simp] theorem logged_cons (c : Cursor σ) (call : Call σ) (calls : List (Call σ)) :
    c.logged (call :: calls) = (c.perform call).events ++ (c.perform call).cursor.logged calls :=
  rfl

theorem logged_append (c : Cursor σ) (first rest : List (Call σ)) :
    c.logged (first ++ rest) = c.logged first ++ (c.after first).logged rest := by
  induction first generalizing c with
  | nil => rfl
  | cons call first ih =>
    rw [List.cons_append, logged_cons, logged_cons, ih, List.append_assoc]
    rfl

theorem OnlyOnward.append {calls calls' : List (Call σ)} (h : OnlyOnward calls)
    (h' : OnlyOnward calls') : OnlyOnward (calls ++ calls') := fun call hmem =>
  (List.mem_append.1 hmem).elim (h call) (h' call)

/-- Calls that go onward lead from the one cursor to the other and trace what these events trace. -/
def Reads (c : Cursor σ) (events : List Event) (c' : Cursor σ) : Prop :=
  ∃ calls : List (Call σ), OnlyOnward calls ∧ c.after calls = c' ∧
    Event.traces (c.logged calls) = Event.traces events

theorem Reads.refl (c : Cursor σ) : c.Reads [] c := ⟨[], nofun, rfl, rfl⟩

theorem Reads.trans {a b c : Cursor σ} {first rest : List Event} (hab : a.Reads first b)
    (hbc : b.Reads rest c) : a.Reads (first ++ rest) c := by
  obtain ⟨calls, hc, rfl, ht⟩ := hab
  obtain ⟨calls', hc', rfl, ht'⟩ := hbc
  refine ⟨calls ++ calls', hc.append hc', after_append a calls calls', ?_⟩
  rw [logged_append, Event.traces_append, Event.traces_append, ht, ht']

theorem reads_perform (c : Cursor σ) (call : Call σ) (hw : call ≠ .rewind)
    (hr : ∀ s, call ≠ .reset s) : c.Reads (c.perform call).events (c.perform call).cursor := by
  refine ⟨[call], fun call' h => ?_, rfl, ?_⟩
  · obtain rfl : call' = call := by simpa using h
    exact ⟨hw, hr⟩
  · simp [logged, run]

theorem reads_next (c : Cursor σ) (k : Nat) : c.Reads [] (c.next k).2 :=
  c.reads_perform (.next k) (by simp) (by simp)

theorem reads_record (c : Cursor σ) : c.Reads c.record.events c.record.cursor :=
  c.reads_perform .record (by simp) (by simp)

theorem reads_flush (c : Cursor σ) : c.Reads c.flush.events c.flush.cursor :=
  c.reads_perform .flush (by simp) (by simp)

theorem Reads.andThen {c : Cursor σ} {β γ : Type} {r : Reply σ (Except CursorError β)}
    {next : β → Cursor σ → Reply σ (Except CursorError γ)} (h : c.Reads r.events r.cursor)
    (hn : ∀ b, r.cursor.Reads (next b r.cursor).events (next b r.cursor).cursor) :
    c.Reads (r.andThen next).events (r.andThen next).cursor := by
  cases hr : r.result with
  | error e => simpa [Reply.andThen, hr] using h
  | ok b => simpa [Reply.andThen, hr] using h.trans (hn b)

theorem reads_skip (p : Char → Bool) (n : Nat) (c : Cursor Text) : c.Reads [] (skip p n c) := by
  induction n generalizing c with
  | zero => exact .refl c
  | succ n ih =>
    simp only [skip]
    split
    · exact .refl c
    · split
      · exact (c.reads_next 0).trans (ih _)
      · exact .refl c

theorem reads_cutWord (c : Cursor Text) : c.Reads c.cutWord.events c.cutWord.cursor := by
  have hskip : c.Reads [] (c.skipWhile isBlank) := reads_skip _ _ c
  have hcut : (c.skipWhile isBlank).Reads c.cutWord.events c.cutWord.cursor := by
    refine Reads.andThen (reads_record _) fun _ => ?_
    exact (reads_skip _ _ _).trans (reads_flush _)
  exact hskip.trans hcut

theorem Reads.found {c c' : Cursor σ} {events : List Event} (h : c.Reads events c') (word : String)
    (stop : Nat) : c.Reads (.word word stop :: events) c' := by
  -- The event is of level debug, so the traces are the same.
  obtain ⟨calls, hc, ha, ht⟩ := h
  exact ⟨calls, hc, ha, ht⟩

theorem reads_wordsWithin (n : Nat) (c : Cursor Text) :
    c.Reads (wordsWithin n c).events (wordsWithin n c).cursor := by
  induction n generalizing c with
  | zero => exact .refl c
  | succ n ih =>
    simp only [wordsWithin]
    split
    · exact .refl c
    · refine Reads.andThen c.reads_cutWord fun word => ?_
      split
      · exact ih _
      · exact (ih _).found _ _

theorem reads_words (c : Cursor Text) : c.Reads c.words.events c.words.cursor :=
  c.reads_wordsWithin _

end Cursor

end FrameCursor
