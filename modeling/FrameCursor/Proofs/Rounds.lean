import FrameCursor.Proofs.Splitting

/-!
Splitting a text with its work counted. The loops are told without a bound on their rounds, so that
a derivation is a run that comes to its end; along with the reply it gives the number of rounds and
every read that moves. On a framed cursor over a text there is exactly one such run: it reads each
character from the position on once, and takes a round for each word and one for blanks at the end.
-/

set_option autoImplicit false

namespace FrameCursor

namespace Cursor

/-- The inner loops: looking at the current character, and moving past it while it satisfies `p`.
Each read is noted with its position and what it found. -/
inductive Skips (p : Char → Bool) :
    Cursor Text → List (Nat × Option Char) → Cursor Text → Prop where
  | halt {c : Cursor Text} (h : (c.peek 0).any p = false) : Skips p c [] c
  | move {c c' : Cursor Text} {reads : List (Nat × Option Char)} (h : (c.peek 0).any p = true)
      (later : Skips p (c.next 0).2 reads c') :
      Skips p c ((c.position, (c.next 0).1) :: reads) c'

inductive Cuts :
    Cursor Text → List (Nat × Option Char) → Reply Text (Except CursorError Excerpt) →
      Prop where
  | refused {c c₁ : Cursor Text} {reads : List (Nat × Option Char)} {e : CursorError}
      (blanks : Skips isBlank c reads c₁) (h : c₁.record.result = .error e) :
      Cuts c reads ⟨.error e, c₁.record.cursor, c₁.record.events⟩
  | cut {c c₁ c₂ : Cursor Text} {reads reads' : List (Nat × Option Char)}
      (blanks : Skips isBlank c reads c₁) (h : c₁.record.result = .ok ())
      (solids : Skips (fun ch => !isBlank ch) c₁.record.cursor reads' c₂) :
      Cuts c (reads ++ reads')
        ⟨c₂.flush.result, c₂.flush.cursor, c₁.record.events ++ c₂.flush.events⟩

def keepWord (word : Excerpt) (after : Cursor Text)
    (rest : Reply Text (Except CursorError (List Excerpt))) :
    Reply Text (Except CursorError (List Excerpt)) :=
  if word.isEmpty then rest
  else ⟨rest.result.map (word :: ·), rest.cursor,
    .word word.text after.position :: rest.events⟩

/-- The outer loop, with the number of its rounds. -/
inductive Splits : Cursor Text → Nat → List (Nat × Option Char) →
    Reply Text (Except CursorError (List Excerpt)) → Prop where
  | ended {c : Cursor Text} (h : c.atEnd 0 = true) : Splits c 0 [] ⟨.ok [], c, []⟩
  | failed {c : Cursor Text} {reads : List (Nat × Option Char)}
      {r : Reply Text (Except CursorError Excerpt)} {e : CursorError} (h : c.atEnd 0 = false)
      (cuts : Cuts c reads r) (hr : r.result = .error e) :
      Splits c 1 reads ⟨.error e, r.cursor, r.events⟩
  | round {c : Cursor Text} {reads reads' : List (Nat × Option Char)}
      {r : Reply Text (Except CursorError Excerpt)} {word : Excerpt} {rounds : Nat}
      {rest : Reply Text (Except CursorError (List Excerpt))} (h : c.atEnd 0 = false)
      (cuts : Cuts c reads r) (hr : r.result = .ok word)
      (later : Splits r.cursor rounds reads' rest) :
      Splits c (rounds + 1) (reads ++ reads') ⟨(keepWord word r.cursor rest).result,
        (keepWord word r.cursor rest).cursor,
        r.events ++ (keepWord word r.cursor rest).events⟩

theorem Skips.unique {p : Char → Bool} {c c' c'' : Cursor Text}
    {reads reads' : List (Nat × Option Char)} (h : Skips p c reads c')
    (h' : Skips p c reads' c'') : reads = reads' ∧ c' = c'' := by
  induction h generalizing reads' with
  | halt hhalt =>
    cases h' with
    | halt _ => exact ⟨rfl, rfl⟩
    | move hmove _ => simp [hhalt] at hmove
  | move hmove _ ih =>
    cases h' with
    | halt hhalt => simp [hhalt] at hmove
    | move _ later =>
      obtain ⟨rfl, rfl⟩ := ih later
      exact ⟨rfl, rfl⟩

theorem Cuts.unique {c : Cursor Text} {reads reads' : List (Nat × Option Char)}
    {r r' : Reply Text (Except CursorError Excerpt)} (h : Cuts c reads r)
    (h' : Cuts c reads' r') : reads = reads' ∧ r = r' := by
  cases h with
  | refused blanks he =>
    cases h' with
    | refused blanks' he' =>
      obtain ⟨rfl, rfl⟩ := blanks.unique blanks'
      obtain rfl := Except.error.inj (he.symm.trans he')
      exact ⟨rfl, rfl⟩
    | cut blanks' hok _ =>
      obtain ⟨-, rfl⟩ := blanks.unique blanks'
      simp [he] at hok
  | cut blanks hok solids =>
    cases h' with
    | refused blanks' he =>
      obtain ⟨-, rfl⟩ := blanks.unique blanks'
      simp [he] at hok
    | cut blanks' _ solids' =>
      obtain ⟨rfl, rfl⟩ := blanks.unique blanks'
      obtain ⟨rfl, rfl⟩ := solids.unique solids'
      exact ⟨rfl, rfl⟩

theorem Splits.unique {c : Cursor Text} {rounds rounds' : Nat}
    {reads reads' : List (Nat × Option Char)}
    {r r' : Reply Text (Except CursorError (List Excerpt))} (h : Splits c rounds reads r)
    (h' : Splits c rounds' reads' r') : rounds = rounds' ∧ reads = reads' ∧ r = r' := by
  -- The guards leave the other run the same way to go on, round for round.
  induction h generalizing rounds' reads' r' with
  | ended hend =>
    cases h' with
    | ended _ => exact ⟨rfl, rfl, rfl⟩
    | failed hgo _ _ => simp [hend] at hgo
    | round hgo _ _ _ => simp [hend] at hgo
  | failed hgo cuts he =>
    cases h' with
    | ended hend => simp [hend] at hgo
    | failed _ cuts' he' =>
      obtain ⟨rfl, rfl⟩ := cuts.unique cuts'
      obtain rfl := Except.error.inj (he.symm.trans he')
      exact ⟨rfl, rfl, rfl⟩
    | round _ cuts' hok _ =>
      obtain ⟨-, rfl⟩ := cuts.unique cuts'
      simp [he] at hok
  | round hgo cuts hok _ ih =>
    cases h' with
    | ended hend => simp [hend] at hgo
    | failed _ cuts' he =>
      obtain ⟨-, rfl⟩ := cuts.unique cuts'
      simp [he] at hok
    | round _ cuts' hok' later =>
      obtain ⟨rfl, rfl⟩ := cuts.unique cuts'
      obtain rfl := Except.ok.inj (hok.symm.trans hok')
      obtain ⟨rfl, rfl, rfl⟩ := ih later
      exact ⟨rfl, rfl, rfl⟩

def readsBetween (t : Text) (i j : Nat) : List (Nat × Option Char) :=
  (List.range' i (j - i)).map fun k => (k, t.chars[k]?)

theorem readsBetween_of_le {i j : Nat} (t : Text) (h : j ≤ i) : readsBetween t i j = [] := by
  simp [readsBetween, Nat.sub_eq_zero_of_le h]

theorem readsBetween_of_lt {i j : Nat} (t : Text) (h : i < j) :
    readsBetween t i j = (i, t.chars[i]?) :: readsBetween t (i + 1) j := by
  have hcount : j - i = j - (i + 1) + 1 := by omega
  rw [readsBetween, hcount, List.range'_succ, List.map_cons]
  rfl

theorem readsBetween_append {i j k : Nat} (t : Text) (hij : i ≤ j) (hjk : j ≤ k) :
    readsBetween t i j ++ readsBetween t j k = readsBetween t i k := by
  have hcount : k - i = (j - i) + (k - j) := by omega
  have hmid : i + 1 * (j - i) = j := by omega
  rw [readsBetween, readsBetween, readsBetween, hcount, ← List.range'_append, hmid,
    List.map_append]

theorem isSome_of_mem_readsBetween {t : Text} {i : Nat} {e : Nat × Option Char}
    (h : e ∈ readsBetween t i t.length) : e.2.isSome = true := by
  obtain ⟨k, hk, rfl⟩ := List.mem_map.1 h
  rw [List.mem_range'_1] at hk
  have hlt : k < t.chars.length := by
    rw [t.length_chars]
    omega
  simp [List.getElem?_eq_getElem hlt]

theorem ReadsText.next_fst {c : Cursor Text} {t : Text} (h : c.ReadsText t) :
    (c.next 0).1 = t.chars[c.position]? := by
  rw [← h.peek_zero]
  cases hp : c.peek 0 <;> simp [next, hp]

theorem ReadsText.skips {c : Cursor Text} {t : Text} (h : c.ReadsText t) (p : Char → Bool) :
    Skips p c (readsBetween t c.position (endOfRun p t.chars c.position))
      { c with position := endOfRun p t.chars c.position } := by
  induction hd : t.length - c.position generalizing c with
  | zero =>
    have hnone : t.chars[c.position]? = none :=
      List.getElem?_eq_none (by rw [t.length_chars]; omega)
    rw [endOfRun_of_none hnone, readsBetween_of_le t (Nat.le_refl _)]
    exact .halt (by simp [h.peek_zero, hnone])
  | succ d ih =>
    have hlt : c.position < t.chars.length := by rw [t.length_chars]; omega
    have hch := List.getElem?_eq_getElem hlt
    cases hp : p t.chars[c.position] with
    | false =>
      rw [endOfRun_of_some hch, hp, if_neg (by simp), readsBetween_of_le t (Nat.le_refl _)]
      exact .halt (by simp [h.peek_zero, hch, hp])
    | true =>
      rw [t.length_chars] at hlt
      have hlater := ih (h.move hlt c.frameStart) (by simp only; omega)
      have hle : c.position + 1 ≤ endOfRun p t.chars (c.position + 1) := le_endOfRun _ _ _
      rw [endOfRun_of_some hch, hp, if_pos rfl, readsBetween_of_lt t hle, ← h.next_fst]
      exact .move (by simp [h.peek_zero, hch, hp]) (by rwa [h.next_zero hch])

theorem record_of_framed {c : Cursor Text} (hf : c.isFramed = true) :
    c.record = ⟨.ok (), { c with frameStart := some c.position }, [.recorded c.position]⟩ := by
  simp [record, hf]

theorem ReadsText.cuts {c : Cursor Text} {t : Text} (h : c.ReadsText t)
    (hf : c.isFramed = true) (hp : c.position ≤ t.length) :
    Cuts c (readsBetween t c.position (wordStop t.chars c.position)) c.cutWord := by
  have hblanks : Skips isBlank c (readsBetween t c.position (wordStart t.chars c.position))
      { c with position := wordStart t.chars c.position } := h.skips isBlank
  have hrecord := record_of_framed (c := { c with position := wordStart t.chars c.position }) hf
  have hmarked := h.move (t.wordStart_le hp) (some (wordStart t.chars c.position))
  have hsolids : Skips (fun ch => !isBlank ch)
      { c with
        position := wordStart t.chars c.position
        frameStart := some (wordStart t.chars c.position) }
      (readsBetween t (wordStart t.chars c.position) (wordStop t.chars c.position))
      { c with
        position := wordStop t.chars c.position
        frameStart := some (wordStart t.chars c.position) } :=
    hmarked.skips fun ch => !isBlank ch
  have hcut := Cuts.cut hblanks (by rw [hrecord]) (by rwa [hrecord])
  have hreads : readsBetween t c.position (wordStart t.chars c.position) ++
      readsBetween t (wordStart t.chars c.position) (wordStop t.chars c.position) =
        readsBetween t c.position (wordStop t.chars c.position) :=
    readsBetween_append t (le_endOfRun _ _ _) (wordStart_le_wordStop _ _)
  rw [hrecord, hreads] at hcut
  rw [h.cutWord_eq hf hp]
  simp only [isFramed] at hf
  simpa [flush, isFramed, hf, h.subject, Subject.extract] using hcut

theorem ReadsText.splits_of_end {c : Cursor Text} {t : Text} (h : c.ReadsText t)
    (hle : t.length ≤ c.position) (n : Nat) :
    Splits c 0 (readsBetween t c.position t.length) (wordsWithin n c) := by
  rw [h.wordsWithin_of_end hle, readsBetween_of_le t hle]
  exact .ended (h.atEnd_iff.2 hle)

theorem ReadsText.splits {c : Cursor Text} {t : Text} (h : c.ReadsText t)
    (hf : c.isFramed = true) {n : Nat} (hn : t.length - c.position ≤ n) :
    ∃ rounds, Splits c rounds (readsBetween t c.position t.length) (wordsWithin n c) := by
  -- Each round moves past a character, so that the bound stays ahead of what is left.
  induction n generalizing c with
  | zero => exact ⟨0, h.splits_of_end (by omega) 0⟩
  | succ n ih =>
    by_cases hlt : c.position < t.length
    · have hgo : c.atEnd 0 = false := h.atEnd_of_lt hlt
      have hstop := t.wordStop_le (Nat.le_of_lt hlt)
      have hmove : c.position < wordStop t.chars c.position :=
        lt_wordStop (by rwa [t.length_chars])
      obtain ⟨rounds, hlater⟩ := ih (h.move hstop none) hf (by simp only; omega)
      have hcuts := h.cuts hf (Nat.le_of_lt hlt)
      have hcut := h.cutWord_eq hf (Nat.le_of_lt hlt)
      have hround := Splits.round hgo hcuts (by rw [hcut]) (by rwa [hcut])
      rw [readsBetween_append t (Nat.le_of_lt hmove) hstop] at hround
      refine ⟨rounds + 1, ?_⟩
      simpa [wordsWithin, hgo, Reply.andThen, hcut, keepWord] using hround
    · exact ⟨0, h.splits_of_end (Nat.le_of_not_lt hlt) (n + 1)⟩

def recordsIn (events : List Event) : Nat :=
  events.countP fun e => match e with | .recorded _ => true | _ => false

theorem recordsIn_append (first rest : List Event) :
    recordsIn (first ++ rest) = recordsIn first + recordsIn rest := List.countP_append

theorem recordsIn_record {c : Cursor Text} (h : c.record.result = .ok ()) :
    recordsIn c.record.events = 1 := by
  cases hf : c.isFramed with
  | false => simp [record, hf] at h
  | true =>
    rw [record_of_framed hf]
    rfl

theorem recordsIn_flush (c : Cursor Text) : recordsIn c.flush.events = 0 := by
  unfold flush
  split
  · split
    · rfl
    · split <;> rfl
  · rfl

theorem Cuts.recordsIn_eq {c : Cursor Text} {reads : List (Nat × Option Char)}
    {r : Reply Text (Except CursorError Excerpt)} {word : Excerpt} (h : Cuts c reads r)
    (hr : r.result = .ok word) : recordsIn r.events = 1 := by
  cases h with
  | refused _ _ => cases hr
  | cut _ hok _ => rw [recordsIn_append, recordsIn_record hok, recordsIn_flush]

theorem recordsIn_keepWord (word : Excerpt) (after : Cursor Text)
    (rest : Reply Text (Except CursorError (List Excerpt))) :
    recordsIn (keepWord word after rest).events = recordsIn rest.events := by
  unfold keepWord
  split
  · rfl
  · simp [recordsIn]

theorem result_of_keepWord {word : Excerpt} {after : Cursor Text}
    {rest : Reply Text (Except CursorError (List Excerpt))} {words : List Excerpt}
    (h : (keepWord word after rest).result = .ok words) : ∃ later, rest.result = .ok later := by
  cases hr : rest.result with
  | ok later => exact ⟨later, rfl⟩
  | error e =>
    unfold keepWord at h
    split at h <;> simp [hr, Except.map] at h

theorem Splits.recordsIn_eq {c : Cursor Text} {rounds : Nat} {reads : List (Nat × Option Char)}
    {r : Reply Text (Except CursorError (List Excerpt))} {words : List Excerpt}
    (h : Splits c rounds reads r) (hr : r.result = .ok words) :
    recordsIn r.events = rounds := by
  induction h generalizing words with
  | ended _ => rfl
  | failed _ _ _ => cases hr
  | round _ cuts hok _ ih =>
    obtain ⟨later, hlater⟩ := result_of_keepWord hr
    rw [recordsIn_append, cuts.recordsIn_eq hok, recordsIn_keepWord, ih hlater, Nat.add_comm]

theorem recordsIn_wordEvents (t : Text) (spans : List Span) :
    recordsIn (spans.flatMap (wordEvents t)) = spans.length := by
  induction spans with
  | nil => rfl
  | cons s spans ih =>
    rw [List.flatMap_cons, recordsIn_append, ih, List.length_cons, Nat.add_comm]
    rfl

def blankRounds (t : Text) (start : Nat) : Nat :=
  if start < t.length ∧ t.chars.getLast?.any isBlank = true then 1 else 0

theorem recordsIn_blankEvents (t : Text) (start : Nat) :
    recordsIn (blankEvents t start) = blankRounds t start := by
  unfold blankEvents blankRounds
  split <;> rfl

/-- Splitting on a framed cursor comes to an end. It takes a round for each word and one for blanks
at the end, reads each character that is left once and in order, and logs what the rounds did. There
is no other way for it to go. -/
theorem splitting_accounted {c : Cursor Text} {t : Text} (hc : c.Reachable)
    (hf : c.isFramed = true) (hs : c.subject = some t) (hn : t.length ≤ Position.ceiling) :
    ∃ spans, AllWords t.chars c.position spans ∧ (∀ s ∈ spans, CutAt t s (t.extract s)) ∧
      Splits c (spans.length + blankRounds t c.position) (readsBetween t c.position t.length)
        c.words ∧
      (∀ e ∈ readsBetween t c.position t.length, e.2.isSome = true) ∧
      c.words.events = spans.flatMap (wordEvents t) ++ blankEvents t c.position ∧
      ∀ rounds reads r, Splits c rounds reads r →
        rounds = spans.length + blankRounds t c.position ∧
          reads = readsBetween t c.position t.length ∧ r = c.words := by
  have h := ReadsText.of_reachable hc hs hn
  obtain ⟨spans, hwords, heq⟩ := h.words_eq hf
  have hfuel : t.length - c.position ≤ c.remaining + 1 := by
    simp only [remaining, hs]
    omega
  obtain ⟨rounds, hsplits⟩ : ∃ rounds, Splits c rounds (readsBetween t c.position t.length)
    c.words := h.splits hf hfuel
  have hok : c.words.result = .ok (spans.map t.extract) := by rw [heq]
  have hrounds : rounds = spans.length + blankRounds t c.position := by
    have hcount := hsplits.recordsIn_eq hok
    rw [heq, recordsIn_append, recordsIn_wordEvents, recordsIn_blankEvents] at hcount
    exact hcount.symm
  subst hrounds
  refine ⟨spans, hwords, fun s hmem => ?_, hsplits, fun e he => isSome_of_mem_readsBetween he,
    by rw [heq], fun rounds reads r hr => hr.unique hsplits⟩
  have hword := (hwords.mem_iff s).1 hmem
  have hstop := hword.stop_le
  rw [t.length_chars] at hstop
  exact cutAt_extract (Nat.le_of_lt hword.nonempty) hstop

/-- From the middle of a word, with an open frame, in a text that ends in a blank: three rounds for
two words, and six reads. -/
theorem splitting_accounted_trailing_blank :
    let t := Text.ofString "añb  ç "
    let c : Cursor Text := ⟨some t, 1, some 0, .withFraming⟩
    c.Reachable ∧ t.length ≤ Position.ceiling ∧
      Splits c 3 [(1, some 'ñ'), (2, some 'b'), (3, some ' '), (4, some ' '), (5, some 'ç'),
        (6, some ' ')] c.words ∧
      ∀ rounds reads r, Splits c rounds reads r → rounds = 3 := by
  have ho : (Origin.framed (Text.ofString "añb  ç ")).opening.result =
      .ok (bind (some (Text.ofString "añb  ç ")) .withFraming) := rfl
  have hrun : (bind (some (Text.ofString "añb  ç ")) .withFraming).afterActions
      [.perform .record, .perform (.next 0)] =
        ⟨some (Text.ofString "añb  ç "), 1, some 0, .withFraming⟩ := rfl
  have hn : (Text.ofString "añb  ç ").length ≤ Position.ceiling := by decide
  intro t c
  have hc : c.Reachable := ⟨_, _, _, ho, hrun⟩
  obtain ⟨spans, -, -, hsplits, -, hevents, hunique⟩ := splitting_accounted hc rfl rfl hn
  have hrounds : spans.length + blankRounds t c.position = 3 := by
    have hcount : recordsIn c.words.events = 3 := by decide +kernel
    rwa [hevents, recordsIn_append, recordsIn_wordEvents, recordsIn_blankEvents] at hcount
  have hreads : readsBetween t c.position t.length = [(1, some 'ñ'), (2, some 'b'), (3, some ' '),
      (4, some ' '), (5, some 'ç'), (6, some ' ')] := by decide +kernel
  rw [hrounds, hreads] at hsplits
  exact ⟨hc, hn, hsplits, fun rounds reads r hr => (hunique rounds reads r hr).1.trans hrounds⟩

end Cursor

end FrameCursor
