import FrameCursor.Proofs.Printing

set_option autoImplicit false

namespace FrameCursor.Command

theorem mem_wordLog {text : String} {spans : List Span} {e : Event}
    (hw : AllWords text.toList 0 spans) (he : e ∈ wordLog text spans) :
    e ≠ .framingEnabled ∧ ∀ word stop, e = .word word stop → '\n' ∉ word.toList := by
  rcases List.mem_append.1 he with he | he
  · obtain ⟨s, hs, he⟩ := List.mem_flatMap.1 he
    have hword := (hw.mem_iff s).1 hs
    simp only [Cursor.wordEvents, Text.text_extract_word hword, List.mem_cons, List.not_mem_nil,
      or_false] at he
    rcases he with rfl | rfl | rfl
    · simp
    · simp
    · refine ⟨by simp, fun word stop heq => ?_⟩
      obtain ⟨rfl, -⟩ := Event.word.inj heq
      exact hword.no_newline
  · simp only [Cursor.blankEvents] at he
    split at he
    · rcases List.mem_pair.1 he with rfl | rfl <;> simp
    · cases he

theorem enabled_grows {v v' : Nat} (h : v ≤ v') {level : Level} (hl : level ∈ enabled v) :
    level ∈ enabled v' := by
  match v, v', h with
  | 0, _, _ => cases hl
  | 1, 1, _ | 2, 2, _ => exact hl
  | 1, 2, _ | 1, v' + 3, _ | 2, v' + 3, _ | v + 3, v' + 3, _ =>
    cases level <;> simp [enabled] at hl ⊢

def showing (v : Nat) (events : List Event) : List Event :=
  events.filter fun e => e.level ∈ enabled v

theorem showing_showing {v v' : Nat} (h : v ≤ v') (events : List Event) :
    showing v (showing v' events) = showing v events := by
  rw [showing, showing, List.filter_filter]
  refine List.filter_congr fun e _ => ?_
  by_cases hv : e.level ∈ enabled v
  · simp [hv, enabled_grows h hv]
  · simp [hv]

theorem FiltersByLevel.filter_eq {filter : String → Event → Bool} (h : FiltersByLevel filter)
    (v : Nat) (events : List Event) :
    events.filter (filter (directive v)) = showing v events := by
  refine List.filter_congr fun e _ => ?_
  rw [Bool.eq_iff_iff, h.directive_iff, decide_eq_true_iff]

theorem showing_notice (config : Config) (v : Nat) :
    showing v (notice config) =
      if 1 ≤ v ∧ config.framed = false then [.framingEnabled] else [] := by
  obtain ⟨framed⟩ := config
  match v, framed with
  | 0, true | 0, false => rfl
  | v + 1, true => simp [notice, showing]
  | 1, false | 2, false => rfl
  | v + 3, false => simp [notice, showing, enabled, Event.level]

/-- An output that gives the lines of these events, and after them these words, each on a line of its
own, so that splitting it at the line ends gives them back. -/
structure Shows (line : Event → String) (output : Output) (events : List Event)
    (words : List String) : Prop where
  output_eq : output = ⟨0, ofLines (events.map line) ++ ofLines words, ""⟩
  lines : (output.stdout.split '\n').toList.map (·.copy) = events.map line ++ words ++ [""]

theorem shows_of_printed {line : Event → String} (hline : OneLine line) {events : List Event}
    {words : List String}
    (hevents : ∀ e ∈ events, ∀ word stop, e = .word word stop → '\n' ∉ word.toList)
    (hwords : ∀ word ∈ words, '\n' ∉ word.toList) (shown : Event → Bool) :
    Shows line ((Ending.mk 0 (events.map .log ++ words.map .print)).output shown line)
      (events.filter shown) words := by
  rw [output_of_printed]
  refine ⟨by simp [ofLines], split_ofLines fun text htext => ?_⟩
  rcases List.mem_append.1 htext with htext | htext
  · obtain ⟨e, he, rfl⟩ := List.mem_map.1 htext
    exact hline e (hevents e (List.mem_of_mem_filter he))
  · exact hwords text htext

/-- With its log the command prints lines for the events that the filter in force lets through, and
then the words. The words and the events found with them are those of the text, under every
configuration that is to be had, and only the notice that framing was off comes before them. Where the
environment sets no filter, the log at a lower verbosity is that at a higher one without the levels
that are not enabled. -/
theorem log_then_words {tools : Tools} (hfilter : FiltersByLevel tools.filter)
    (hline : OneLine tools.line) {text : String} (ht : text ≠ "")
    (hn : text.length ≤ Position.ceiling) :
    ∃ spans, AllWords text.toList 0 spans ∧
      let words := spans.map (charsOf text.toList)
      let events config := notice config ++ wordLog text spans
      Event.framingEnabled ∉ wordLog text spans ∧
      (∀ config v, showing v (notice config) =
        if 1 ≤ v ∧ config.framed = false then [.framingEnabled] else []) ∧
      (∀ config v v', v ≤ v' →
        showing v (showing v' (events config)) = showing v (events config)) ∧
      ∀ (around : Surroundings) path config,
        Loads tools.decode around.read path config →
        (program tools.decode around.read text path).ending =
            ⟨0, (events config).map .log ++ words.map .print⟩ ∧
          ∀ v arguments, tools.parse arguments = .ok ⟨text, path, v⟩ →
            (around.logFilter = none →
              Shows tools.line (execute tools around arguments)
                (showing v (notice config) ++ showing v (wordLog text spans)) words) ∧
            ∀ shown, around.logFilter = some shown →
              Shows tools.line (execute tools around arguments)
                ((events config).filter shown) words := by
  obtain ⟨spans, hw⟩ := exists_allWords ht hn
  have hwords : WordsOf text (spans.map (charsOf text.toList)) := ⟨spans, hw, rfl⟩
  refine ⟨spans, hw, fun hmem => (mem_wordLog hw hmem).1 rfl, showing_notice,
    fun config v v' h => showing_showing h _, fun around path config hload => ?_⟩
  -- What is done is the same at every verbosity; only what shows of it depends on the filter.
  have hending := ending_of_loads hw ht hn hload
  refine ⟨hending, fun v arguments hargs => ?_⟩
  have hevents : ∀ e ∈ notice config ++ wordLog text spans, ∀ word stop,
      e = .word word stop → '\n' ∉ word.toList := by
    intro e he
    rcases List.mem_append.1 he with he | he
    · rw [notice] at he
      split at he
      · cases he
      · simp [List.mem_singleton.1 he]
    · exact (mem_wordLog hw he).2
  have hshows := shows_of_printed hline hevents fun word => hwords.no_newline
  rw [execute_eq hargs, hending]
  refine ⟨fun hunset => ?_, fun shown hset => ?_⟩
  · rw [hunset]
    have hlog := hshows (tools.filter (directive v))
    rw [hfilter.filter_eq, showing, List.filter_append] at hlog
    exact hlog
  · rw [hset]
    exact hshows shown

/-- A file that turns framing on takes the notice away and changes nothing else; and with a filter from
the environment that lets nothing through, the words are all that is printed, whatever was asked
for. -/
theorem log_then_words_framing_file :
    let text := "añb  ç "
    let arguments (path : String) := ["--config=" ++ path, "-v", "--", text]
    let read (name : String) : Except ReadFault String :=
      if name = "framed.toml" then .ok "framed = true\n" else .ok "framed = false\n"
    FiltersByLevel tools.filter ∧ OneLine tools.line ∧ text ≠ "" ∧
      text.length ≤ Position.ceiling ∧
      ∃ spans, AllWords text.toList 0 spans ∧
        let words := spans.map (charsOf text.toList)
        Shows tools.line (execute tools ⟨read, none⟩ (arguments "cursor.toml"))
          (.framingEnabled :: showing 1 (wordLog text spans)) words ∧
        Shows tools.line (execute tools ⟨read, none⟩ (arguments "framed.toml"))
          (showing 1 (wordLog text spans)) words ∧
        execute tools ⟨read, some fun _ => false⟩ (arguments "cursor.toml") =
          ⟨0, ofLines words, ""⟩ := by
  intro text arguments read
  have ht : text ≠ "" := by decide
  have hn : text.length ≤ Position.ceiling := by decide
  have hargs (path : String) (h : path ≠ "") :
      tools.parse (arguments path) = .ok ⟨text, some path, 1⟩ := tools_parse text h 1
  have hplain : Loads tools.decode read (some "cursor.toml") ⟨false⟩ :=
    .file (by simp [read] : read "cursor.toml" = .ok "framed = false\n") rfl
  have hframed : Loads tools.decode read (some "framed.toml") ⟨true⟩ :=
    .file (by simp [read] : read "framed.toml" = .ok "framed = true\n") rfl
  obtain ⟨spans, hw, -, -, -, hshows⟩ :=
    log_then_words filtersByLevel_tools Event.oneLine_line ht hn
  have hunset := (hshows ⟨read, none⟩ _ _ hplain).2 1 _ (hargs _ (by decide))
  have hon := (hshows ⟨read, none⟩ _ _ hframed).2 1 _ (hargs _ (by decide))
  have hset := (hshows ⟨read, some fun _ => false⟩ _ _ hplain).2 1 _ (hargs _ (by decide))
  refine ⟨filtersByLevel_tools, Event.oneLine_line, ht, hn, spans, hw, hunset.1 rfl, hon.1 rfl, ?_⟩
  rw [(hset.2 _ rfl).output_eq, List.filter_eq_nil_iff.2 fun e _ => Bool.false_ne_true]
  rfl

end FrameCursor.Command
