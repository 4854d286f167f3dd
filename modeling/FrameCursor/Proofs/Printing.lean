import FrameCursor.Proofs.Program
import FrameCursor.Proofs.Tools

set_option autoImplicit false

namespace FrameCursor.Command

theorem ofLines_eq (lines : List String) :
    ofLines lines = String.intercalate (String.singleton '\n') (lines ++ [""]) := by
  induction lines with
  | nil => rfl
  | cons line lines ih =>
    rw [List.cons_append, String.intercalate_cons_of_ne_nil (by simp), ← ih]
    simp [ofLines, String.append_assoc]

theorem split_ofLines {lines : List String} (h : ∀ line ∈ lines, '\n' ∉ line.toList) :
    ((ofLines lines).split '\n').toList.map (·.copy) = lines ++ [""] := by
  -- After the last line end stands one more piece, which is empty.
  have hempty : ∀ line ∈ lines ++ [""], '\n' ∉ line.toList := by
    intro line hl
    rcases List.mem_append.1 hl with hl | hl
    · exact h line hl
    · simp [List.mem_singleton.1 hl]
  rw [ofLines_eq, String.toList_split_intercalate hempty, if_neg (by simp)]

theorem filterMap_log (shown : Event → Bool) (line : Event → String) (events : List Event) :
    (events.map Act.log).filterMap (Act.outLine? shown line) = (events.filter shown).map line := by
  induction events with
  | nil => rfl
  | cons e events ih =>
    rw [List.map_cons, List.filterMap_cons, List.filter_cons]
    cases hshown : shown e <;> simp [Act.outLine?, hshown, ih]

theorem filterMap_print (shown : Event → Bool) (line : Event → String) (words : List String) :
    (words.map Act.print).filterMap (Act.outLine? shown line) = words := by
  induction words with
  | nil => rfl
  | cons word words ih => simpa [Act.outLine?] using ih

theorem output_of_printed (events : List Event) (words : List String) (shown : Event → Bool)
    (line : Event → String) :
    (Ending.mk 0 (events.map .log ++ words.map .print)).output shown line =
      ⟨0, ofLines ((events.filter shown).map line ++ words), ""⟩ := by
  have hreports : (events.map Act.log ++ words.map Act.print).filterMap Act.errLine? = [] := by
    simp [Act.errLine?, List.filterMap_eq_nil_iff]
  rw [Ending.output, hreports, List.filterMap_append, filterMap_log, filterMap_print]
  rfl

theorem output_of_reported (events : List Event) (report : String) (shown : Event → Bool)
    (line : Event → String) :
    (Ending.mk 1 (events.map .log ++ [.report report])).output shown line =
      ⟨1, ofLines ((events.filter shown).map line), report ++ "\n"⟩ := by
  have hreports : (events.map Act.log ++ [Act.report report]).filterMap Act.errLine? = [report] := by
    simp [Act.errLine?, List.filterMap_map, Function.comp_def]
  rw [Ending.output, hreports, List.filterMap_append, filterMap_log]
  simp [ofLines, Act.outLine?, List.filterMap_cons]

theorem execute_eq {tools : Tools} {around : Surroundings} {arguments : List String} {o : Options}
    (hargs : tools.parse arguments = .ok o) :
    execute tools around arguments =
      (program tools.decode around.read o.text o.configPath).ending.output
        (around.logFilter.getD (tools.filter (directive o.verbosity))) tools.line := by
  simp only [execute, hargs]

theorem Ending.FailsWith.output_eq {e : Ending} {report : String} (h : e.FailsWith report)
    {shown : Event → Bool} (hshown : ∀ e, shown e = false) (line : Event → String) :
    e.output shown line = ⟨1, "", report ++ "\n"⟩ := by
  obtain ⟨code, acts⟩ := e
  obtain ⟨rfl, events, rfl⟩ := h
  have hnone : events.filter shown = [] := List.filter_eq_nil_iff.2 fun e _ => by simp [hshown e]
  rw [output_of_reported, hnone]
  rfl

variable {decode : String → Except String Config} {read : String → Except ReadFault String}
  {text : String} {path : Option String} {config : Config}

/-- What the command leaves for a text and the name of a file that may hold a configuration: the words
of the text, one on a line, or one report on the error stream and nothing else. -/
structure Prints (decode : String → Except String Config)
    (read : String → Except ReadFault String) (text : String) (path : Option String)
    (ending : Ending) (output : Output) : Prop where
  found : ∀ config, Loads decode read path config → text ≠ "" →
    (∃ words, WordsOf text words) ∧
    (∀ words, WordsOf text words → output = ⟨0, ofLines words, ""⟩ ∧
      (output.stdout.split '\n').toList.map (·.copy) = words ++ [""]) ∧
    ((∀ ch ∈ text.toList, isBlank ch = true) → output.stdout = "")
  failed : (¬ ∃ config, Loads decode read path config) ∨ text = "" →
    ∃ report, ending.FailsWith report ∧ output = ⟨1, "", report ++ "\n"⟩
  unreadable : ∀ name fault, path = some name → read name = .error fault →
    output = ⟨1, "",
      "Error: failed to read config file: " ++ name ++ ": " ++ fault.message ++ "\n"⟩
  refused : ∀ name document reason, path = some name → read name = .ok document →
    decode document = .error reason → output = ⟨1, "",
      "Error: configuration error: failed to parse cursor config: " ++ reason ++ "\n"⟩
  empty : ∀ config, Loads decode read path config → text = "" → output = ⟨1, "",
    "Error: input text must not be empty: invalid input: subject has no element at index 0\n"⟩

theorem report_unreadable (name : String) (fault : ReadFault) :
    (Failure.unreadable name fault).report =
      "Error: failed to read config file: " ++ name ++ ": " ++ fault.message := by
  have hcauses : ": ".intercalate (Failure.unreadable name fault).causes =
      "failed to read config file: " ++ name ++ ": " ++ fault.message := rfl
  have hhead : "Error: " ++ "failed to read config file: " =
      "Error: failed to read config file: " := rfl
  rw [Failure.report, hcauses, ← String.append_assoc, ← String.append_assoc, ← String.append_assoc,
    hhead]

theorem report_malformed (reason : String) :
    (Failure.malformed (.config ("failed to parse cursor config: " ++ reason))).report =
      "Error: configuration error: failed to parse cursor config: " ++ reason := by
  have hcauses : ": ".intercalate
      (Failure.malformed (.config ("failed to parse cursor config: " ++ reason))).causes =
        "configuration error: " ++ ("failed to parse cursor config: " ++ reason) := rfl
  have hhead : "Error: " ++ "configuration error: " ++ "failed to parse cursor config: " =
      "Error: configuration error: failed to parse cursor config: " := rfl
  rw [Failure.report, hcauses, ← String.append_assoc, ← String.append_assoc, hhead]

theorem prints_program {shown : Event → Bool} (hshown : ∀ e, shown e = false)
    (line : Event → String) (hn : text.length ≤ Position.ceiling) :
    Prints decode read text path (program decode read text path).ending
      ((program decode read text path).ending.output shown line) where
  found config hload ht := by
    obtain ⟨spans, hw⟩ := exists_allWords ht hn
    have hwords : WordsOf text (spans.map (charsOf text.toList)) := ⟨spans, hw, rfl⟩
    have hnone : (notice config ++ wordLog text spans).filter shown = [] :=
      List.filter_eq_nil_iff.2 fun e _ => by simp [hshown e]
    rw [ending_of_loads hw ht hn hload, output_of_printed, hnone]
    refine ⟨⟨_, hwords⟩, fun words hw' => ?_, fun hb => ?_⟩
    · obtain rfl := hwords.unique hw'
      exact ⟨rfl, split_ofLines fun line => hwords.no_newline⟩
    · rw [hwords.unique (wordsOf_blank hb)]
      rfl
  failed h := by
    -- A configuration that is not to be had comes before a text that is empty.
    have hfails : ∃ report, (program decode read text path).ending.FailsWith report := by
      rcases loads_or_fails decode read path with ⟨config, hload⟩ | ⟨name, fault, rfl, hread⟩ |
        ⟨name, document, reason, rfl, hread, hdecode⟩
      · rcases h with h | rfl
        · exact absurd ⟨config, hload⟩ h
        · exact ⟨_, failsWith_of_empty hload⟩
      · exact ⟨_, failsWith_of_unreadable hread⟩
      · exact ⟨_, failsWith_of_refused hread hdecode⟩
    obtain ⟨report, hreport⟩ := hfails
    exact ⟨report, hreport, hreport.output_eq hshown line⟩
  unreadable name fault hpath hread := by
    subst hpath
    rw [(failsWith_of_unreadable hread).output_eq hshown line, report_unreadable]
  refused name document reason hpath hread hdecode := by
    subst hpath
    rw [(failsWith_of_refused hread hdecode).output_eq hshown line, report_malformed]
  empty config hload ht := by
    subst ht
    rw [(failsWith_of_empty hload).output_eq hshown line]
    rfl

/-- Without a request for its log, from the options or from the environment, the command prints the
words of its text, if the text holds anything and a configuration is to be had, and one report
otherwise. Splitting itself never fails. The length of the text is one that a position can name, as
that of every text in memory is. -/
theorem quiet_run {tools : Tools} (hfilter : FiltersByLevel tools.filter) {around : Surroundings}
    (hunset : around.logFilter = none) {arguments : List String} {text : String}
    {path : Option String} (hargs : tools.parse arguments = .ok ⟨text, path, 0⟩)
    (hn : text.length ≤ Position.ceiling) :
    Prints tools.decode around.read text path
        (program tools.decode around.read text path).ending (execute tools around arguments) ∧
      ∀ e, (program tools.decode around.read text path).result ≠ .error (.unsplit e) := by
  rw [execute_eq hargs, hunset]
  exact ⟨prints_program hfilter.warn tools.line hn, program_ne_unsplit hn⟩

/-- A text with characters of several bytes that ends in blanks, under a file that turns framing on; a
file that cannot be read; and an empty text under a file that is refused before the text counts. -/
theorem quiet_run_three_files :
    let text := "añb  ç "
    let arguments (path text : String) := ["--config=" ++ path, "--", text]
    let quoted := "framed = \"yes\"\n"
    let reason := "TOML parse error at line 1, column 10\n  |\n1 | framed = \"yes\"\n" ++
      "  |          ^^^^^\ninvalid type: string \"yes\", expected a boolean\n"
    let worded : Tools := { tools with
      decode := fun document => if document = quoted then .error reason else tools.decode document }
    let around : Surroundings :=
      ⟨fun name =>
        if name = "framed.toml" then .ok "framed = true\n"
        else if name = "quoted.toml" then .ok quoted
        else .error .notFound, none⟩
    FiltersByLevel worded.filter ∧ text.length ≤ Position.ceiling ∧
      worded.parse (arguments "framed.toml" text) = .ok ⟨text, some "framed.toml", 0⟩ ∧
      Loads worded.decode around.read (some "framed.toml") ⟨true⟩ ∧
      (∃ words, WordsOf text words ∧
        execute worded around (arguments "framed.toml" text) = ⟨0, ofLines words, ""⟩) ∧
      execute worded around (arguments "missing.toml" text) =
        ⟨1, "", "Error: failed to read config file: missing.toml: " ++
          "No such file or directory (os error 2)\n"⟩ ∧
      execute worded around (arguments "quoted.toml" "") =
        ⟨1, "", "Error: configuration error: failed to parse cursor config: " ++ reason ++ "\n"⟩ := by
  intro text arguments quoted reason worded around
  have hfilter : FiltersByLevel worded.filter := filtersByLevel_tools
  have hn : text.length ≤ Position.ceiling := by decide
  have hargs (path text : String) (h : path ≠ "") :
      worded.parse (arguments path text) = .ok ⟨text, some path, 0⟩ := tools_parse text h 0
  have hunset : around.logFilter = none := rfl
  have hmissing : around.read "missing.toml" = .error .notFound := by simp [around]
  have hquoted : around.read "quoted.toml" = .ok quoted := by simp [around]
  have hframed : around.read "framed.toml" = .ok "framed = true\n" := by simp [around]
  have hrefuses : worded.decode quoted = .error reason := by simp [worded]
  have hload : Loads worded.decode around.read (some "framed.toml") ⟨true⟩ := .file hframed rfl
  obtain ⟨hprints, -⟩ := quiet_run hfilter hunset (hargs "framed.toml" text (by decide)) hn
  obtain ⟨⟨words, hw⟩, hprinted, -⟩ := hprints.found _ hload (by decide)
  obtain ⟨hunread, -⟩ := quiet_run hfilter hunset (hargs "missing.toml" text (by decide)) hn
  obtain ⟨hrefused, -⟩ := quiet_run hfilter hunset (hargs "quoted.toml" "" (by decide)) (by decide)
  exact ⟨hfilter, hn, hargs _ _ (by decide), hload, ⟨words, hw, (hprinted words hw).1⟩,
    hunread.unreadable _ _ rfl hmissing, hrefused.refused _ _ _ rfl hquoted hrefuses⟩

end FrameCursor.Command
