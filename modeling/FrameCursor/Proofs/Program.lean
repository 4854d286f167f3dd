import FrameCursor.Command.Program
import FrameCursor.Proofs.Splitting

set_option autoImplicit false

namespace FrameCursor

def charsOf (cs : List Char) (s : Span) : String := String.ofList ((cs.take s.stop).drop s.start)

/-- The words of a text: what its longest spans without a blank hold, in order. -/
def WordsOf (text : String) (words : List String) : Prop :=
  ∃ spans, AllWords text.toList 0 spans ∧ words = spans.map (charsOf text.toList)

theorem WordsOf.unique {text : String} {words words' : List String} (h : WordsOf text words)
    (h' : WordsOf text words') : words = words' := by
  obtain ⟨spans, ha, rfl⟩ := h
  obtain ⟨spans', ha', rfl⟩ := h'
  rw [ha.unique ha']

theorem IsWord.not_blank {cs : List Char} {i : Nat} {s : Span} (h : IsWord cs i s) {ch : Char}
    (hch : ch ∈ (charsOf cs s).toList) : isBlank ch = false := by
  rw [charsOf, String.toList_ofList, List.mem_iff_getElem?] at hch
  obtain ⟨k, hk⟩ := hch
  rw [List.getElem?_drop] at hk
  obtain ⟨hlt, -⟩ := List.getElem?_eq_some_iff.1 hk
  have hstop : s.start + k < s.stop := by
    rw [List.length_take] at hlt
    omega
  rw [List.getElem?_take_of_lt hstop] at hk
  obtain ⟨ch', hch', hb⟩ := h.solid (s.start + k) (Nat.le_add_right _ _) hstop
  obtain rfl : ch = ch' := Option.some.inj (hk.symm.trans hch')
  exact hb

theorem IsWord.no_newline {cs : List Char} {i : Nat} {s : Span} (h : IsWord cs i s) :
    '\n' ∉ (charsOf cs s).toList := by
  intro hmem
  have hb := h.not_blank hmem
  simp [isBlank_newline.1] at hb

theorem WordsOf.no_newline {text : String} {words : List String} (h : WordsOf text words)
    {word : String} (hw : word ∈ words) : '\n' ∉ word.toList := by
  obtain ⟨spans, ha, rfl⟩ := h
  obtain ⟨s, hs, rfl⟩ := List.mem_map.1 hw
  exact ((ha.mem_iff s).1 hs).no_newline

theorem wordsOf_blank {text : String} (h : ∀ ch ∈ text.toList, isBlank ch = true) :
    WordsOf text [] := by
  refine ⟨[], ⟨.nil, fun s => ?_⟩, rfl⟩
  refine iff_of_false (by simp) fun hw => ?_
  obtain ⟨ch, hch, hb⟩ := hw.start_solid
  simp [h ch (List.mem_of_getElem? hch)] at hb

theorem Text.chars_ofString (s : String) : (ofString s).chars = s.toList := rfl

theorem Text.length_ofString (s : String) : (ofString s).length = s.length := by
  rw [← length_chars, chars_ofString, String.length_toList]

theorem Text.defect?_ofString (s : String) :
    Subject.defect? (ofString s) = if s = "" then some .noFirstElement else none := by
  have hvalid : Subject.isValid (ofString s) = s.toList[0]?.isSome := by
    rw [← chars_ofString, ← charAt_eq]
    rfl
  have hlength : Subject.length (ofString s) = some (ofString s).length := rfl
  by_cases he : s = ""
  · subst he
    rfl
  · have hne : s.toList ≠ [] := by simpa using he
    obtain ⟨ch, rest, hs⟩ := List.exists_cons_of_ne_nil hne
    simp [Subject.defect?, hlength, hvalid, hs, he]

theorem Text.text_extract_word {text : String} {i : Nat} {s : Span}
    (h : IsWord text.toList i s) : ((ofString text).extract s).text = charsOf text.toList s := by
  have hstop : s.stop ≤ (ofString text).length := by
    rw [← length_chars]
    exact h.stop_le
  apply String.toList_inj.1
  rw [toList_text_extract, clamp_eq (Nat.le_of_lt h.nonempty) hstop, charsOf, String.toList_ofList]
  rfl

namespace Command

variable {decode : String → Except String Config} {read : String → Except ReadFault String}
  {text : String} {path : Option String} {config : Config}

/-- The configuration that is to be had: the default one if no file is named, and what the decoder
finds in the file if one is. -/
inductive Loads (decode : String → Except String Config)
    (read : String → Except ReadFault String) : Option String → Config → Prop where
  | unnamed : Loads decode read none .default
  | file {path document : String} {config : Config} (hread : read path = .ok document)
      (hdecode : decode document = .ok config) : Loads decode read (some path) config

theorem Loads.loadConfig_eq (h : Loads decode read path config) :
    loadConfig decode read path = .ok config := by
  cases h with
  | unnamed => rfl
  | file hread hdecode => simp [loadConfig, hread, Config.parse, hdecode, Except.mapError]

theorem loadConfig_of_unreadable {path : String} {fault : ReadFault}
    (h : read path = .error fault) :
    loadConfig decode read (some path) = .error (.unreadable path fault) := by
  simp [loadConfig, h]

theorem loadConfig_of_refused {path document reason : String} (hread : read path = .ok document)
    (hdecode : decode document = .error reason) :
    loadConfig decode read (some path) =
      .error (.malformed (.config ("failed to parse cursor config: " ++ reason))) := by
  simp [loadConfig, hread, Config.parse, hdecode, Except.mapError]

theorem loads_or_fails (decode : String → Except String Config)
    (read : String → Except ReadFault String) (path : Option String) :
    (∃ config, Loads decode read path config) ∨
      (∃ name fault, path = some name ∧ read name = .error fault) ∨
      ∃ name document reason, path = some name ∧ read name = .ok document ∧
        decode document = .error reason := by
  cases path with
  | none => exact .inl ⟨_, .unnamed⟩
  | some name =>
    cases hread : read name with
    | error fault => exact .inr (.inl ⟨name, fault, rfl, hread⟩)
    | ok document =>
      cases hdecode : decode document with
      | error reason => exact .inr (.inr ⟨name, document, reason, rfl, hread, hdecode⟩)
      | ok config => exact .inl ⟨config, .file hread hdecode⟩

namespace Run

variable {α β : Type}

theorem bind_of_ok {r : Run α} {a : α} (next : α → Run β) (h : r.result = .ok a) :
    r >>= next = ⟨(next a).result, r.acts ++ (next a).acts⟩ := by
  simp only [bind, h]

theorem bind_of_error {r : Run α} {f : Failure} (next : α → Run β) (h : r.result = .error f) :
    r >>= next = ⟨.error f, r.acts⟩ := by
  simp only [bind, h]

end Run

theorem printWords_eq (words : List Excerpt) :
    printWords words = ⟨.ok (), words.map fun word => .print word.text⟩ := by
  induction words with
  | nil => rfl
  | cons word words ih =>
    rw [printWords, Run.bind_of_ok _ rfl, ih]
    rfl

def notice (config : Config) : List Event := if config.framed then [] else [.framingEnabled]

theorem enableFraming_eq (config : Config) :
    enableFraming config = ⟨.ok ⟨true⟩, (notice config).map .log⟩ := by
  obtain ⟨framed⟩ := config
  cases framed <;> rfl

def wordLog (text : String) (spans : List Span) : List Event :=
  spans.flatMap (Cursor.wordEvents (Text.ofString text)) ++
    Cursor.blankEvents (Text.ofString text) 0

theorem openText_eq (ht : text ≠ "") :
    openText text ⟨true⟩ = ⟨.ok (Cursor.bind (some (Text.ofString text)) ⟨true⟩), []⟩ := by
  have hfit : ∀ s, some (Text.ofString text) = some s → Subject.defect? s = none := by
    rintro s ⟨⟩
    rw [Text.defect?_ofString, if_neg ht]
  simp only [openText, Cursor.new_of_fit _ hfit]
  rfl

theorem splitWords_eq (ht : text ≠ "") (hn : text.length ≤ Position.ceiling) :
    ∃ spans, AllWords text.toList 0 spans ∧
      splitWords (Cursor.bind (some (Text.ofString text)) ⟨true⟩) =
        ⟨.ok (spans.map (Text.ofString text).extract), (wordLog text spans).map .log⟩ := by
  have hreads : (Cursor.bind (some (Text.ofString text)) ⟨true⟩).ReadsText (Text.ofString text) := by
    refine ⟨rfl, ?_, ?_, Nat.zero_le _⟩
    · rw [Text.length_ofString, Nat.pos_iff_ne_zero]
      simpa using ht
    · rwa [Text.length_ofString]
  obtain ⟨spans, hw, heq⟩ := hreads.words_eq rfl
  refine ⟨spans, hw, ?_⟩
  rw [splitWords, heq]
  rfl

theorem exists_allWords (ht : text ≠ "") (hn : text.length ≤ Position.ceiling) :
    ∃ spans, AllWords text.toList 0 spans := by
  obtain ⟨spans, hw, -⟩ := splitWords_eq ht hn
  exact ⟨spans, hw⟩

theorem program_of_failure {f : Failure} (h : loadConfig decode read path = .error f) :
    program decode read text path = ⟨.error f, []⟩ :=
  Run.bind_of_error _ h

theorem program_of_loads (text : String) (h : Loads decode read path config) :
    program decode read text path =
      ⟨(splitText text ⟨true⟩).result,
        (notice config).map .log ++ (splitText text ⟨true⟩).acts⟩ := by
  rw [program, Run.bind_of_ok _ h.loadConfig_eq, enableFraming_eq, Run.bind_of_ok _ rfl]
  rfl

/-- The events of a text's words come first, and then the words are printed. -/
theorem splitText_eq {spans : List Span} (hw : AllWords text.toList 0 spans) (ht : text ≠ "")
    (hn : text.length ≤ Position.ceiling) :
    splitText text ⟨true⟩ =
      ⟨.ok (), (wordLog text spans).map .log ++
        (spans.map (charsOf text.toList)).map .print⟩ := by
  obtain ⟨spans', hw', hsplit⟩ := splitWords_eq ht hn
  obtain rfl := hw.unique hw'
  have hprinted : (spans.map (Text.ofString text).extract).map (fun word => Act.print word.text) =
      (spans.map (charsOf text.toList)).map .print := by
    rw [List.map_map, List.map_map]
    refine List.map_congr_left fun s hs => congrArg Act.print ?_
    exact Text.text_extract_word ((hw.mem_iff s).1 hs)
  rw [splitText, openText_eq ht, Run.bind_of_ok _ rfl, hsplit, Run.bind_of_ok _ rfl, printWords_eq,
    hprinted]
  rfl

theorem ending_of_loads {spans : List Span} (hw : AllWords text.toList 0 spans) (ht : text ≠ "")
    (hn : text.length ≤ Position.ceiling) (h : Loads decode read path config) :
    (program decode read text path).ending =
      ⟨0, (notice config ++ wordLog text spans).map .log ++
        (spans.map (charsOf text.toList)).map .print⟩ := by
  rw [program_of_loads text h, splitText_eq hw ht hn, List.map_append, List.append_assoc]
  rfl

theorem splitText_empty :
    splitText "" ⟨true⟩ =
      ⟨.error (.unbindable (.invalidInput "subject has no element at index 0")),
        [.log (.rejected .noFirstElement)]⟩ := rfl

theorem program_ne_unsplit (hn : text.length ≤ Position.ceiling) (e : CursorError) :
    (program decode read text path).result ≠ .error (.unsplit e) := by
  rcases loads_or_fails decode read path with ⟨config, hload⟩ | ⟨name, fault, rfl, hread⟩ |
    ⟨name, document, reason, rfl, hread, hdecode⟩
  · rw [program_of_loads text hload]
    by_cases ht : text = ""
    · simp [ht, splitText_empty]
    · obtain ⟨spans, hw⟩ := exists_allWords ht hn
      simp [splitText_eq hw ht hn]
  · simp [program_of_failure (loadConfig_of_unreadable hread)]
  · simp [program_of_failure (loadConfig_of_refused hread hdecode)]

/-- The command ends in failure with this report, and printed nothing before it. -/
def Ending.FailsWith (e : Ending) (report : String) : Prop :=
  e.code = 1 ∧ ∃ events : List Event, e.acts = events.map .log ++ [.report report]

theorem failsWith_of_error {r : Run Unit} {f : Failure} (events : List Event)
    (h : r = ⟨.error f, events.map .log⟩) : r.ending.FailsWith f.report := by
  subst h
  exact ⟨rfl, events, rfl⟩

theorem failsWith_of_unreadable {name : String} {fault : ReadFault}
    (h : read name = .error fault) :
    (program decode read text (some name)).ending.FailsWith
      (Failure.unreadable name fault).report :=
  failsWith_of_error [] (program_of_failure (loadConfig_of_unreadable h))

theorem failsWith_of_refused {name document reason : String} (hread : read name = .ok document)
    (hdecode : decode document = .error reason) :
    (program decode read text (some name)).ending.FailsWith
      (Failure.malformed (.config ("failed to parse cursor config: " ++ reason))).report :=
  failsWith_of_error [] (program_of_failure (loadConfig_of_refused hread hdecode))

theorem failsWith_of_empty (h : Loads decode read path config) :
    (program decode read "" path).ending.FailsWith
      (Failure.unbindable (.invalidInput "subject has no element at index 0")).report := by
  refine failsWith_of_error (notice config ++ [.rejected .noFirstElement]) ?_
  rw [program_of_loads "" h, splitText_empty, List.map_append]
  rfl

end Command

end FrameCursor
