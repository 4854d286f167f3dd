import FrameCursor.Command
import FrameCursor.Proofs.Program

set_option autoImplicit false

namespace FrameCursor

namespace Command

def enabled : Nat → List Level
  | 0 => []
  | 1 => [.info]
  | 2 => [.info, .debug]
  | _ => [.info, .debug, .trace]

/-- What is known of filters: the name of a level lets through the events of that level and of those
above it. Of the events here none is as high as a warning. -/
structure FiltersByLevel (filter : String → Event → Bool) : Prop where
  warn (e : Event) : filter "warn" e = false
  info (e : Event) : filter "info" e = true ↔ e.level = .info
  debug (e : Event) : filter "debug" e = true ↔ e.level = .info ∨ e.level = .debug
  trace (e : Event) : filter "trace" e = true

theorem FiltersByLevel.directive_iff {filter : String → Event → Bool} (h : FiltersByLevel filter)
    (v : Nat) (e : Event) : filter (directive v) e = true ↔ e.level ∈ enabled v := by
  match v with
  | 0 => simp [directive, enabled, h.warn]
  | 1 => simp [directive, enabled, h.info]
  | 2 => simp [directive, enabled, h.debug]
  | v + 3 => cases he : e.level <;> simp [directive, enabled, h.trace]

/-- What is known of the form of the log: an event takes one line, if the word that it may tell of
does. -/
def OneLine (line : Event → String) : Prop :=
  ∀ e, (∀ text stop, e = .word text stop → '\n' ∉ text.toList) → '\n' ∉ (line e).toList

end Command

theorem newline_not_mem_toDigits (n : Nat) : '\n' ∉ Nat.toDigits 10 n := by
  intro h
  have hdigit := Nat.isDigit_of_mem_toDigits (by decide) (by decide) h
  simp at hdigit

namespace Event

theorem newline_not_mem_message (e : Event) : '\n' ∉ e.message.toList := by
  cases e with
  | rejected d => cases d <;> simp [message]
  | _ => simp [message]

theorem newline_not_mem_fields {e : Event}
    (h : ∀ text stop, e = .word text stop → '\n' ∉ text.toList) {f : String × Field}
    (hf : f ∈ e.fields) : '\n' ∉ f.1.toList ∧ '\n' ∉ f.2.render.toList := by
  have hcount : ∀ n, '\n' ∉ (Field.count n).render.toList := by
    simp [Field.render, newline_not_mem_toDigits]
  cases e with
  | word text stop =>
    have htext : '\n' ∉ (Field.text text).render.toList := h text stop rfl
    rcases List.mem_pair.1 hf with rfl | rfl <;> simp [hcount, htext]
  | flushed start stop =>
    rcases List.mem_pair.1 hf with rfl | rfl <;> simp [hcount]
  | refused call =>
    obtain rfl := List.mem_singleton.1 hf
    cases call <;> simp [Field.render, FramingCall.label]
  | reset n | recorded n =>
    obtain rfl := List.mem_singleton.1 hf
    simp [hcount]
  | rejected _ | framingEnabled => simp [fields] at hf

theorem oneLine_line : Command.OneLine line := by
  intro e h
  have hlabel : '\n' ∉ ("".pushn ' ' (5 - e.level.label.length) ++ e.level.label).toList := by
    cases e.level <;>
      simp [Level.label, String.pushn, Nat.repeat, ← String.length_toList]
  have hfields :
      '\n' ∉ (String.join (e.fields.map fun f => " " ++ f.1 ++ "=" ++ f.2.render)).toList := by
    simp only [String.toList_join, List.mem_flatMap, List.mem_map]
    rintro ⟨_, ⟨f, hf, rfl⟩, hmem⟩
    have hfield := newline_not_mem_fields h hf
    simp [hfield] at hmem
  simp only [line, String.toList_append, List.mem_append, not_or] at hlabel ⊢
  exact ⟨⟨⟨hlabel, by decide⟩, e.newline_not_mem_message⟩, hfields⟩

end Event

namespace Command

theorem filtersByLevel_tools : FiltersByLevel tools.filter where
  warn _ := rfl
  info e := by simp [tools, filter?]
  debug e := by cases he : e.level <;> simp [tools, filter?, he]
  trace _ := rfl

theorem readArguments_louder (g : Given) (v : Nat) (rest : List String) :
    readArguments g (List.replicate v "-v" ++ rest) =
      readArguments { g with verbosity := g.verbosity + v } rest := by
  induction v generalizing g with
  | zero => rfl
  | succ v ih =>
    have hread : readArgument g "-v" = .given g.louder := rfl
    rw [List.replicate_succ, List.cons_append, readArguments, if_neg (by decide), hread]
    simp only [ih, Given.louder, Nat.add_assoc, Nat.add_comm 1 v]

theorem tools_parse (text : String) {path : String} (h : path ≠ "") (v : Nat) :
    tools.parse (("--config=" ++ path) :: (List.replicate v "-v" ++ ["--", text])) =
      .ok ⟨text, some path, v⟩ := by
  have hlist : ("--config=" ++ path).toList =
      '-' :: '-' :: ("config".toList ++ '=' :: path.toList) := by simp
  have hread : readArgument .nothing ("--config=" ++ path) = .given ⟨none, some path, 0⟩ := by
    simp [readArgument, hlist, readLong, Given.withPath?, Given.nothing, Step.ofGiven?, h]
  have hne : "--config=" ++ path ≠ "--" := fun he => by
    rw [he] at hlist
    simp at hlist
  change (readArguments _ _).options = _
  rw [readArguments, if_neg hne, hread]
  simp only [readArguments_louder]
  simp [readArguments, readTexts, Given.withText?, Given.options, Request.options]

end Command

end FrameCursor
