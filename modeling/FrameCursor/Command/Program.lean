import FrameCursor.Config
import FrameCursor.Words

/-!
The command as a program: what it does with the options that it is given, one act after another. The
readers of arguments and of documents, the log's filters and the form of its lines are other people's
work, and the program takes them as they come.
-/

set_option autoImplicit false

namespace FrameCursor.Command

structure Options where
  text : String
  configPath : Option String
  /-- How often more detail in the log was asked for. -/
  verbosity : Nat
  deriving DecidableEq, Repr

structure Output where
  code : Nat
  stdout : String
  stderr : String
  deriving DecidableEq, Repr

structure Tools where
  /-- The options that arguments stand for, or the output with which they end the command. -/
  parse : List String → Except Output Options
  /-- The configuration in a document, or what is wrong with the document. -/
  decode : String → Except String Config
  /-- The events that a directive lets through. -/
  filter : String → Event → Bool
  line : Event → String

inductive ReadFault where
  | notFound
  | denied
  | notDirectory
  | isDirectory
  | nameTooLong
  | notText
  | other (description : String)
  deriving DecidableEq, Repr

def ReadFault.message : ReadFault → String
  | .notFound => "No such file or directory (os error 2)"
  | .denied => "Permission denied (os error 13)"
  | .notDirectory => "Not a directory (os error 20)"
  | .isDirectory => "Is a directory (os error 21)"
  | .nameTooLong => "File name too long (os error 36)"
  | .notText => "stream did not contain valid UTF-8"
  | .other description => description

structure Surroundings where
  read : String → Except ReadFault String
  /-- The filter that the environment sets for the log, if it sets one that is valid. -/
  logFilter : Option (Event → Bool)

inductive Failure where
  | unreadable (path : String) (fault : ReadFault)
  | malformed (error : CursorError)
  | unbindable (error : CursorError)
  | unsplit (error : CursorError)
  deriving DecidableEq, Repr

def Failure.causes : Failure → List String
  | .unreadable path fault => ["failed to read config file: " ++ path, fault.message]
  | .malformed e => [e.message]
  | .unbindable e => ["input text must not be empty", e.message]
  | .unsplit e => [e.message]

def Failure.report (f : Failure) : String := "Error: " ++ ": ".intercalate f.causes

inductive Act where
  | log (e : Event)
  | print (line : String)
  | report (line : String)
  deriving DecidableEq, Repr

/-- How a part of the program ended, and what it did until then, in order. -/
structure Run (α : Type) where
  result : Except Failure α
  acts : List Act

namespace Run

instance : Monad Run where
  pure a := ⟨.ok a, []⟩
  bind r next :=
    match r.result with
    | .error f => ⟨.error f, r.acts⟩
    | .ok a => ⟨(next a).result, r.acts ++ (next a).acts⟩

def ofExcept {α : Type} (result : Except Failure α) : Run α := ⟨result, []⟩

def logging {α : Type} (result : Except CursorError α) (fail : CursorError → Failure)
    (events : List Event) : Run α :=
  ⟨result.mapError fail, events.map .log⟩

def log (e : Event) : Run Unit := ⟨.ok (), [.log e]⟩

def print (line : String) : Run Unit := ⟨.ok (), [.print line]⟩

end Run

def loadConfig (decode : String → Except String Config) (read : String → Except ReadFault String) :
    Option String → Except Failure Config
  | none => .ok .default
  | some path =>
    match read path with
    | .error fault => .error (.unreadable path fault)
    | .ok document => (Config.parse decode document).mapError .malformed

def enableFraming (config : Config) : Run Config :=
  if config.framed then pure config
  else do
    Run.log .framingEnabled
    pure { config with framed := true }

def openText (text : String) (config : Config) : Run (Cursor Text) :=
  let opening : Opening Text := Cursor.new (some (Text.ofString text)) config
  Run.logging opening.result .unbindable opening.events

def splitWords (c : Cursor Text) : Run (List Excerpt) :=
  Run.logging c.words.result .unsplit c.words.events

def printWords : List Excerpt → Run Unit
  | [] => pure ()
  | word :: words => do
    Run.print word.text
    printWords words

/-- All words are found before the first of them is printed. -/
def splitText (text : String) (config : Config) : Run Unit := do
  let cursor ← openText text config
  let words ← splitWords cursor
  printWords words

def program (decode : String → Except String Config) (read : String → Except ReadFault String)
    (text : String) (configPath : Option String) : Run Unit := do
  let config ← Run.ofExcept (loadConfig decode read configPath)
  let config ← enableFraming config
  splitText text config

structure Ending where
  code : Nat
  acts : List Act
  deriving DecidableEq, Repr

def Run.ending (r : Run Unit) : Ending :=
  match r.result with
  | .ok _ => ⟨0, r.acts⟩
  | .error f => ⟨1, r.acts ++ [.report f.report]⟩

def directive : Nat → String
  | 0 => "warn"
  | 1 => "info"
  | 2 => "debug"
  | _ => "trace"

def Act.outLine? (shown : Event → Bool) (line : Event → String) : Act → Option String
  | .log e => if shown e then some (line e) else none
  | .print text => some text
  | .report _ => none

def Act.errLine? : Act → Option String
  | .report text => some text
  | _ => none

def ofLines (lines : List String) : String := String.join (lines.map (· ++ "\n"))

/-- The two streams, to each of which lines are written in the order of the acts. -/
def Ending.output (e : Ending) (shown : Event → Bool) (line : Event → String) : Output :=
  ⟨e.code, ofLines (e.acts.filterMap (Act.outLine? shown line)),
    ofLines (e.acts.filterMap Act.errLine?)⟩

/-- The whole command. The environment's filter goes before the one that the options ask for. -/
def execute (tools : Tools) (around : Surroundings) (arguments : List String) : Output :=
  match tools.parse arguments with
  | .error output => output
  | .ok o =>
    let shown := around.logFilter.getD (tools.filter (directive o.verbosity))
    (program tools.decode around.read o.text o.configPath).ending.output shown tools.line

end FrameCursor.Command
