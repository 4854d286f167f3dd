import FrameCursor.Command.Program

/-!
The arguments of the command, read from left to right. The first thing that cannot be understood, or
that asks for a fixed text, settles the request, whatever comes after it.
-/

set_option autoImplicit false

namespace FrameCursor.Command

inductive Request where
  | split (options : Options)
  | version
  | help
  | misuse
  deriving DecidableEq, Repr

structure Given where
  text : Option String
  configPath : Option String
  verbosity : Nat
  deriving DecidableEq, Repr

namespace Given

def nothing : Given := ⟨none, none, 0⟩

def defaultText : String := "riders on the storm"

def options (g : Given) : Options := ⟨g.text.getD defaultText, g.configPath, g.verbosity⟩

def louder (g : Given) : Given := { g with verbosity := g.verbosity + 1 }

def withText? (g : Given) (text : String) : Option Given :=
  if g.text.isSome then none else some { g with text := some text }

def withPath? (g : Given) (path : String) : Option Given :=
  if g.configPath.isSome || path.isEmpty then none else some { g with configPath := some path }

end Given

inductive Step where
  | given (g : Given)
  | wantsPath (g : Given)
  | settled (request : Request)

def Step.ofGiven? : Option Given → Step
  | some g => .given g
  | none => .settled .misuse

/-- Letters behind one dash. The letter that takes a path takes all that is left as the path, without
an equals sign before it. -/
def readLetters (g : Given) : List Char → Step
  | [] => .given g
  | c :: cs =>
    if c = 'v' then readLetters g.louder cs
    else if c = 'V' then .settled .version
    else if c = 'h' then .settled .help
    else if c = 'c' then
      match cs with
      | [] => .wantsPath g
      | '=' :: path => .ofGiven? (g.withPath? (String.ofList path))
      | path => .ofGiven? (g.withPath? (String.ofList path))
    else .settled .misuse

/-- A word behind two dashes. Only the one for the path takes a value, after an equals sign or in the
next argument. -/
def readLong (g : Given) (cs : List Char) : Step :=
  let name := String.ofList (cs.takeWhile (· != '='))
  match cs.dropWhile (· != '=') with
  | [] =>
    if name = "config" then .wantsPath g
    else if name = "verbose" then .given g.louder
    else if name = "version" then .settled .version
    else if name = "help" then .settled .help
    else .settled .misuse
  | _ :: value =>
    if name = "config" then .ofGiven? (g.withPath? (String.ofList value))
    else .settled .misuse

def readArgument (g : Given) (argument : String) : Step :=
  match argument.toList with
  | '-' :: '-' :: cs => readLong g cs
  | '-' :: c :: cs => readLetters g (c :: cs)
  -- A dash on its own is text.
  | _ => .ofGiven? (g.withText? argument)

def looksLikeOption (argument : String) : Bool :=
  match argument.toList with
  | '-' :: _ :: _ => true
  | _ => false

def readTexts (g : Given) : List String → Request
  | [] => .split g.options
  | text :: rest =>
    match g.withText? text with
    | some g => readTexts g rest
    | none => .misuse

def readArguments (g : Given) : List String → Request
  | [] => .split g.options
  | argument :: rest =>
    if argument = "--" then readTexts g rest
    else
      match readArgument g argument with
      | .given g => readArguments g rest
      | .settled request => request
      | .wantsPath g =>
        match rest with
        | [] => .misuse
        | path :: rest =>
          if looksLikeOption path then .misuse
          else
            match g.withPath? path with
            | some g => readArguments g rest
            | none => .misuse

def Request.ofArguments (arguments : List String) : Request := readArguments .nothing arguments

end FrameCursor.Command
