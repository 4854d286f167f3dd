import FrameCursor.Command

set_option autoImplicit false

namespace FrameCursor.Command

/-- The number that the operating system gave an error, which some of its calls give negated. -/
def errorNumber (e : IO.Error) : UInt32 :=
  let n : UInt32 :=
    match e with
    | .noFileOrDirectory _ n _ | .inappropriateType _ n _ | .invalidArgument _ n _
    | .permissionDenied _ n _ | .noSuchThing _ n _ => n
    | _ => 0
  min n (-n)

def ReadFault.ofError (e : IO.Error) : ReadFault :=
  match (errorNumber e).toNat with
  | 2 => .notFound
  | 13 => .denied
  | 20 => .notDirectory
  | 21 => .isDirectory
  | 36 => .nameTooLong
  | _ => .other (toString e)

def readFile (path : String) : IO (Except ReadFault String) := do
  try
    let bytes ← IO.FS.readBinFile path
    match String.fromUTF8? bytes with
    | some text => return .ok text
    | none => return .error .notText
  catch e => return .error (.ofError e)

end FrameCursor.Command

open FrameCursor.Command in
def main (arguments : List String) : IO UInt32 := do
  let setting ← IO.getEnv "RUST_LOG"
  -- The one file that can be asked for is read beforehand, so that the command itself is pure.
  let path := (tools.parse arguments).toOption.bind Options.configPath
  let content ← path.mapM readFile
  let around : Surroundings :=
    ⟨fun _ => content.getD (.error .notFound), setting.bind fun s => filter? s.toLower⟩
  let output := execute tools around arguments
  IO.print output.stdout
  IO.eprint output.stderr
  return output.code.toUInt32
