import FrameCursor.Command.Program

set_option autoImplicit false

namespace FrameCursor.Command

/-- Files by name, of which the first under a name counts. -/
structure Directory where
  files : List (String × String)
  deriving DecidableEq, Repr

namespace Directory

def nameLimit : Nat := 255
def pathLimit : Nat := 4095

def parts (path : String) : List String :=
  (path.splitOn "/").filter fun p => p != "" && p != "."

def endsOpen (path : String) : Bool :=
  match path.toList.reverse with
  | '/' :: _ => true
  | '.' :: '/' :: _ => true
  | _ => false

/-- Reads the file at a path. The directory itself and those around it are no files, nothing else is
known of them, and nothing is to be found beyond a file. -/
def read (d : Directory) (path : String) : Except ReadFault String :=
  let absolute := path.toList.head? = some '/'
  if pathLimit < path.utf8ByteSize then .error .nameTooLong
  else
    match (parts path).dropWhile (· == "..") with
    | [] => .error (if path.isEmpty then .notFound else .isDirectory)
    | name :: rest =>
      if nameLimit < name.utf8ByteSize then .error .nameTooLong
      else if absolute || (parts path).head? = some ".." then .error .notFound
      else
        match d.files.lookup name with
        | none => .error .notFound
        | some content =>
          if rest.isEmpty && !endsOpen path then .ok content else .error .notDirectory

end Directory

end FrameCursor.Command
