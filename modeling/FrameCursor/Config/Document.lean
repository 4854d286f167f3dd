import FrameCursor.Config
import FrameCursor.Toml.Document

/-!
Configurations as TOML documents. The one key that counts is `framed`, at the top of the document,
and its value is a truth value. Every other key is left to others, but the document has to be well
formed as a whole. What is wrong with a document is not put in words.
-/

set_option autoImplicit false

namespace FrameCursor

def Toml.read (document : String) : Except String (String → Option Toml.Value) :=
  match read? document with
  | some entries => .ok entries.get?
  | none => .error ""

namespace Config

def ofTable (table : String → Option Toml.Value) : Except String Config :=
  match table "framed" with
  | none => .ok default
  | some (.bool b) => .ok ⟨b⟩
  | some _ => .error ""

def decode : String → Except String Config := decoder Toml.read ofTable

def ofDocument (document : String) : Except CursorError Config := parse decode document

def toDocument (c : Config) : String :=
  if c.framed then "framed = true\n" else "framed = false\n"

end Config

end FrameCursor
