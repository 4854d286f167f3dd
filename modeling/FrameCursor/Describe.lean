set_option autoImplicit false

namespace FrameCursor

class Describe (α : Type) where
  describe : α → String

export Describe (describe)

namespace Describe

def isControl (c : Char) : Bool :=
  c.toNat < 0x20 || (0x7f ≤ c.toNat && c.toNat < 0xa0)

/-- Quotes, backslashes and control characters are escaped; every other character stands for itself. -/
def escape (c : Char) : List Char :=
  if c = '"' then ['\\', '"']
  else if c = '\\' then ['\\', '\\']
  else if c = '\n' then ['\\', 'n']
  else if c = '\r' then ['\\', 'r']
  else if c = '\t' then ['\\', 't']
  else if c.toNat = 0 then ['\\', '0']
  else if isControl c then ['\\', 'u', '\x7b'] ++ Nat.toDigits 16 c.toNat ++ ['\x7d']
  else [c]

def quote (s : String) : String :=
  String.ofList ('"' :: s.toList.flatMap escape ++ ['"'])

def list (parts : List String) : String := "[" ++ ", ".intercalate parts ++ "]"

def record (name : String) (fields : List (String × String)) : String :=
  if fields.isEmpty then name
  else name ++ " \x7b " ++ ", ".intercalate (fields.map fun f => f.1 ++ ": " ++ f.2) ++ " \x7d"

def wrapped (name inner : String) : String := name ++ "(" ++ inner ++ ")"

end Describe

instance : Describe Nat where
  describe n := toString n

instance : Describe Bool where
  describe b := if b then "true" else "false"

instance : Describe String where
  describe := Describe.quote

instance {α : Type} [Describe α] : Describe (Option α) where
  describe
    | none => "None"
    | some a => Describe.wrapped "Some" (describe a)

instance {α : Type} [Describe α] : Describe (List α) where
  describe as := Describe.list (as.map describe)

end FrameCursor
