import FrameCursor.Toml.Quoted

set_option autoImplicit false

namespace FrameCursor.Toml

structure Key where
  /-- The names that lead to the table of the key, outermost first. -/
  path : List String
  name : String
  deriving DecidableEq, Repr

def isBare (c : Char) : Bool := c.isAlphanum || c = '_' || c = '-'

def readName : Reader String
  | '"' :: r => (readBasic (.between false) r).map fun (cs, r) => (String.ofList cs, r)
  | '\'' :: r => (readLiteral r).map fun (cs, r) => (String.ofList cs, r)
  | cs =>
    match cs.takeWhile isBare with
    | [] => none
    | name => some (String.ofList name, cs.dropWhile isBare)

def readNames : Nat → Reader Key
  | 0, _ => none
  | n + 1, cs => do
    let (name, r) ← readName cs
    match skipSpaces r with
    | '.' :: r => do
      let (key, r) ← readNames n (skipSpaces r)
      some (⟨name :: key.path, key.name⟩, r)
    | r => some (⟨[], name⟩, r)

/-- The most names that a key may have, and the most arrays and tables that a value may be inside. -/
def nestingLimit : Nat := 80

def readKey (cs : List Char) : Option (Key × List Char) :=
  readNames nestingLimit (skipSpaces cs)

end FrameCursor.Toml
