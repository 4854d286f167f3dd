/-!
What may stand between the parts of a TOML document: blanks, line ends and comments. A reader takes
characters off the front of its input and gives back what they mean together with the rest; a reader
that refuses gives nothing.
-/

set_option autoImplicit false

namespace FrameCursor.Toml

abbrev Reader (α : Type) : Type := List Char → Option (α × List Char)

def expect (c : Char) : List Char → Option (List Char)
  | d :: r => if d = c then some r else none
  | [] => none

def isSpace (c : Char) : Bool := c = ' ' || c = '\t'

def isPrinting (c : Char) : Bool := c = '\t' || (0x20 ≤ c.toNat && c.toNat ≠ 0x7f)

def skipSpaces (cs : List Char) : List Char := cs.dropWhile isSpace

def newline? : List Char → Option (List Char)
  | '\n' :: r => some r
  | '\r' :: '\n' :: r => some r
  | _ => none

def skipComment : List Char → List Char
  | '#' :: r => r.dropWhile isPrinting
  | cs => cs

def endLine? (cs : List Char) : Option (List Char) :=
  match skipComment (skipSpaces cs) with
  | [] => some []
  | c :: r => newline? (c :: r)

/-- Skips blanks, line ends and comments in any order, from within a comment if `commented`. What
stops it in a comment is a character that stands nowhere. -/
def skipGap (commented : Bool) : List Char → List Char
  | [] => []
  | '\n' :: r => skipGap false r
  | '\r' :: '\n' :: r => skipGap false r
  | c :: r =>
    if commented then
      if isPrinting c then skipGap true r else c :: r
    else if c = '#' then skipGap true r
    else if isSpace c then skipGap false r
    else c :: r

end FrameCursor.Toml
