import FrameCursor.Toml.Layout

/-!
Quoted text. Between double quotes a backslash writes a character that could not stand there itself;
between single quotes every character stands for itself. Text between triple quotes runs over several
lines. The readers here start after the opening quotes and take the closing ones.
-/

set_option autoImplicit false

namespace FrameCursor.Toml

def hexDigit? (c : Char) : Option Nat :=
  if '0' ≤ c ∧ c ≤ '9' then some (c.toNat - '0'.toNat)
  else if 'a' ≤ c ∧ c ≤ 'f' then some (c.toNat - 'a'.toNat + 10)
  else if 'A' ≤ c ∧ c ≤ 'F' then some (c.toNat - 'A'.toNat + 10)
  else none

def scalar? (n : Nat) : Option Char :=
  if n.isValidChar then some (Char.ofNat n) else none

def escaped? : Char → Option Char
  | 'b' => some '\x08'
  | 't' => some '\t'
  | 'n' => some '\n'
  | 'f' => some '\x0c'
  | 'r' => some '\r'
  | 'e' => some '\x1b'
  | '"' => some '"'
  | '\\' => some '\\'
  | _ => none

inductive Escape where
  /-- Between characters. When `folding`, blanks and line ends are left out. -/
  | between (folding : Bool)
  | opened
  /-- After a backslash and blanks, so that a line end has to follow. -/
  | lineEnd
  /-- Before the last `missing + 1` digits of a code point, of which the first ones make `value`. -/
  | code (missing value : Nat)

def Escape.open (multiline : Bool) (c : Char) : Option (Option Char × Escape) :=
  match c with
  | 'x' => some (none, .code 1 0)
  | 'u' => some (none, .code 3 0)
  | 'U' => some (none, .code 7 0)
  | '\n' => if multiline then some (none, .between true) else none
  | _ =>
    if multiline && isSpace c then some (none, .lineEnd)
    else (escaped? c).map fun d => (some d, .between false)

def Escape.digit (missing value : Nat) (c : Char) : Option (Option Char × Escape) := do
  let d ← hexDigit? c
  match missing with
  | 0 => (scalar? (16 * value + d)).map fun u => (some u, .between false)
  | n + 1 => some (none, .code n (16 * value + d))

def before (cs : List Char) (read : Option (List Char × List Char)) :
    Option (List Char × List Char) :=
  read.map fun r => (cs ++ r.1, r.2)

def readBasic : Escape → Reader (List Char)
  | _, [] => none
  | .between _, c :: r =>
    if c = '"' then some ([], r)
    else if c = '\\' then readBasic .opened r
    else if isPrinting c then before [c] (readBasic (.between false) r)
    else none
  | .opened, c :: r => do
    let (d, escape) ← Escape.open false c
    before d.toList (readBasic escape r)
  | .code n v, c :: r => do
    let (d, escape) ← Escape.digit n v c
    before d.toList (readBasic escape r)
  | .lineEnd, _ => none

def readLiteral (cs : List Char) : Option (List Char × List Char) :=
  match cs.dropWhile fun c => isPrinting c && c != '\'' with
  | '\'' :: r => some (cs.takeWhile fun c => isPrinting c && c != '\'', r)
  | _ => none

/-- The closing triple quote. Up to two quotes right before it belong to the text. -/
def closing? (q : Char) : List Char → Option (List Char × List Char)
  | a :: b :: c :: r =>
    if a = q ∧ b = q ∧ c = q then
      match r with
      | d :: e :: s =>
        if d = q ∧ e = q then some ([q, q], s)
        else if d = q then some ([q], e :: s)
        else some ([], r)
      | [d] => if d = q then some ([q], []) else some ([], r)
      | [] => some ([], [])
    else none
  | _ => none

/-- Lines up to the closing double quotes. A backslash at the end of a line leaves out the line end
and the blanks and line ends after it. -/
def readBasicLines : Escape → Reader (List Char)
  | _, [] => none
  | .between folding, '\r' :: '\n' :: r =>
    before (if folding then [] else ['\r', '\n']) (readBasicLines (.between folding) r)
  | .between folding, c :: r =>
    match closing? '"' (c :: r) with
    | some done => some done
    | none =>
      if c = '\\' then readBasicLines .opened r
      else if folding && (isSpace c || c = '\n') then readBasicLines (.between true) r
      else if isPrinting c || c = '\n' then before [c] (readBasicLines (.between false) r)
      else none
  | .opened, '\r' :: '\n' :: r => readBasicLines (.between true) r
  | .opened, c :: r => do
    let (d, escape) ← Escape.open true c
    before d.toList (readBasicLines escape r)
  | .lineEnd, '\r' :: '\n' :: r => readBasicLines (.between true) r
  | .lineEnd, c :: r =>
    if c = '\n' then readBasicLines (.between true) r
    else if isSpace c then readBasicLines .lineEnd r
    else none
  | .code n v, c :: r => do
    let (d, escape) ← Escape.digit n v c
    before d.toList (readBasicLines escape r)

def readLiteralLines : Reader (List Char)
  | [] => none
  | '\r' :: '\n' :: r => before ['\r', '\n'] (readLiteralLines r)
  | c :: r =>
    match closing? '\'' (c :: r) with
    | some done => some done
    | none =>
      if isPrinting c || c = '\n' then before [c] (readLiteralLines r) else none

def dropFirstNewline (cs : List Char) : List Char := (newline? cs).getD cs

def readQuoted (cs : List Char) : Option (List Char × List Char) :=
  match cs with
  | '"' :: '"' :: '"' :: r => readBasicLines (.between false) (dropFirstNewline r)
  | '\'' :: '\'' :: '\'' :: r => readLiteralLines (dropFirstNewline r)
  | '"' :: r => readBasic (.between false) r
  | '\'' :: r => readLiteral r
  | _ => none

end FrameCursor.Toml
