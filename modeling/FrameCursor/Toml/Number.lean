import FrameCursor.Toml.Quoted

/-!
Numbers, each written as one word without blanks. Whole numbers are exact, within the range of
128-bit words. Other decimals keep their digits and their power of ten, and are refused when a binary
number of 64 bits could not hold them.
-/

set_option autoImplicit false

namespace FrameCursor.Toml

def ungroup (isDigit : Char → Bool) : List Char → Option (List Char)
  | [] => none
  | [c] => if isDigit c then some [c] else none
  | c :: '_' :: r => if isDigit c then (ungroup isDigit r).map (c :: ·) else none
  | c :: r => if isDigit c then (ungroup isDigit r).map (c :: ·) else none

def unsign : List Char → Bool × List Char
  | '+' :: r => (false, r)
  | '-' :: r => (true, r)
  | r => (false, r)

def wholeDigits? (w : List Char) : Option (List Char) := do
  let digits ← ungroup Char.isDigit w
  match digits with
  | '0' :: _ :: _ => none
  | _ => some digits

def radix? (letter : Char) (digits : List Char) : Option Nat :=
  let base := if letter = 'x' then 16 else if letter = 'o' then 8 else if letter = 'b' then 2 else 0
  let digit? (c : Char) : Option Nat := (hexDigit? c).filter (· < base)
  (ungroup (fun c => (digit? c).isSome) digits).map fun ds =>
    ds.foldl (fun n c => base * n + (digit? c).getD 0) 0

-- Signed words of 128 bits below zero, and unsigned ones above.
def inRange (n : Int) : Bool := -Int.pow 2 127 ≤ n && n < Int.pow 2 128

def integer? (w : List Char) : Option Int :=
  match w with
  | '0' :: letter :: ds => ((radix? letter ds).map Int.ofNat).filter inRange
  | _ => do
    let (negative, r) := unsign w
    let n := Nat.ofDigitChars 10 (← wholeDigits? r) 0
    some (if negative then -n else n : Int) |>.filter inRange

/-- A number with a point or a power of ten, or one of the words for what is no finite number. -/
inductive Decimal where
  | finite (negative : Bool) (digits : Nat) (exponent : Int)
  | infinity (negative : Bool)
  | nan
  deriving DecidableEq, Repr

/-- The least number that 64-bit binary numbers round up to infinity. -/
def overflowBound : Nat := Nat.pow 2 1024 - Nat.pow 2 970

/-- Whether `digits * 10 ^ exponent` rounds to a finite number. The number of digits decides it alone
where the power of ten would be large. -/
def isFinite (digits : Nat) (exponent : Int) : Bool :=
  let size : Int := (Nat.toDigits 10 digits).length + exponent
  if digits = 0 || size ≤ 308 then true
  else if 309 < size then false
  else if 0 ≤ exponent then digits * Nat.pow 10 exponent.toNat < overflowBound
  else digits < overflowBound * Nat.pow 10 (-exponent).toNat

def power? (w : List Char) : Option Int := do
  let (negative, r) := unsign w
  let n := Nat.ofDigitChars 10 (← ungroup Char.isDigit r) 0
  some (if negative then -n else n : Int)

def fraction? : Reader (List Char)
  | '.' :: r => do
    let isPart (c : Char) : Bool := c.isDigit || c = '_'
    some (← ungroup Char.isDigit (r.takeWhile isPart), r.dropWhile isPart)
  | cs => some ([], cs)

def exponent? : List Char → Option Int
  | [] => some 0
  | c :: r => if c = 'e' || c = 'E' then power? r else none

def decimal? (w : List Char) : Option Decimal :=
  let (negative, r) := unsign w
  if r = ['i', 'n', 'f'] then some (.infinity negative)
  else if r = ['n', 'a', 'n'] then some .nan
  else do
    let isPart (c : Char) : Bool := c.isDigit || c = '_'
    let whole ← wholeDigits? (r.takeWhile isPart)
    let tail := r.dropWhile isPart
    guard (!tail.isEmpty)
    let (fraction, tail) ← fraction? tail
    let digits := Nat.ofDigitChars 10 (whole ++ fraction) 0
    let exponent := (← exponent? tail) - fraction.length
    guard (isFinite digits exponent)
    some (.finite negative digits exponent)

end FrameCursor.Toml
