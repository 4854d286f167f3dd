import FrameCursor.Toml.Layout

set_option autoImplicit false

namespace FrameCursor.Toml

structure Date where
  year : Nat
  month : Nat
  day : Nat
  deriving DecidableEq, Repr

structure Time where
  hour : Nat
  minute : Nat
  second : Nat
  /-- The digits of the fraction of a second, possibly none. -/
  fraction : List Char
  deriving DecidableEq, Repr

structure Offset where
  minutes : Int
  deriving DecidableEq, Repr

inductive Moment where
  | date (d : Date)
  | time (t : Time)
  | dateTime (d : Date) (t : Time) (offset : Option Offset)
  deriving DecidableEq, Repr

def isLeap (year : Nat) : Bool := year % 4 = 0 && (year % 100 ≠ 0 || year % 400 = 0)

def daysIn (year month : Nat) : Nat :=
  if month = 2 then if isLeap year then 29 else 28
  else if month = 4 || month = 6 || month = 9 || month = 11 then 30
  else 31

def readDigits (n : Nat) (cs : List Char) : Option (Nat × List Char) :=
  let ds := cs.take n
  if ds.length = n && ds.all Char.isDigit then some (Nat.ofDigitChars 10 ds 0, cs.drop n) else none

def readDate (cs : List Char) : Option (Date × List Char) := do
  let (year, r) ← readDigits 4 cs
  let (month, r) ← readDigits 2 (← expect '-' r)
  let (day, r) ← readDigits 2 (← expect '-' r)
  guard (1 ≤ month && month ≤ 12 && 1 ≤ day && day ≤ daysIn year month)
  some (⟨year, month, day⟩, r)

def readFraction : Reader (List Char)
  | '.' :: r =>
    match r.takeWhile Char.isDigit with
    | [] => none
    | ds => some (ds, r.dropWhile Char.isDigit)
  | cs => some ([], cs)

/-- The second of a minute and the digits of its fraction after a colon. Without them it is the
beginning of the minute. A minute has up to 61 seconds, to make room for a leap second. -/
def readSecond : Reader (Nat × List Char)
  | ':' :: r => do
    let (second, r) ← readDigits 2 r
    guard (second ≤ 60)
    let (fraction, r) ← readFraction r
    some ((second, fraction), r)
  | cs => some ((0, []), cs)

def readTime (cs : List Char) : Option (Time × List Char) := do
  let (hour, r) ← readDigits 2 cs
  let (minute, r) ← readDigits 2 (← expect ':' r)
  guard (hour ≤ 23 && minute ≤ 59)
  let ((second, fraction), r) ← readSecond r
  some (⟨hour, minute, second, fraction⟩, r)

def offset? : List Char → Option (Option Offset)
  | [] => some none
  | c :: r =>
    if c = 'Z' || c = 'z' then if r.isEmpty then some (some ⟨0⟩) else none
    else if c = '+' || c = '-' then do
      let (hours, r) ← readDigits 2 r
      let (minutes, r) ← readDigits 2 (← expect ':' r)
      guard (hours ≤ 23 && minutes ≤ 59 && r.isEmpty)
      let total : Int := hours * 60 + minutes
      some (some ⟨if c = '-' then -total else total⟩)
    else none

def joinsTime (c : Char) : Bool := c = 'T' || c = 't' || c = ' '

def moment? (w : List Char) : Option Moment :=
  match readDate w with
  | some (d, []) => some (.date d)
  | some (d, c :: r) => do
    guard (joinsTime c)
    let (t, r) ← readTime r
    some (.dateTime d t (← offset? r))
  | none =>
    match readTime w with
    | some (t, []) => some (.time t)
    | _ => none

end FrameCursor.Toml
