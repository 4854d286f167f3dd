set_option autoImplicit false

namespace FrameCursor.Toml

def isControl (c : Char) : Bool := c.toNat < 0x20 || c.toNat = 0x7f

structure BareKey where
  chars : List Char
  nonempty : chars ≠ []
  bare : chars.all fun c => c.isAlphanum || c == '_' || c == '-'

def BareKey.name (k : BareKey) : String := String.ofList k.chars

inductive PlainValue where
  | truth (b : Bool)
  | count (n : Nat) (fits : n < Nat.pow 2 63)
  deriving DecidableEq, Repr

namespace PlainValue

def chars : PlainValue → List Char
  | .truth true => ['t', 'r', 'u', 'e']
  | .truth false => ['f', 'a', 'l', 's', 'e']
  | .count n _ => Nat.toDigits 10 n

end PlainValue

inductive Line where
  | blank (spaces : List Char) (h : spaces.all fun c => c == ' ' || c == '\t')
  /-- Control characters do not stand in a comment, but for the tab. -/
  | comment (text : List Char) (h : text.all fun c => c == '\t' || !isControl c)
  | pair (key : BareKey) (v : PlainValue)

namespace Line

def chars : Line → List Char
  | .blank spaces _ => spaces
  | .comment text _ => '#' :: text
  | .pair key v => key.chars ++ ' ' :: '=' :: ' ' :: v.chars

def binding? : Line → Option (String × PlainValue)
  | .pair key v => some (key.name, v)
  | _ => none

end Line

def document (lines : List Line) : String :=
  "\n".intercalate (lines.map fun l => String.ofList l.chars)

def bindings (lines : List Line) : List (String × PlainValue) := lines.filterMap Line.binding?

def valuesOf (name : String) (lines : List Line) : List PlainValue :=
  ((bindings lines).filter fun b => name == b.1).map Prod.snd

/-- No key but this one is given a value twice. -/
def OthersOnce (name : String) (lines : List Line) : Prop :=
  (((bindings lines).map Prod.fst).filter fun other => other ≠ name).Nodup

instance (name : String) (lines : List Line) : Decidable (OthersOnce name lines) :=
  inferInstanceAs (Decidable (List.Nodup _))

variable {ν : Type}

/-- The values that the lines give, as a table; `plain` takes a value as the table holds it. -/
def tableOf (plain : PlainValue → ν) (lines : List Line) (name : String) : Option ν :=
  (valuesOf name lines).getLast?.map plain

/-- What is known of a reader of documents: how one more line changes what is read. The reader gives
the value under each key of the outermost table, or says in words of its own what is wrong. -/
structure ReadsLines (plain : PlainValue → ν)
    (read : String → Except String (String → Option ν)) : Prop where
  nothing : read "" = .ok fun _ => none
  /-- Blank lines and comments are passed over. -/
  passed : ∀ lines l table, l.binding? = none → read (document lines) = .ok table →
    read (document (lines ++ [l])) = .ok table
  given : ∀ lines key v table, read (document lines) = .ok table → table key.name = none →
    read (document (lines ++ [.pair key v])) =
      .ok fun name => if name = key.name then some (plain v) else table name
  /-- Giving a key a value twice is an error. -/
  repeated : ∀ lines key v table, read (document lines) = .ok table → table key.name ≠ none →
    ∃ reason, read (document (lines ++ [.pair key v])) = .error reason
  /-- An error is not mended by what comes after it. -/
  spoilt : ∀ lines l reason, read (document lines) = .error reason →
    ∃ reason', read (document (lines ++ [l])) = .error reason'

end FrameCursor.Toml
