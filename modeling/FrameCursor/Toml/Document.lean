import FrameCursor.Toml.Table

set_option autoImplicit false

namespace FrameCursor.Toml

def isWordChar (c : Char) : Bool :=
  c.isAlphanum || c = '+' || c = '-' || c = '_' || c = '.' || c = ':'

def word? (w : List Char) : Option Value :=
  if w = ['t', 'r', 'u', 'e'] then some (.bool true)
  else if w = ['f', 'a', 'l', 's', 'e'] then some (.bool false)
  else ((integer? w).map Value.integer)
    <|> ((decimal? w).map Value.decimal)
    <|> ((moment? w).map Value.moment)

/-- A word. A date may be joined to a time by one blank, and is then one word with it. -/
def readWord (cs : List Char) : Option (Value × List Char) :=
  let w := cs.takeWhile isWordChar
  let r := cs.dropWhile isWordChar
  match r with
  | ' ' :: d :: s =>
    if d.isDigit && (readDate w).isSome then
      (word? (w ++ ' ' :: (d :: s).takeWhile isWordChar)).map
        fun v => (v, (d :: s).dropWhile isWordChar)
    else (word? w).map fun v => (v, r)
  | _ => (word? w).map fun v => (v, r)

def readScalar (cs : List Char) : Option (Value × List Char) :=
  match cs with
  | '"' :: _ | '\'' :: _ => (readQuoted cs).map fun (s, r) => (.text (String.ofList s), r)
  | _ => readWord cs

/-- The items of an array or an inline table up to the closing bracket, over any number of lines. A
comma stands between two items and may follow the last one. There are fewer items than characters,
which `fuel` counts. -/
def readItems {α : Type} (close : Char) (readItem : Reader α) : (fuel : Nat) → Reader (List α)
  | 0, _ => none
  | fuel + 1, cs =>
    let cs := skipGap false cs
    match expect close cs with
    | some r => some ([], r)
    | none => do
      let (item, r) ← readItem cs
      let r := skipGap false r
      match expect ',' r with
      | some r => do
        let (items, r) ← readItems close readItem fuel r
        some (item :: items, r)
      | none => do some ([item], ← expect close r)

def readPair (skip : List Char → List Char) (readValue : Reader Value) (cs : List Char) :
    Option ((Key × Value) × List Char) := do
  let (key, r) ← readKey cs
  let r ← expect '=' (skip r)
  let (v, r) ← readValue (skip r)
  some ((key, v), r)

def readValue : (depth : Nat) → Reader Value
  | 0, cs => readScalar cs
  | depth + 1, cs =>
    match cs with
    | '[' :: r =>
      (readItems ']' (readValue depth) cs.length r).map fun (vs, r) => (.array vs, r)
    | '\x7b' :: r => do
      let (ps, r) ← readItems '\x7d' (readPair (skipGap false) (readValue depth)) cs.length r
      let entries ← Entries.insertAll? .inline [] ps
      some (.table .inline entries, r)
    | _ => readScalar cs

inductive Header where
  | table (key : Key)
  /-- It may be repeated, and begins one table more each time. -/
  | element (key : Key)
  deriving DecidableEq, Repr

inductive Statement where
  | pair (key : Key) (v : Value)
  | header (h : Header)

def readStatement (cs : List Char) : Option (Statement × List Char) :=
  match skipSpaces cs with
  | '[' :: '[' :: r => do
    let (key, r) ← readKey r
    some (.header (.element key), ← expect ']' (← expect ']' r))
  | '[' :: r => do
    let (key, r) ← readKey r
    some (.header (.table key), ← expect ']' r)
  | cs => (readPair skipSpaces (readValue nestingLimit) cs).map fun (p, r) => (.pair p.1 p.2, r)

/-- The statements of a document, at most one on a line. There are fewer lines than `fuel`, if that
is more than the number of characters. -/
def readStatements : (fuel : Nat) → List Char → Option (List Statement)
  | _, [] => some []
  | 0, _ => none
  | fuel + 1, cs =>
    match endLine? cs with
    | some r => readStatements fuel r
    | none => do
      let (s, r) ← readStatement cs
      let ss ← readStatements fuel (← endLine? r)
      some (s :: ss)

structure Section where
  header : Header
  pairs : List (Key × Value)

def sections : List Statement → List (Key × Value) × List Section
  | [] => ([], [])
  | .pair key v :: ss =>
    let rest := sections ss
    ((key, v) :: rest.1, rest.2)
  | .header h :: ss =>
    let rest := sections ss
    ([], ⟨h, rest.1⟩ :: rest.2)

def Section.addTo? (s : Section) (root : Entries) : Option Entries :=
  match s.header with
  | .table key => root.insertTable? key s.pairs
  | .element key => root.insertElement? key s.pairs

def assemble? (ss : List Statement) : Option Entries := do
  let root ← Entries.insertAll? .header [] (sections ss).1
  (sections ss).2.foldlM (fun root s => s.addTo? root) root

def dropMark : List Char → List Char
  | '\ufeff' :: r => r
  | cs => cs

def read? (document : String) : Option Entries := do
  let cs := dropMark document.toList
  assemble? (← readStatements (cs.length + 1) cs)

end FrameCursor.Toml
