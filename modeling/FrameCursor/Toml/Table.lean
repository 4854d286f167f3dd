import FrameCursor.Toml.Key
import FrameCursor.Toml.Moment
import FrameCursor.Toml.Number

/-!
Values and the tables that hold them. No name is given two values, and a table remembers how it came
to be, because that decides who may still add a value to it: nobody to an inline table, a header of
its own to one that longer headers implied, and further dotted keys to one that dotted keys made.
-/

set_option autoImplicit false

namespace FrameCursor.Toml

inductive Origin where
  | inline
  /-- Dotted keys led through it. -/
  | dotted
  /-- The header of a table inside it led through it. -/
  | implied
  /-- It has a header of its own, or is the whole document. -/
  | header
  deriving DecidableEq, Repr

inductive Value where
  | text (s : String)
  | integer (n : Int)
  | decimal (x : Decimal)
  | bool (b : Bool)
  | moment (m : Moment)
  | array (items : List Value)
  | table (origin : Origin) (entries : List (String × Value))
  /-- The tables under a repeated header: the latest one, and those before it. -/
  | tables (latest : List (String × Value)) (earlier : List (List (String × Value)))

abbrev Entries : Type := List (String × Value)

namespace Entries

def get? (entries : Entries) (name : String) : Option Value := List.lookup name entries

def replace (entries : Entries) (name : String) (v : Value) : Entries :=
  entries.map fun e => if e.1 = name then (name, v) else e

def add? (entries : Entries) (name : String) (v : Value) : Option Entries :=
  if (entries.get? name).isSome then none else some ((name, v) :: entries)

/-- Changes the table at the end of a path, and makes the tables on the way that are missing. Dotted
keys do not lead into a table that has a header, and nothing leads into an inline table. -/
def changeAt (dotted : Bool) (change : Origin → Entries → Option Entries) :
    List String → Origin → Entries → Option Entries
  | [], origin, entries => change origin entries
  | name :: path, _, entries =>
    match entries.get? name with
    | none => do
      let origin : Origin := if dotted then .dotted else .implied
      let inner ← changeAt dotted change path origin []
      some ((name, .table origin inner) :: entries)
    | some (.table origin inner) => do
      guard (origin ≠ .inline && !(dotted && origin = .header))
      let inner ← changeAt dotted change path origin inner
      some (entries.replace name (.table origin inner))
    | some (.tables latest earlier) => do
      let latest ← changeAt dotted change path .header latest
      some (entries.replace name (.tables latest earlier))
    | some _ => none

def insert? (origin : Origin) (entries : Entries) (key : Key) (v : Value) : Option Entries :=
  changeAt true
    (fun reached inner => if key.path.isEmpty || reached = .dotted then inner.add? key.name v else none)
    key.path origin entries

def insertAll? (origin : Origin) (entries : Entries) (pairs : List (Key × Value)) : Option Entries :=
  pairs.foldlM (fun es p => es.insert? origin p.1 p.2) entries

def insertTable? (root : Entries) (key : Key) (pairs : List (Key × Value)) : Option Entries :=
  changeAt false
    (fun _ inner =>
      match inner.get? key.name with
      | none => do
        let es ← insertAll? .header [] pairs
        some ((key.name, .table .header es) :: inner)
      -- A table that longer headers implied is continued by its own.
      | some (.table .implied es) => do
        let es ← insertAll? .header es pairs
        some (inner.replace key.name (.table .header es))
      | some _ => none)
    key.path .header root

def insertElement? (root : Entries) (key : Key) (pairs : List (Key × Value)) : Option Entries :=
  changeAt false
    (fun _ inner => do
      let es ← insertAll? .header [] pairs
      match inner.get? key.name with
      | none => some ((key.name, .tables es []) :: inner)
      | some (.tables latest earlier) =>
        some (inner.replace key.name (.tables es (latest :: earlier)))
      | some _ => none)
    key.path .header root

end Entries

end FrameCursor.Toml
