/-!
# TOML values

A value is a scalar, an array or a table.  A table remembers how it came about,
because that decides what may be added to it later.
-/

namespace SlotStorage.Toml

/-- How a table came about. -/
inductive Origin where
  /-- It is written between braces, and nothing may be added. -/
  | inline
  /-- It has a header of its own. -/
  | header
  /-- It is named on the way in the header of another table. -/
  | passage
  /-- It is named on the way in a dotted key. -/
  | dotted
  deriving DecidableEq, Repr

/-- A value.  Of numbers with a fraction and of dates it is only known that
they are such. -/
inductive Value where
  | string (text : List Char)
  | integer (number : Int)
  | float
  | boolean (truth : Bool)
  | dateTime
  | array (items : List Value)
  | table (origin : Origin) (entries : List (List Char × Value))
  | rows (tables : List (List (List Char × Value)))
  deriving Inhabited

/-- The entries of a table, in the order in which they were written. -/
abbrev Entries := List (List Char × Value)

namespace Entries

def lookup? (key : List Char) : Entries → Option Value
  | [] => none
  | entry :: rest => if entry.1 = key then some entry.2 else lookup? key rest

/-- Puts a value in place of the one under a key. -/
def replace (key : List Char) (value : Value) (entries : Entries) : Entries :=
  entries.map fun entry => if entry.1 = key then (key, value) else entry

def insert? (key : List Char) (value : Value) (entries : Entries) :
    Option Entries :=
  match lookup? key entries with
  | some _ => none
  | none => some (entries ++ [(key, value)])

def editLast? (edit : Entries → Option Entries) :
    List Entries → Option (List Entries)
  | [] => none
  | [last] => (edit last).map fun entries => [entries]
  | first :: others => (editLast? edit others).map fun tables => first :: tables

/-- Changes the table at the end of a path in a header.  Tables on the way that
do not exist are made. -/
def editPath? (edit : Entries → Option Entries) :
    List (List Char) → Entries → Option Entries
  | [], entries => edit entries
  | key :: path, entries =>
    match lookup? key entries with
    | none =>
      (editPath? edit path []).map fun inner =>
        entries ++ [(key, .table .passage inner)]
    | some (.table .inline _) => none
    | some (.table origin inner) =>
      (editPath? edit path inner).map fun inner =>
        replace key (.table origin inner) entries
    | some (.rows tables) =>
      (editLast? (editPath? edit path) tables).map fun tables =>
        replace key (.rows tables) entries
    | some _ => none

/-- Adds a value under a dotted key.  Tables on the way that do not exist are
made; the value may only enter a table that dotted keys have made, and no table
with a header lies on the way. -/
def assign? (value : Value) : List (List Char) → Entries → Option Entries
  | [], _ => none
  | [key], entries => insert? key value entries
  | key :: next :: path, entries =>
    match lookup? key entries with
    | none =>
      (assign? value (next :: path) []).map fun inner =>
        entries ++ [(key, .table .dotted inner)]
    | some (.table .dotted inner) =>
      (assign? value (next :: path) inner).map fun inner =>
        replace key (.table .dotted inner) entries
    | some (.table .passage inner) =>
      if path.isEmpty then none
      else
        (assign? value (next :: path) inner).map fun inner =>
          replace key (.table .passage inner) entries
    | some (.rows tables) =>
      if path.isEmpty then none
      else
        (editLast? (assign? value (next :: path)) tables).map fun tables =>
          replace key (.rows tables) entries
    | some _ => none

def ofPairs? : List (List (List Char) × Value) → Entries → Option Entries
  | [], entries => some entries
  | (path, value) :: pairs, entries =>
    (assign? value path entries).bind (ofPairs? pairs)

end Entries

end SlotStorage.Toml
