import SlotStorage.Toml.Statement

/-!
# TOML documents

The table that a row of statements describes.  A header opens a table, to which
the keys after it belong; a table is described only once, and a key has only
one value.
-/

namespace SlotStorage.Toml

/-- A header with the keys and values under it. -/
structure Section where
  header : Statement
  pairs : List (Path × Value)

/-- Cuts statements into the keys before the first header and the sections
after it. -/
def sections : List Statement → List (Path × Value) × List Section
  | [] => ([], [])
  | statement :: others =>
    let (pairs, rest) := sections others
    match statement with
    | .assignment path value => ((path, value) :: pairs, rest)
    | header => ([], ⟨header, pairs⟩ :: rest)

/-- Puts the table of a header into the table around it.  A table that was only
named on the way so far is completed. -/
def placeTable? (name : List Char) (pairs : List (Path × Value))
    (around : Entries) : Option Entries :=
  match Entries.lookup? name around with
  | none =>
    (Entries.ofPairs? pairs []).map fun entries =>
      around ++ [(name, .table .header entries)]
  | some (.table .passage inner) =>
    (Entries.ofPairs? pairs inner).map fun entries =>
      Entries.replace name (.table .header entries) around
  | some _ => none

/-- Adds a table to the row of a header in the table around it. -/
def placeRow? (name : List Char) (pairs : List (Path × Value))
    (around : Entries) : Option Entries :=
  match Entries.lookup? name around, Entries.ofPairs? pairs [] with
  | none, some entries => some (around ++ [(name, .rows [entries])])
  | some (.rows tables), some entries =>
    some (Entries.replace name (.rows (tables ++ [entries])) around)
  | _, _ => none

def place? (root : Entries) (part : Section) : Option Entries :=
  match part.header with
  | .table path =>
    path.getLast?.bind fun name =>
      Entries.editPath? (placeTable? name part.pairs) path.dropLast root
  | .row path =>
    path.getLast?.bind fun name =>
      Entries.editPath? (placeRow? name part.pairs) path.dropLast root
  | .assignment path value => Entries.assign? value path root

def ofStatements? (found : List Statement) : Option Entries :=
  let (pairs, parts) := sections found
  parts.foldl (fun root part => root.bind fun root => place? root part)
    (Entries.ofPairs? pairs [])

/-- The characters of a text without the mark of its encoding. -/
def dropEncodingMark : List Char → List Char
  | '\uFEFF' :: rest => rest
  | chars => chars

def parse? (text : String) : Option Entries :=
  (statements.all (dropEncodingMark text.toList)).bind ofStatements?

end SlotStorage.Toml
