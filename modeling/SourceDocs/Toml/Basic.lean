import SourceDocs.Text.Basic

/-!
TOML values while a document is being read. A table remembers how it came about, because that decides
what may still be added to it: an inline table is complete, a table opened by a header may not be
opened again, and a table made by a dotted key grows by dotted keys only.
-/

namespace SourceDocs.Toml

inductive Origin where
  | inline
  | implied
  | header
  | dotted
deriving DecidableEq, Repr

/-- A TOML value. Floats and dates are kept as they are written. -/
inductive Value where
  | string (text : Text)
  | boolean (value : Bool)
  | integer (value : Int)
  | float (written : Text)
  | dateTime (written : Text)
  | array (items : List Value)
  | table (origin : Origin) (entries : List (Text × Value))
  | tables (rows : List (List (Text × Value)))
deriving Repr

/-- Why a text is no document. Only the one about keys says which rule it breaks. -/
inductive Fault where
  | malformed
  | longKey
deriving DecidableEq, Repr

def Fault.words : Fault → String
  | .malformed => "TOML parse error"
  | .longKey => "recursion limit\n"

def maxDepth : Nat := 80

abbrev Entries := List (Text × Value)

namespace Entries

def get? (entries : Entries) (key : Text) : Option Value := entries.lookup key

def set (entries : Entries) (key : Text) (value : Value) : Entries :=
  entries.map fun entry => if entry.1 = key then (key, value) else entry

def add (entries : Entries) (key : Text) (value : Value) : Entries := entries ++ [(key, value)]

def mapLastRow (change : Entries → Option Entries) : List Entries → Option (List Entries)
  | [] => none
  | [row] => (change row).map ([·])
  | row :: next :: rows => (mapLastRow change (next :: rows)).map (row :: ·)

def admitsDotted : Origin → Bool
  | .dotted | .implied => true
  | .inline | .header => false

/-- Adds a value under a dotted key. The tables on the way count as made by a dotted key from then on,
so that no header opens them any more; a row of an array of tables only lets the key through. -/
def assign (key : Text) (value : Value) : List Text → Entries → Option Entries
  | [], entries =>
    match entries.get? key with
    | some _ => none
    | none => some (entries.add key value)
  | step :: steps, entries =>
    match entries.get? step with
    | none => (assign key value steps []).map fun inner => entries.add step (.table .dotted inner)
    | some (.table origin inner) =>
      if admitsDotted origin then
        (assign key value steps inner).map fun inner => entries.set step (.table .dotted inner)
      else none
    | some (.tables rows) =>
      if steps.isEmpty then none
      else (mapLastRow (assign key value steps) rows).map fun rows => entries.set step (.tables rows)
    | some _ => none

def descend (change : Entries → Option Entries) : List Text → Entries → Option Entries
  | [], entries => change entries
  | step :: steps, entries =>
    match entries.get? step with
    | none => (descend change steps []).map fun inner => entries.add step (.table .implied inner)
    | some (.table origin inner) =>
      if origin = .inline then none
      else (descend change steps inner).map fun inner => entries.set step (.table origin inner)
    | some (.tables rows) =>
      (mapLastRow (descend change steps) rows).map fun rows => entries.set step (.tables rows)
    | some _ => none

def openTable (key : Text) (entries : Entries) : Option Entries :=
  match entries.get? key with
  | none => some (entries.add key (.table .header []))
  | some (.table .implied inner) => some (entries.set key (.table .header inner))
  | some _ => none

def openRow (key : Text) (entries : Entries) : Option Entries :=
  match entries.get? key with
  | none => some (entries.add key (.tables [[]]))
  | some (.tables rows) => some (entries.set key (.tables (rows ++ [[]])))
  | some _ => none

end Entries

end SourceDocs.Toml
