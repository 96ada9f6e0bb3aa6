import SourceDocs.Text.Basic

/-!
JSON values and their text. Objects keep the order of their fields; numbers are natural numbers. Two
layouts are written: everything on one line, or one item a line with two more spaces per level.
-/

namespace SourceDocs

inductive Json where
  | null
  | bool (value : Bool)
  | num (value : Nat)
  | str (value : Text)
  | arr (items : List Json)
  | obj (fields : List (Text × Json))
deriving Repr

namespace Json

inductive Layout where
  | compact
  | indented
deriving DecidableEq, Repr

def hexDigits (n : Nat) : Text :=
  [n / 4096, n / 256 % 16, n / 16 % 16, n % 16].map Nat.digitChar

def writeChar (c : Char) : Text :=
  if c = '"' then ['\\', '"']
  else if c = '\\' then ['\\', '\\']
  else if c = '\n' then ['\\', 'n']
  else if c = '\r' then ['\\', 'r']
  else if c = '\t' then ['\\', 't']
  else if c = '\x08' then ['\\', 'b']
  else if c = '\x0c' then ['\\', 'f']
  else if c.toNat < 0x20 then '\\' :: 'u' :: hexDigits c.toNat
  else [c]

def writeString (value : Text) : Text := '"' :: value.flatMap writeChar ++ ['"']

/-- What stands between a bracket and an item, or between two items after the comma. -/
def gap : Layout → Nat → Text
  | .compact, _ => []
  | .indented, depth => '\n' :: List.replicate (2 * depth) ' '

def colon : Layout → Text
  | .compact => [':']
  | .indented => [':', ' ']

mutual

def writeAt (layout : Layout) (depth : Nat) : Json → Text
  | null => "null".toList
  | bool true => "true".toList
  | bool false => "false".toList
  | num value => Nat.toDigits 10 value
  | str value => writeString value
  | arr [] => ['[', ']']
  | arr (item :: items) =>
    '[' :: gap layout (depth + 1) ++ writeAt layout (depth + 1) item ++
      writeItems layout (depth + 1) items ++ gap layout depth ++ [']']
  | obj [] => ['\x7b', '\x7d']
  | obj ((name, value) :: fields) =>
    '\x7b' :: gap layout (depth + 1) ++ writeString name ++ colon layout ++
      writeAt layout (depth + 1) value ++ writeFields layout (depth + 1) fields ++
      gap layout depth ++ ['\x7d']

def writeItems (layout : Layout) (depth : Nat) : List Json → Text
  | [] => []
  | item :: items =>
    ',' :: gap layout depth ++ writeAt layout depth item ++ writeItems layout depth items

def writeFields (layout : Layout) (depth : Nat) : List (Text × Json) → Text
  | [] => []
  | (name, value) :: fields =>
    ',' :: gap layout depth ++ writeString name ++ colon layout ++ writeAt layout depth value ++
      writeFields layout depth fields

end

def write (layout : Layout) (value : Json) : Text := writeAt layout 0 value

end Json

end SourceDocs
