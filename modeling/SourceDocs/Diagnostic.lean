import SourceDocs.Text.Basic

/-!
Places in a source text and the diagnostics that name them. A place is found by walking over the text
before it: a line feed begins a line, any other character is one column.
-/

namespace SourceDocs

/-- A place in a text: byte offset, line and column, the last two counted from 1. -/
structure Place where
  offset : Nat
  line : Nat
  column : Nat
deriving DecidableEq, Repr

namespace Place

def start : Place := ⟨0, 1, 1⟩

def step (place : Place) (c : Char) : Place :=
  if c = '\n' then ⟨place.offset + c.utf8Size, place.line + 1, 1⟩
  else ⟨place.offset + c.utf8Size, place.line, place.column + 1⟩

def advance (place : Place) (passed : Text) : Place := passed.foldl step place

def after (before : Text) : Place := start.advance before

end Place

inductive Construct where
  | blockComment
  | stringLiteral
deriving DecidableEq, Repr

def Construct.words : Construct → String
  | .blockComment => "block comment"
  | .stringLiteral => "string literal"

structure Diagnostic where
  construct : Construct
  place : Place
deriving DecidableEq, Repr

namespace Diagnostic

/-- The diagnostic for a construct that opens at a byte offset: the text in front of it is cut off for
the line, and the last line of that for the column. `none` where no character begins. -/
def unterminatedAt? (construct : Construct) (source : Text) (offset : Nat) : Option Diagnostic := do
  let (before, _) ← Text.splitAt? offset source
  let line ← Text.slice? source (Text.lastLineStart before) offset
  return ⟨construct, ⟨offset, before.count '\n' + 1, line.length + 1⟩⟩

def message (diagnostic : Diagnostic) : String :=
  s!"{diagnostic.place.line}:{diagnostic.place.column}: unterminated {diagnostic.construct.words}"

end Diagnostic

end SourceDocs
