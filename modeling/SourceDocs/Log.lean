import SourceDocs.Text.Basic

/-!
Log lines. What a function reports beside its result is a list of these.
-/

namespace SourceDocs

inductive LogLevel where
  | debug
  | info
  | warn
deriving DecidableEq, Repr

def LogLevel.label : LogLevel → String
  | .debug => "DEBUG"
  | .info => "INFO"
  | .warn => "WARN"

def LogLevel.rank : LogLevel → Nat
  | .debug => 0
  | .info => 1
  | .warn => 2

structure LogLine where
  level : LogLevel
  message : String
deriving DecidableEq, Repr

def LogLine.render (line : LogLine) : String := line.level.label ++ " " ++ line.message

def LogLine.messageLines (line : LogLine) : List Text := line.message.toList.splitOn '\n'

def LogLine.firstLine (line : LogLine) : LogLine :=
  ⟨line.level, String.ofList (line.messageLines.headD [])⟩

def LogLine.furtherLines (line : LogLine) : List String :=
  line.messageLines.tail.map fun further => "    " ++ String.ofList further

structure Logged (α : Type) where
  value : α
  log : List LogLine

end SourceDocs
