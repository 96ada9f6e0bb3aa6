import SourceDocs.Document

/-!
Documents as markdown: prose as it is, code in fenced blocks tagged with their language. A fence is
one backtick longer than any run of backticks in its code, and at least three long.
-/

namespace SourceDocs.Markdown

def backtick : Char := '\x60'

/-- The length of the longest run of backticks, the first of which may continue `run` earlier ones. -/
def longestRunFrom (run : Nat) : Text → Nat
  | [] => run
  | c :: rest =>
    if c = backtick then longestRunFrom (run + 1) rest else max run (longestRunFrom 0 rest)

def longestRun (code : Text) : Nat := longestRunFrom 0 code

/-- A fence that no run in the code can close. -/
def fence (code : Text) : Text := List.replicate (max (longestRun code) 2 + 1) backtick

/-- A text without its leading blank lines and without the white space at its end; the indentation
of the first line that remains is kept. -/
def trimBlankLines (code : Text) : Text :=
  match Text.trimStart code with
  | [] => []
  | c :: rest =>
    Text.trimEnd (Text.lastLine (code.takeWhile Text.isSpace) ++ c :: rest)

def fenced (code language : Text) : Text :=
  let body := trimBlankLines code
  fence body ++ language ++ '\n' :: body ++ '\n' :: fence body

def ofSegment (segment : Segment) : Text :=
  match segment with
  | .documentation text _ _ => text
  | .code text language _ _ => if segment.isBlankCode then [] else fenced text language

def ofDocument (document : Document) : Text :=
  let pieces := (document.segments.map ofSegment).filter (!·.isEmpty)
  match pieces with
  | [] => []
  | _ :: _ => ['\n', '\n'].intercalate pieces ++ ['\n']

end SourceDocs.Markdown
