import SourceDocs.FileSystem.Basic
import SourceDocs.Ignore.Expression
import SourceDocs.Ignore.Match
import SourceDocs.Log
import SourceDocs.Text.WhiteSpace

/-!
Ignore files. Each line is a rule; a rule with a bang in front takes back what earlier rules ignore,
so the last rule that fits a path decides. The rules of all ignore files below a directory are one
list, and all of them are relative to that directory.
-/

namespace SourceDocs.Ignore

structure Rule where
  pattern : List Token
  whitelists : Bool
  directoriesOnly : Bool
deriving Repr

inductive Verdict where
  | none
  | ignored
  | whitelisted
deriving DecidableEq, Repr

inductive LineFault where
  | pattern (written : Text) (fault : PatternFault)
  | file (error : FileError)
deriving DecidableEq, Repr

def LineFault.message : LineFault → String
  | .pattern written fault => s!"error parsing glob '{String.ofList written}': {fault.words}"
  | .file error => error.message

/-- What the front of a rule means: whether it whitelists, whether it is anchored at the directory,
and the rest of it. A backslash takes its meaning from a bang or a hash. -/
def splitFront (line : Text) : Bool × Bool × Text :=
  let anchor (rest : Text) : Bool × Text :=
    match rest with
    | '/' :: more => (true, more)
    | _ => (false, rest)
  match line with
  | '\\' :: '!' :: rest => (false, false, '!' :: rest)
  | '\\' :: '#' :: rest => (false, false, '#' :: rest)
  | '!' :: rest => (true, anchor rest)
  | rest => (false, anchor rest)

/-- What the end of a rule means: a slash there asks for a directory. A backslash before it goes
with it. -/
def splitEnd (line : Text) : Bool × Text :=
  match ['/'].isSuffixOf? line with
  | none => (false, line)
  | some rest => (true, (['\\'].isSuffixOf? rest).getD rest)

/-- The pattern of a rule: without a slash it fits in any directory, and two stars at the end do not
fit the directory in front of them. -/
def fullPattern (anchored : Bool) (body : Text) : Text :=
  let anywhere := !anchored && !body.contains '/' && body != ['*', '*']
  let pattern := if anywhere then '*' :: '*' :: '/' :: body else body
  if ['/', '*', '*'].isSuffixOf pattern then pattern ++ ['/', '*'] else pattern

/-- The rule on a line; comments and empty lines hold none. White space at the end does not count,
unless the line ends with an escaped space. -/
def rule? (line : Text) : Except LineFault (Option Rule) :=
  if line.head? = some '#' then .ok none
  else
    let written := if ['\\', ' '].isSuffixOf line then line else Text.trimEnd line
    if written.isEmpty then .ok none
    else
      let (whitelists, anchored, rest) := splitFront written
      let (directoriesOnly, body) := splitEnd rest
      match parse (fullPattern anchored body) with
      | .ok pattern => .ok (some ⟨pattern, whitelists, directoriesOnly⟩)
      | .error fault => .error (.pattern written fault)

def byteLines (content : List UInt8) : List (List UInt8) :=
  let pieces := content.splitOn 0x0A
  let ended := pieces.dropLast.map fun line =>
    if line.getLast? = some 0x0D then line.dropLast else line
  match pieces.getLast? with
  | none => []
  | some [] => ended
  | some last => ended ++ [last]

structure Contents where
  rules : List Rule
  faults : List (Nat × LineFault)
deriving Repr

/-- The rules on lines from a number on. A line that is no text ends the reading. -/
def readLines : Nat → List (List UInt8) → Contents
  | _, [] => ⟨[], []⟩
  | number, line :: lines =>
    match Text.decode? ⟨line.toArray⟩ with
    | none => ⟨[], [(number, .file .notText)]⟩
    | some text =>
      let marked := Char.ofNat 0xFEFF
      let text := if number = 1 then text.dropWhile (· = marked) else text
      let others := readLines (number + 1) lines
      match rule? text with
      | .ok none => others
      | .ok (some rule) => ⟨rule :: others.rules, others.faults⟩
      | .error fault => ⟨others.rules, (number, fault) :: others.faults⟩

def readFile (fs : FileSystem) (path : Text) : Contents :=
  match fs.readBytes path with
  | .error error => ⟨[], [(1, .file error)]⟩
  | .ok content => readLines 1 (byteLines content.toList)

structure Matcher where
  root : Text
  rules : List Rule
deriving Repr

def withoutDot (path : Text) : Text := (['.', '/'].isPrefixOf? path).getD path

def Matcher.empty : Matcher := ⟨[], []⟩

def fileName : Text := ".gitignore".toList

def everythingIn (fs : FileSystem) (directory : Text) : List Node.Visit :=
  match fs.get directory with
  | .error _ => []
  | .ok node => node.walk (fun _ => true) directory ((Path.fileName? directory).getD directory)

def warning? (path : Text) (faults : List (Nat × LineFault)) : Option LogLine :=
  if faults.isEmpty then none
  else
    let path := String.ofList path
    let reports := faults.map fun (number, fault) => s!"{path}: line {number}: {fault.message}"
    some ⟨.warn, s!"Failed to read {path}: " ++ "\n".intercalate reports⟩

/-- A matcher for rules that hold below a directory. If one of them cannot be used, none is. -/
def Matcher.ofRules (directory : Text) (rules : List Rule) : Logged Matcher :=
  match listFault? (rules.map (·.pattern)) with
  | none => ⟨⟨withoutDot directory, rules⟩, []⟩
  | some fault =>
    ⟨.empty, [⟨.warn, s!"Invalid .gitignore under {String.ofList directory}: {fault.words}"⟩]⟩

def Matcher.below (fs : FileSystem) (directory : Text) : Logged Matcher :=
  let files := ((everythingIn fs directory).filter (·.name = fileName)).map (·.path)
  let contents := files.map fun path => (path, readFile fs path)
  let warnings := contents.filterMap fun (path, contents) => warning? path contents.faults
  let matcher := Matcher.ofRules directory (contents.flatMap (·.2.rules))
  ⟨matcher.value, warnings ++ matcher.log⟩

namespace Matcher

/-- A path relative to the directory of the rules. A bare name is kept, and so is a path that does
not begin with the directory. -/
def relative (matcher : Matcher) (path : Text) : Text :=
  let path := withoutDot path
  if Path.same matcher.root ['.'] || !path.contains '/' then path
  else match matcher.root.isPrefixOf? path with
    | none => path
    | some rest => (['/'].isPrefixOf? rest).getD rest

def verdictOn (matcher : Matcher) (path : Text) (isDir : Bool) : Verdict :=
  match matcher.rules.reverse.find? fun rule =>
      (!rule.directoriesOnly || isDir) && fits rule.pattern path with
  | none => .none
  | some rule => if rule.whitelists then .whitelisted else .ignored

def verdict (matcher : Matcher) (path : Text) (isDir : Bool) : Verdict :=
  matcher.verdictOn (matcher.relative path) isDir

def verdictWithParents (matcher : Matcher) (path : Text) (isDir : Bool) : Verdict :=
  let relative := matcher.relative path
  let verdicts := matcher.verdictOn relative isDir ::
    (Path.ancestors relative).tail.map (matcher.verdictOn · true)
  (verdicts.find? (· ≠ .none)).getD .none

end Matcher

end SourceDocs.Ignore
