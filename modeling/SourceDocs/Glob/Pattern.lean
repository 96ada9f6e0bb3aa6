import SourceDocs.Positions
import SourceDocs.Text.Basic

/-!
Glob patterns for one component of a path: `*` stands for any characters, `?` for one, brackets for
one out of a set, and `**`, which has to be a component of its own, for any number of directories.
-/

namespace SourceDocs.Glob

inductive PatternFault where
  | wildcards
  | recursiveWildcards
  | invalidRange
deriving DecidableEq, Repr

def PatternFault.words : PatternFault → String
  | .wildcards => "wildcards are either regular `*` or recursive `**`"
  | .recursiveWildcards => "recursive wildcards must form a single path component"
  | .invalidRange => "invalid range pattern"

/-- A fault with the position of the character at which it shows. -/
structure PatternError where
  position : Nat
  fault : PatternFault
deriving DecidableEq, Repr

def PatternError.message (error : PatternError) : String :=
  s!"Pattern syntax error near position {error.position}: {error.fault.words}"

inductive Token where
  | char (c : Char)
  | anyChar
  | anySequence
  | anyDirectories
  | oneOf (ranges : List (Char × Char))
  | noneOf (ranges : List (Char × Char))
deriving DecidableEq, Repr

abbrev Pattern := List Token

def ranges : Text → List (Char × Char)
  | first :: '-' :: last :: rest => (first, last) :: ranges rest
  | c :: rest => (c, c) :: ranges rest
  | [] => []

/-- A set behind its opening bracket: at least one character, then everything up to the closing
bracket. -/
def set? (build : List (Char × Char) → Token) : Text → Option (Token × Text)
  | [] => none
  | first :: rest =>
    let inner := rest.takeWhile (· ≠ ']')
    match rest.dropWhile (· ≠ ']') with
    | [] => none
    | _ :: after => some (build (ranges (first :: inner)), after)

def bracket? : Text → Option (Token × Text)
  | '!' :: rest => set? .noneOf rest
  | rest => set? .oneOf rest

/-- The pieces of a pattern from a position on, after the character `before`. -/
def parseFrom (position : Nat) (before : Option Char) (rest : Text) :
    Except PatternError Pattern :=
  match rest with
  | [] => .ok []
  | '?' :: more =>
    (parseFrom (position + 1) (some '?') more).map (.anyChar :: ·)
  | '*' :: '*' :: '*' :: _ => .error ⟨position + 2, .wildcards⟩
  | '*' :: '*' :: more =>
    if before = none ∨ before = some '/' then
      match more with
      | [] => .ok [.anyDirectories]
      | '/' :: more =>
        (parseFrom (position + 3) (some '/') more).map (.anyDirectories :: ·)
      | _ :: _ => .error ⟨position + 2, .recursiveWildcards⟩
    else .error ⟨position - 1, .recursiveWildcards⟩
  | '*' :: more =>
    (parseFrom (position + 1) (some '*') more).map (.anySequence :: ·)
  | '[' :: more =>
    match bracket? more with
    | none => .error ⟨position, .invalidRange⟩
    | some (token, after) =>
      if after.length ≤ more.length then
        (parseFrom (position + (rest.length - after.length)) (some ']') after).map (token :: ·)
      else .error ⟨position, .invalidRange⟩
  | c :: more => (parseFrom (position + 1) (some c) more).map (.char c :: ·)
termination_by rest.length
decreasing_by
  all_goals simp_all
  all_goals omega

def parse (pattern : Text) : Except PatternError Pattern := parseFrom 0 none pattern

def inRanges (ranges : List (Char × Char)) (c : Char) : Bool :=
  ranges.any fun range => range.1 ≤ c && c ≤ range.2

def Token.advance (name : Text) (positions : Positions) : Token → Positions
  | .char c => positions.step (· == c) name
  | .anyChar => positions.step (fun _ => true) name
  | .anySequence | .anyDirectories => positions.spread (fun _ => true) name
  | .oneOf ranges => positions.step (inRanges ranges) name
  | .noneOf ranges => positions.step (fun c => !inRanges ranges c) name

def fits (pattern : Pattern) (name : Text) : Bool :=
  let advance (positions : Positions) (token : Token) : Positions := token.advance name positions
  (pattern.foldl advance (.front name)).atEnd

def literal? (pattern : Pattern) : Option Text :=
  pattern.mapM fun
    | .char c => some c
    | _ => none

def isRecursive (pattern : Pattern) : Bool := pattern.contains .anyDirectories

end SourceDocs.Glob
