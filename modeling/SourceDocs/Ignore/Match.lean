import SourceDocs.Ignore.Comparison
import SourceDocs.Positions

/-!
Comparing patterns with paths. Each piece moves a set of positions in the path along, and a pattern
fits when the end of the path is among those it leads to. A path that ends with two dots has no last
name, so a pattern that asks for one does not fit it.
-/

namespace SourceDocs.Ignore

def slash : UInt8 := 0x2F

def throughDirectories (path : List UInt8) (positions : Positions) : Positions :=
  positions.union ((positions.spread (fun _ => true) path).step (· == slash) path)

mutual

def Token.isVoid : Token → Bool
  | .alternatives branches => areVoid branches
  | _ => false

def areVoid : List (List Token) → Bool
  | [] => true
  | branch :: branches => isVoidBranch branch && areVoid branches

def isVoidBranch : List Token → Bool
  | [] => true
  | token :: tokens => token.isVoid && isVoidBranch tokens

end

mutual

def Token.advance (path : List UInt8) (positions : Positions) : Token → Positions
  | .literal c =>
    (String.utf8EncodeChar c).foldl
      (fun positions byte => positions.step (· == byte) path) positions
  | .anyByte => positions.step (· != slash) path
  | .anyName => positions.spread (· != slash) path
  | .leadingDirectories => throughDirectories path positions
  | .innerDirectories => throughDirectories path (positions.step (· == slash) path)
  | .everythingBelow => (positions.step (· == slash) path).spread (fun _ => true) path
  | .set negated ranges =>
    positions.step
      (fun byte => ranges.any (fun range => range.1 ≤ byte && byte ≤ range.2) != negated) path
  | .alternatives branches =>
    if areVoid branches then positions else advanceBranches path positions branches

/-- The positions that one of several alternatives leads to; those that say nothing are left out. -/
def advanceBranches (path : List UInt8) (positions : Positions) : List (List Token) → Positions
  | [] => .nowhere path
  | branch :: branches =>
    let others := advanceBranches path positions branches
    if isVoidBranch branch then others
    else (advanceSequence path positions branch).union others

def advanceSequence (path : List UInt8) (positions : Positions) : List Token → Positions
  | [] => positions
  | token :: tokens => advanceSequence path (token.advance path positions) tokens

end

/-- Whether the last name of a path is missing, because two dots stand in its place. -/
def lacksName (path : Text) : Bool := (path.splitOn '/').getLast? == some ['.', '.']

/-- Whether a pattern fits a path. Two stars alone fit every path. -/
def fits (pattern : List Token) (path : Text) : Bool :=
  match pattern with
  | [.leadingDirectories] => true
  | _ =>
    let bytes := Text.utf8 path
    !(lacksName path && asksForName pattern) &&
    (advanceSequence bytes (.front bytes) pattern).atEnd

end SourceDocs.Ignore
