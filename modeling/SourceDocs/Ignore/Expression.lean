import SourceDocs.Ignore.Comparison

/-!
The regular expressions that patterns stand for. They show in reports, and they may not be nested too
deep: every group, choice, repetition and set is a level, and so is a sequence of more than one part.
-/

namespace SourceDocs.Ignore

structure Expression where
  text : String
  parts : Nat
  depth : Nat
deriving DecidableEq, Repr

namespace Expression

def empty : Expression := ⟨"", 0, 0⟩

def append (first second : Expression) : Expression :=
  ⟨first.text ++ second.text, first.parts + second.parts, max first.depth second.depth⟩

def levels (expression : Expression) : Nat :=
  if expression.parts ≤ 1 then expression.depth else expression.depth + 1

/-- A group that leaves the choice between expressions; those without parts are no choice. -/
def group (choices : List Expression) : Expression :=
  let choices := choices.filter (·.parts ≠ 0)
  let deepest := (choices.map levels).foldl max 0
  match choices with
  | [] => empty
  | [choice] => ⟨"(?:" ++ choice.text ++ ")", 1, deepest + 1⟩
  | _ => ⟨"(?:" ++ "|".intercalate (choices.map (·.text)) ++ ")", 1, deepest + 2⟩

end Expression

def isSpecial (c : Char) : Bool := "\\.+*?()|[]\x7b\x7d^$#&-~".toList.contains c

def byteText (byte : UInt8) : String :=
  let c := Char.ofNat byte.toNat
  if 0x80 ≤ byte then "\\x" ++ String.ofList (Nat.toDigits 16 byte.toNat)
  else if isSpecial c then "\\" ++ c.toString
  else c.toString

def rangeText (range : UInt8 × UInt8) : String :=
  if range.1 = range.2 then byteText range.1 else byteText range.1 ++ "-" ++ byteText range.2

mutual

def Token.expression : Token → Expression
  | .literal c =>
    let bytes := String.utf8EncodeChar c
    ⟨String.join (bytes.map byteText), bytes.length, 0⟩
  | .anyByte => ⟨"[^/]", 1, 1⟩
  | .anyName => ⟨"[^/]*", 1, 2⟩
  | .leadingDirectories => ⟨"(?:/?|.*/)", 1, 4⟩
  | .innerDirectories => ⟨"(?:/|/.*/)", 1, 4⟩
  | .everythingBelow => ⟨"/.*", 2, 1⟩
  | .set negated ranges =>
    let text := String.join (ranges.map rangeText)
    ⟨(if negated then "[^" else "[") ++ text ++ "]", 1, if ranges.length ≤ 1 then 1 else 2⟩
  | .alternatives branches => .group (branchExpressions branches)

def branchExpressions : List (List Token) → List Expression
  | [] => []
  | branch :: branches => sequenceExpression branch :: branchExpressions branches

def sequenceExpression : List Token → Expression
  | [] => .empty
  | token :: tokens => token.expression.append (sequenceExpression tokens)

end

def levelLimit : Nat := 250

/-- Whether the expression for a whole pattern has too many levels. The marks of its beginning and its
end make it a sequence. -/
def isTooDeep (pattern : List Token) : Bool :=
  levelLimit < (sequenceExpression pattern).depth + 1

def expressionText (pattern : List Token) : String :=
  "(?-u)^" ++ (sequenceExpression pattern).text ++ "$"

inductive ListFault where
  /-- A pattern that asks for an extension is nested too deep. -/
  | pattern (text : String)
  /-- The pattern at a place among those that ask for nothing is nested too deep. -/
  | place (index : Nat)
deriving DecidableEq, Repr

def ListFault.words : ListFault → String
  | .pattern text => s!"error parsing glob '{text}': error parsing pattern 0"
  | .place index => s!"error parsing pattern {index}"

def listFault? (patterns : List (List Token)) : Option ListFault :=
  let ofKind (kind : Comparison) := patterns.filter (comparison · = kind)
  match (ofKind .extension).find? isTooDeep with
  | some pattern => some (.pattern (expressionText pattern))
  | none => ((ofKind .expression).findIdx? isTooDeep).map .place

end SourceDocs.Ignore
