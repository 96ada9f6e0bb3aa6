import SourceDocs.Text.CaseData

/-!
Lowercase by the full mapping of Unicode. Two characters are special: a dotted capital I becomes two
characters, and a capital sigma becomes a final sigma where it ends a word.
-/

namespace SourceDocs.Text

def inRanges (ranges : List (Nat × Nat)) (c : Char) : Bool :=
  ranges.any fun range => range.1 ≤ c.toNat && c.toNat ≤ range.2

def isCased (c : Char) : Bool := inRanges casedRanges c

/-- Whether a character is skipped when the neighbours of a sigma are looked up. -/
def isCaseIgnorable (c : Char) : Bool := inRanges caseIgnorableRanges c

def lowerChar (c : Char) : Text :=
  if c.toNat < 0x80 then [c.toLower]
  else if c.toNat = 0x130 then ['i', Char.ofNat 0x307]
  else match lowercaseRanges.find? (·.holds c.toNat) with
    | some range => [Char.ofNat (c.toNat + range.shift).toNat]
    | none => [c]

def meetsCased (neighbours : Text) : Bool :=
  match neighbours.dropWhile isCaseIgnorable with
  | [] => false
  | c :: _ => isCased c

/-- Lowercases a text after the characters `seen`, the nearest first. -/
def lowerAfter : Text → Text → Text
  | _, [] => []
  | seen, c :: rest =>
    let lowered :=
      if c.toNat = 0x3A3 then
        if meetsCased seen && !meetsCased rest then [Char.ofNat 0x3C2] else [Char.ofNat 0x3C3]
      else lowerChar c
    lowered ++ lowerAfter (c :: seen) rest

def lowercase (source : Text) : Text := lowerAfter [] source

end SourceDocs.Text
