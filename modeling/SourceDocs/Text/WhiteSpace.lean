import SourceDocs.Text.Basic

/-!
The white-space characters of Unicode (property `White_Space`) and trimming by them. A text is blank
when it has no other characters.
-/

namespace SourceDocs.Text

/-- The property `White_Space`: it leaves out the zero-width characters U+200B and U+FEFF. -/
def isSpace (c : Char) : Bool :=
  let n := c.toNat
  (0x09 ≤ n && n ≤ 0x0D) || n == 0x20 || n == 0x85 || n == 0xA0 || n == 0x1680 ||
  (0x2000 ≤ n && n ≤ 0x200A) || n == 0x2028 || n == 0x2029 || n == 0x202F || n == 0x205F ||
  n == 0x3000

def isBlank (source : Text) : Bool := source.all isSpace

def trimStart (source : Text) : Text := source.dropWhile isSpace

def trimEnd (source : Text) : Text := (source.reverse.dropWhile isSpace).reverse

/-- A space or a tab: what indents a line and pads a comment. -/
def isPadding (c : Char) : Bool := c == ' ' || c == '\t'

def dropPadding : Text → Text
  | [] => []
  | c :: rest => if isPadding c then rest else c :: rest

theorem isSpace_of_isPadding {c : Char} (padding : isPadding c = true) : isSpace c = true := by
  simp only [isPadding, Bool.or_eq_true, beq_iff_eq] at padding
  rcases padding with rfl | rfl <;> decide

end SourceDocs.Text
