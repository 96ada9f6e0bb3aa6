/-!
Texts as lists of characters. Sizes and offsets are counted in the bytes of the UTF-8 encoding, so a
cut of a text at an offset is exact only where the offset falls between two characters.
-/

namespace SourceDocs

abbrev Text := List Char

namespace Text

def bytes : Text → Nat
  | [] => 0
  | c :: rest => c.utf8Size + bytes rest

@[simp] theorem bytes_nil : bytes [] = 0 := rfl

@[simp] theorem bytes_cons (c : Char) (rest : Text) :
    bytes (c :: rest) = c.utf8Size + bytes rest := rfl

@[simp] theorem bytes_append (first second : Text) :
    bytes (first ++ second) = bytes first + bytes second := by
  induction first with
  | nil => simp
  | cons c rest ih => simp [ih, Nat.add_assoc]

/-- The longest beginning of a text that fits into `size` bytes. -/
def takeBytes : Nat → Text → Text
  | _, [] => []
  | size, c :: rest => if c.utf8Size ≤ size then c :: takeBytes (size - c.utf8Size) rest else []

def dropBytes : Nat → Text → Text
  | _, [] => []
  | size, c :: rest => if c.utf8Size ≤ size then dropBytes (size - c.utf8Size) rest else c :: rest

def slice (source : Text) (start stop : Nat) : Text :=
  takeBytes (stop - start) (dropBytes start source)

/-- Cuts a text at a byte offset; `none` past the end and inside a character. -/
def splitAt? (offset : Nat) (source : Text) : Option (Text × Text) :=
  let before := takeBytes offset source
  if bytes before = offset then some (before, dropBytes offset source) else none

def slice? (source : Text) (start stop : Nat) : Option Text := do
  let (front, _) ← splitAt? stop source
  let (_, inner) ← splitAt? start front
  return inner

def lines (source : Text) : List Text := source.splitOn '\n'

def joinLines (pieces : List Text) : Text := ['\n'].intercalate pieces

def lastLine (source : Text) : Text := (source.reverse.takeWhile (· ≠ '\n')).reverse

def lastLineStart (source : Text) : Nat := bytes (source.reverse.dropWhile (· ≠ '\n')).reverse

def dropReturn (line : Text) : Text := (['\r'].isSuffixOf? line).getD line

/-- Whether a text begins with a line break, `\n` or `\r\n`. -/
def atLineBreak : Text → Bool
  | '\n' :: _ => true
  | '\r' :: '\n' :: _ => true
  | _ => false

def lineLength : Text → Nat
  | [] => 0
  | c :: rest => if atLineBreak (c :: rest) then 0 else lineLength rest + 1

def lengthThrough? (needle : Text) : Text → Option Nat
  | [] => if needle.isEmpty then some 0 else none
  | c :: rest =>
    if needle.isPrefixOf (c :: rest) then some needle.length
    else (lengthThrough? needle rest).map (· + 1)

end Text

end SourceDocs
