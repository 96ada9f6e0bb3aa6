import SourceDocs.Text.Basic

/-!
The four forms of TOML strings: basic and literal, on one line or on several. A reader gets the text
after the opening quotes and gives the value with what follows the closing quotes.
-/

namespace SourceDocs.Toml

def hexDigit? (c : Char) : Option Nat :=
  if '0' ≤ c ∧ c ≤ '9' then some (c.toNat - '0'.toNat)
  else if 'a' ≤ c ∧ c ≤ 'f' then some (c.toNat - 'a'.toNat + 10)
  else if 'A' ≤ c ∧ c ≤ 'F' then some (c.toNat - 'A'.toNat + 10)
  else none

def hexNumber? : Nat → Text → Option Nat
  | number, [] => some number
  | number, c :: rest => (hexDigit? c).bind fun digit => hexNumber? (16 * number + digit) rest

/-- The character with the given hexadecimal code point; surrogates are no characters. -/
def codePoint? (digits : Text) : Option Char :=
  (hexNumber? 0 digits).bind fun n => if n.isValidChar then some (Char.ofNat n) else none

def simpleEscape? : Char → Option Char
  | 'b' => some '\x08'
  | 't' => some '\t'
  | 'n' => some '\n'
  | 'f' => some '\x0c'
  | 'r' => some '\r'
  | 'e' => some '\x1b'
  | '"' => some '"'
  | '\\' => some '\\'
  | _ => none

def isPlain (c : Char) : Bool := c == '\t' || (0x20 ≤ c.toNat && c.toNat != 0x7F)

def consRead (c : Char) (read : Option (Text × Text)) : Option (Text × Text) :=
  read.map fun found => (c :: found.1, found.2)

def basic : Text → Option (Text × Text)
  | [] => none
  | '"' :: rest => some ([], rest)
  | '\\' :: 'x' :: a :: b :: rest => (codePoint? [a, b]).bind fun c => consRead c (basic rest)
  | '\\' :: 'u' :: a :: b :: c :: d :: rest =>
    (codePoint? [a, b, c, d]).bind fun c => consRead c (basic rest)
  | '\\' :: 'U' :: a :: b :: c :: d :: e :: f :: g :: h :: rest =>
    (codePoint? [a, b, c, d, e, f, g, h]).bind fun c => consRead c (basic rest)
  | '\\' :: c :: rest => (simpleEscape? c).bind fun c => consRead c (basic rest)
  | c :: rest => if isPlain c && c != '\\' then consRead c (basic rest) else none

def literal : Text → Option (Text × Text)
  | [] => none
  | '\'' :: rest => some ([], rest)
  | c :: rest => if isPlain c then consRead c (literal rest) else none

def endsLine (rest : Text) : Bool :=
  match rest.dropWhile fun c => c == ' ' || c == '\t' with
  | '\n' :: _ => true
  | '\r' :: '\n' :: _ => true
  | _ => false

/-- A basic string on several lines. While `skipping`, blanks and line breaks after a backslash at
the end of a line are passed over. -/
def multilineBasic (skipping : Bool) : Text → Option (Text × Text)
  | [] => none
  | '"' :: '"' :: '"' :: '"' :: '"' :: rest => some (['"', '"'], rest)
  | '"' :: '"' :: '"' :: '"' :: rest => some (['"'], rest)
  | '"' :: '"' :: '"' :: rest => some ([], rest)
  | '\\' :: 'x' :: a :: b :: rest =>
    (codePoint? [a, b]).bind fun c => consRead c (multilineBasic false rest)
  | '\\' :: 'u' :: a :: b :: c :: d :: rest =>
    (codePoint? [a, b, c, d]).bind fun c => consRead c (multilineBasic false rest)
  | '\\' :: 'U' :: a :: b :: c :: d :: e :: f :: g :: h :: rest =>
    (codePoint? [a, b, c, d, e, f, g, h]).bind fun c => consRead c (multilineBasic false rest)
  | '\\' :: c :: rest =>
    if endsLine (c :: rest) then multilineBasic true rest
    else (simpleEscape? c).bind fun c => consRead c (multilineBasic false rest)
  | '\r' :: '\n' :: rest =>
    if skipping then multilineBasic true rest
    else consRead '\r' (consRead '\n' (multilineBasic false rest))
  | c :: rest =>
    if skipping && (c == ' ' || c == '\t' || c == '\n') then multilineBasic true rest
    else if c == '\n' || (isPlain c && c != '\\') then consRead c (multilineBasic false rest)
    else none

def multilineLiteral : Text → Option (Text × Text)
  | [] => none
  | '\'' :: '\'' :: '\'' :: '\'' :: '\'' :: rest => some (['\'', '\''], rest)
  | '\'' :: '\'' :: '\'' :: '\'' :: rest => some (['\''], rest)
  | '\'' :: '\'' :: '\'' :: rest => some ([], rest)
  | '\r' :: '\n' :: rest => consRead '\r' (consRead '\n' (multilineLiteral rest))
  | c :: rest => if c == '\n' || isPlain c then consRead c (multilineLiteral rest) else none

def dropLineBreak : Text → Text
  | '\n' :: rest => rest
  | '\r' :: '\n' :: rest => rest
  | rest => rest

def quoted : Text → Option (Text × Text)
  | '"' :: '"' :: '"' :: rest => multilineBasic false (dropLineBreak rest)
  | '\'' :: '\'' :: '\'' :: rest => multilineLiteral (dropLineBreak rest)
  | '"' :: rest => basic rest
  | '\'' :: rest => literal rest
  | _ => none

def quotedKey : Text → Option (Text × Text)
  | '"' :: rest => basic rest
  | '\'' :: rest => literal rest
  | _ => none

end SourceDocs.Toml
