import SourceDocs.Toml.Basic
import SourceDocs.Toml.Quoted

/-!
Bare TOML scalars: booleans, numbers, dates and times. A scalar is recognized as a whole, so a word
that fits none of the forms is an error of the document.
-/

namespace SourceDocs.Toml

def isDigitRun (isDigit : Char → Bool) : Text → Bool
  | [] => false
  | [c] => isDigit c
  | c :: '_' :: rest => isDigit c && isDigitRun isDigit rest
  | c :: rest => isDigit c && isDigitRun isDigit rest

def decimal (digits : Text) : Nat :=
  digits.foldl (fun number c => if c = '_' then number else 10 * number + (c.toNat - 48)) 0

def basedNumber? (mark : Char) (digits : Text) : Option Nat :=
  let base? : Option (Nat × (Char → Bool)) := match mark with
    | 'x' => some (16, fun c => (hexDigit? c).isSome)
    | 'o' => some (8, fun c => '0' ≤ c && c ≤ '7')
    | 'b' => some (2, fun c => c == '0' || c == '1')
    | _ => none
  base?.bind fun (base, isDigit) =>
    if isDigitRun isDigit digits then
      some (digits.foldl (fun number c =>
        if c = '_' then number else base * number + (hexDigit? c).getD 0) 0)
    else none

def isWhole (digits : Text) : Bool :=
  isDigitRun Char.isDigit digits && (digits.length == 1 || digits.head? != some '0')

def unsigned : Text → Text
  | '+' :: rest => rest
  | '-' :: rest => rest
  | rest => rest

/-- A whole number that fits into 128 bits. -/
def integer? (word : Text) : Option Int :=
  let limit? (value : Int) : Option Int :=
    if -Int.ofNat (Nat.pow 2 127) ≤ value ∧ value < Int.ofNat (Nat.pow 2 128) then some value
    else none
  match word with
  | '0' :: mark :: rest =>
    (basedNumber? mark rest).bind fun n => limit? (Int.ofNat n)
  | '-' :: rest => if isWhole rest then limit? (-(Int.ofNat (decimal rest))) else none
  | _ =>
    let digits := unsigned word
    if isWhole digits then limit? (Int.ofNat (decimal digits)) else none

def isExponent : Text → Bool
  | mark :: rest => (mark == 'e' || mark == 'E') && isDigitRun Char.isDigit (unsigned rest)
  | [] => false

def isFloat (word : Text) : Bool :=
  let body := unsigned word
  if body = "inf".toList || body = "nan".toList then true
  else
    let inWhole (c : Char) : Bool := c.isDigit || c == '_'
    let rest := body.dropWhile inWhole
    isWhole (body.takeWhile inWhole) &&
    match rest with
    | '.' :: fraction =>
      let digits := fraction.takeWhile inWhole
      let exponent := fraction.dropWhile inWhole
      isDigitRun Char.isDigit digits && (exponent.isEmpty || isExponent exponent)
    | _ => isExponent rest

/-- Whether `digits * 10 ^ exponent` rounds to a double that is not infinite. Far from the limit the
number of digits decides. -/
def isFinite (digits : Nat) (exponent : Int) : Bool :=
  let magnitude : Int := (Nat.toDigits 10 digits).length + exponent
  let limit := (Nat.pow 2 54 - 1) * Nat.pow 2 970
  if digits = 0 ∨ magnitude < 300 then true
  else if 400 < magnitude then false
  else if 0 ≤ exponent then digits * Nat.pow 10 exponent.toNat < limit
  else digits < limit * Nat.pow 10 (-exponent).toNat

def fitsDouble (word : Text) : Bool :=
  let body := (unsigned word).filter (· ≠ '_')
  let significand := body.takeWhile fun c => c.isDigit || c == '.'
  let fraction := (significand.dropWhile (· ≠ '.')).drop 1
  let written := (body.dropWhile fun c => c.isDigit || c == '.').drop 1
  let exponent : Int := match written with
    | '-' :: digits => -(Int.ofNat (decimal digits))
    | signed => Int.ofNat (decimal (unsigned signed))
  isFinite (decimal (significand.filter (· ≠ '.'))) (exponent - fraction.length)

def isField (low high : Nat) (digits : Text) : Bool :=
  digits.all Char.isDigit && low ≤ decimal digits && decimal digits ≤ high

def lastDay (year month : Nat) : Nat :=
  if month = 2 then
    if year % 4 = 0 ∧ (year % 100 ≠ 0 ∨ year % 400 = 0) then 29 else 28
  else if month = 4 ∨ month = 6 ∨ month = 9 ∨ month = 11 then 30
  else 31

def date? : Text → Option Text
  | y1 :: y2 :: y3 :: y4 :: '-' :: m1 :: m2 :: '-' :: d1 :: d2 :: rest =>
    if isField 0 9999 [y1, y2, y3, y4] && isField 1 12 [m1, m2] &&
        isField 1 (lastDay (decimal [y1, y2, y3, y4]) (decimal [m1, m2])) [d1, d2] then
      some rest
    else none
  | _ => none

def afterFraction? : Text → Option Text
  | '.' :: rest =>
    if (rest.takeWhile Char.isDigit).isEmpty then none else some (rest.dropWhile Char.isDigit)
  | rest => some rest

def time? : Text → Option Text
  | h1 :: h2 :: ':' :: m1 :: m2 :: rest =>
    if isField 0 23 [h1, h2] && isField 0 59 [m1, m2] then
      match rest with
      | ':' :: s1 :: s2 :: rest =>
        if isField 0 60 [s1, s2] then afterFraction? rest else none
      | _ => some rest
    else none
  | _ => none

def isOffset : Text → Bool
  | ['Z'] => true
  | ['z'] => true
  | [sign, h1, h2, ':', m1, m2] =>
    (sign == '+' || sign == '-') && isField 0 23 [h1, h2] && isField 0 59 [m1, m2]
  | _ => false

def isDateTime (word : Text) : Bool :=
  match date? word with
  | none => time? word == some []
  | some [] => true
  | some (separator :: rest) =>
    (separator == 'T' || separator == 't' || separator == ' ') &&
    match time? rest with
    | none => false
    | some offset => offset.isEmpty || isOffset offset

def scalar? (word : Text) : Option Value :=
  if word = "true".toList then some (.boolean true)
  else if word = "false".toList then some (.boolean false)
  else match integer? word with
    | some value => some (.integer value)
    | none =>
      if isFloat word then if fitsDouble word then some (.float word) else none
      else if isDateTime word then some (.dateTime word)
      else none

def isWordChar (c : Char) : Bool :=
  c.isAlphanum || c == '+' || c == '-' || c == '_' || c == '.' || c == ':'

/-- The bare word at the beginning of a text; a date takes the time after one blank with it. -/
def bareWord (rest : Text) : Text × Text :=
  let word := rest.takeWhile isWordChar
  let after := rest.dropWhile isWordChar
  match after with
  | ' ' :: c :: more =>
    if date? word == some [] && c.isDigit then
      (word ++ ' ' :: (c :: more).takeWhile isWordChar, (c :: more).dropWhile isWordChar)
    else (word, after)
  | _ => (word, after)

end SourceDocs.Toml
