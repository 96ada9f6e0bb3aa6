import SourceDocs.Text.Utf8

/-!
The patterns of ignore files. They are compared with the bytes of a path: `?` and a bracketed set
stand for one byte, `*` for bytes other than a slash, and `**` as a whole component for any number of
directories. Braces hold alternatives. An opening bracket that is never closed stands for itself.
-/

namespace SourceDocs.Ignore

inductive PatternFault where
  | invalidRange (first last : Char)
  | unopenedAlternatives
  | unclosedAlternatives
  | danglingEscape
deriving DecidableEq, Repr

def PatternFault.words : PatternFault → String
  | .invalidRange first last =>
    "invalid range; '" ++ first.toString ++ "' > '" ++ last.toString ++ "'"
  | .unopenedAlternatives =>
    "unopened alternate group; missing '\x7b' (maybe escape '\x7d' with '[\x7d]'?)"
  | .unclosedAlternatives =>
    "unclosed alternate group; missing '\x7d' (maybe escape '\x7b' with '[\x7b]'?)"
  | .danglingEscape => "dangling '\\'"

inductive Token where
  | literal (c : Char)
  | anyByte
  | anyName
  | leadingDirectories
  | innerDirectories
  | everythingBelow
  | set (negated : Bool) (ranges : List (UInt8 × UInt8))
  | alternatives (branches : List (List Token))
deriving Repr

/-- The byte ranges of a set. An end of a range outside ASCII counts as its single bytes, the
neighbours of the dash making the range. -/
def byteRanges (first last : Char) : List (UInt8 × UInt8) :=
  let single (byte : UInt8) : UInt8 × UInt8 := (byte, byte)
  let firsts := String.utf8EncodeChar first
  if first = last then firsts.map single
  else
    let lasts := String.utf8EncodeChar last
    firsts.dropLast.map single ++ [(firsts.getLastD 0, lasts.headD 0)] ++ lasts.tail.map single

/-- The characters of a set, as ranges, up to the closing bracket. `latest` is the last range read
and `dash` tells whether a dash follows it; `none` means that the set is not closed. -/
def setRanges : Option (Char × Char) → Bool → Text →
    Except PatternFault (Option (List (Char × Char) × Text))
  | _, _, [] => .ok none
  | none, _, c :: rest => setRanges (some (c, c)) false rest
  | some latest, dash, ']' :: rest =>
    .ok (some (latest :: if dash then [('-', '-')] else [], rest))
  | some (first, last), false, '-' :: rest => setRanges (some (first, last)) true rest
  | some (first, _), true, c :: rest =>
    if c < first then .error (.invalidRange first c)
    else setRanges (some (first, c)) false rest
  | some (first, last), false, c :: rest => do
    match ← setRanges (some (c, c)) false rest with
    | none => return none
    | some (ranges, after) => return some ((first, last) :: ranges, after)

def set? (rest : Text) : Except PatternFault (Option (Token × Text)) := do
  let (negated, inner) := match rest with
    | '!' :: more => (true, more)
    | '^' :: more => (true, more)
    | more => (false, more)
  match ← setRanges none false inner with
  | none => return none
  | some (ranges, after) =>
    return some (.set negated (ranges.flatMap fun range => byteRanges range.1 range.2), after)

structure Group where
  before : List Token
  branches : List (List Token)

structure Reading where
  /-- The pieces of the innermost open alternative, the last one first. -/
  current : List Token
  /-- The open groups, the innermost first. -/
  groups : List Group
  before : Option Char
  unclosed : Bool

namespace Reading

def push (token : Token) (c : Char) (reading : Reading) : Reading :=
  { reading with current := token :: reading.current, before := some c }

/-- Appends the piece for two stars between directories in place of the slash before them. -/
def pushDirectories (token : Token) (c : Char) (reading : Reading) : Reading :=
  match reading.current with
  | .leadingDirectories :: _ => { reading with before := some c }
  | .everythingBelow :: _ => { reading with before := some c }
  | _ :: earlier => { reading with current := token :: earlier, before := some c }
  | [] => { reading with current := [token], before := some c }

def openGroup (reading : Reading) : Reading :=
  { reading with
    current := []
    groups := ⟨reading.current, []⟩ :: reading.groups
    before := some '\x7b' }

def comma (reading : Reading) : Reading :=
  match reading.groups with
  | [] => reading.push (.literal ',') ','
  | group :: groups =>
    { reading with
      current := []
      groups := ⟨group.before, group.branches ++ [reading.current.reverse]⟩ :: groups
      before := some ',' }

def closeGroup (reading : Reading) : Except PatternFault Reading :=
  match reading.groups with
  | [] => .error .unopenedAlternatives
  | group :: groups =>
    .ok { reading with
      current := .alternatives (group.branches ++ [reading.current.reverse]) :: group.before
      groups
      before := some '\x7d' }

def atComponentStart (reading : Reading) : Bool :=
  reading.before == some '/' ||
  (!reading.groups.isEmpty && (reading.before == some ',' || reading.before == some '\x7b'))

/-- Takes two stars; `rest` follows them. The result tells how many characters of `rest` are used. -/
def twoStars (rest : Text) (reading : Reading) : Reading × Nat :=
  let plainly : Reading × Nat := ((reading.push .anyName '*').push .anyName '*', 0)
  if reading.current.isEmpty then
    match rest with
    | [] => (reading.push .leadingDirectories '*', 0)
    | '/' :: _ => (reading.push .leadingDirectories '/', 1)
    | _ :: _ => plainly
  else if !reading.atComponentStart then plainly
  else match rest with
    | [] => (reading.pushDirectories .everythingBelow '*', 0)
    | '/' :: _ => (reading.pushDirectories .innerDirectories '/', 1)
    | c :: _ =>
      if !reading.groups.isEmpty && (c == ',' || c == '\x7d') then
        (reading.pushDirectories .everythingBelow '*', 0)
      else plainly

end Reading

def readFrom : Nat → Text → Reading → Except PatternFault Reading
  | 0, _, reading => .ok reading
  | _ + 1, [], reading => .ok reading
  | fuel + 1, c :: rest, reading =>
    match c with
    | '?' => readFrom fuel rest (reading.push .anyByte c)
    | '*' =>
      match rest with
      | '*' :: more =>
        let (reading, used) := reading.twoStars more
        readFrom fuel (more.drop used) reading
      | _ => readFrom fuel rest (reading.push .anyName c)
    | '[' =>
      if reading.unclosed then readFrom fuel rest (reading.push (.literal c) c)
      else do
        match ← set? rest with
        | some (token, after) => readFrom fuel after (reading.push token ']')
        | none => readFrom fuel rest { reading.push (.literal c) c with unclosed := true }
    | '\x7b' => readFrom fuel rest reading.openGroup
    | '\x7d' => do readFrom fuel rest (← reading.closeGroup)
    | ',' => readFrom fuel rest reading.comma
    | '\\' =>
      match rest with
      | [] => .error .danglingEscape
      | escaped :: more => readFrom fuel more (reading.push (.literal escaped) escaped)
    | _ => readFrom fuel rest (reading.push (.literal c) c)

def parse (pattern : Text) : Except PatternFault (List Token) := do
  let reading ← readFrom pattern.length pattern ⟨[], [], none, false⟩
  if reading.groups.isEmpty then return reading.current.reverse
  else throw .unclosedAlternatives

end SourceDocs.Ignore
