import SourceDocs.Toml.Scalar

/-!
Reading TOML text: keys, expressions for values and the statements of a document. A reader takes
something off the front of a text and gives the rest; a loop over readers ends as soon as a reader
takes nothing. What is read is not checked for its meaning yet.
-/

namespace SourceDocs.Toml

abbrev Reader (α : Type) := Text → Option (α × Text)

/-- A value as it is written. The last part of a key stands apart from the parts before it. -/
inductive Expression where
  | string (text : Text)
  | word (written : Text)
  | array (items : List Expression)
  | table (fields : List (List Text × Text × Expression))
deriving Repr

inductive Statement where
  | table (path : List Text)
  | row (path : List Text)
  | assign (path : List Text) (key : Text) (value : Expression)
deriving Repr

def isBlankChar (c : Char) : Bool := c == ' ' || c == '\t'

def skipBlanks (rest : Text) : Text := rest.dropWhile isBlankChar

def skipComment : Text → Option Text
  | '#' :: rest =>
    let comment := rest.takeWhile (· ≠ '\n')
    let after := rest.dropWhile (· ≠ '\n')
    let body := if after.isEmpty then comment else Text.dropReturn comment
    if body.all isPlain then some after else none
  | rest => some rest

def skipSpace (rest : Text) : Option Text :=
  match skipBlanks rest with
  | [] => some []
  | c :: more =>
    let next? : Option Text :=
      if c = '\n' then some more
      else if c = '\r' then ['\n'].isPrefixOf? more
      else if c = '#' then skipComment (c :: more)
      else none
    match next? with
    | none => if c = '\r' ∨ c = '#' then none else some (c :: more)
    | some next => if next.length < rest.length then skipSpace next else none
termination_by rest.length

def isKeyChar (c : Char) : Bool := c.isAlphanum || c == '-' || c == '_'

def keyPart : Reader Text := fun rest =>
  match quotedKey rest with
  | some found => some found
  | none =>
    let bare := rest.takeWhile isKeyChar
    if bare.isEmpty then none else some (bare, rest.dropWhile isKeyChar)

def dottedKey (rest : Text) : Option ((List Text × Text) × Text) :=
  match keyPart (skipBlanks rest) with
  | none => none
  | some (part, after) =>
    match skipBlanks after with
    | '.' :: more =>
      if more.length < rest.length then
        (dottedKey more).map fun ((path, key), after) => ((part :: path, key), after)
      else none
    | after => some (([], part), after)
termination_by rest.length

def assignment (skip : Text → Option Text) (value : Reader Expression) :
    Reader (List Text × Text × Expression) := fun rest =>
  (dottedKey rest).bind fun ((path, key), after) =>
    match skip after with
    | some ('=' :: after) =>
      ((skip after).bind value).map fun (found, after) => ((path, key, found), after)
    | _ => none

/-- The items up to a closing bracket: a comma between two, and one more allowed at the end. -/
def items {α : Type} (item : Reader α) (closing : Char) (rest : Text) : Option (List α × Text) :=
  match skipSpace rest with
  | none => none
  | some start =>
    if start.head? = some closing then some ([], start.drop 1)
    else match item start with
      | none => none
      | some (found, after) =>
        match skipSpace after with
        | some (c :: more) =>
          if c = closing then some ([found], more)
          else if c = ',' ∧ more.length < rest.length then
            (items item closing more).map fun (others, after) => (found :: others, after)
          else none
        | _ => none
termination_by rest.length

def simple : Reader Expression := fun rest =>
  if rest.head? = some '"' ∨ rest.head? = some '\'' then
    (quoted rest).map fun (text, after) => (.string text, after)
  else
    let (word, after) := bareWord rest
    if word.isEmpty then none else some (.word word, after)

/-- An expression with at most `depth` brackets open at once. Inside braces a line break may stand
wherever a blank may, except within a key. -/
def expression : Nat → Reader Expression
  | 0, rest => simple rest
  | depth + 1, rest =>
    match rest with
    | '[' :: more =>
      (items (expression depth) ']' more).map fun (found, after) => (.array found, after)
    | '\x7b' :: more =>
      (items (assignment skipSpace (expression depth)) '\x7d' more).map fun (fields, after) =>
        (.table fields, after)
    | _ => simple rest

def closeHeader (closing : Text) (statement : Statement) (rest : Text) :
    Option (Statement × Text) :=
  (closing.isPrefixOf? rest).map (statement, ·)

def statement : Reader Statement := fun rest =>
  match rest with
  | '[' :: '[' :: more =>
    (dottedKey more).bind fun ((path, key), after) =>
      closeHeader [']', ']'] (.row (path ++ [key])) after
  | '[' :: more =>
    (dottedKey more).bind fun ((path, key), after) =>
      closeHeader [']'] (.table (path ++ [key])) after
  | _ =>
    (assignment (fun rest => some (skipBlanks rest)) (expression maxDepth) rest).map
      fun ((path, key, found), after) => (.assign path key found, after)

/-- Ends a line: blanks, a comment and the line break; the end of the text ends a line too. -/
def endLine (rest : Text) : Option Text :=
  match skipComment (skipBlanks rest) with
  | some [] => some []
  | some ('\n' :: after) => some after
  | some ('\r' :: '\n' :: after) => some after
  | _ => none

def statements (rest : Text) : Option (List Statement) :=
  match skipBlanks rest with
  | [] => some []
  | c :: more =>
    let blank := c = '#' ∨ c = '\n' ∨ c = '\r'
    let read? : Option (List Statement × Text) :=
      if blank then (endLine (c :: more)).map ([], ·)
      else (statement (c :: more)).bind fun (found, after) => (endLine after).map ([found], ·)
    match read? with
    | none => none
    | some (found, after) =>
      if after.length < rest.length then (statements after).map (found ++ ·) else none
termination_by rest.length

end SourceDocs.Toml
