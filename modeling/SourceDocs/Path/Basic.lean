import SourceDocs.Text.Basic

/-!
Paths as texts with slashes, and the components that they are made of. Two texts are the same path
when their components are the same: empty parts and dots count for nothing, except for a dot at the
very beginning.
-/

namespace SourceDocs

inductive Component where
  | root
  | current
  | parent
  | normal (name : Text)
deriving DecidableEq, Repr

namespace Path

def separator : Char := '/'

def isAbsolute (path : Text) : Bool := path.head? == some separator

/-- The component that a part between separators stands for; `leading` holds for the first part. -/
def component? (leading : Bool) (part : Text) : Option Component :=
  match part with
  | [] => none
  | ['.'] => if leading then some .current else none
  | ['.', '.'] => some .parent
  | name => some (.normal name)

def prefixesFrom (leading : Bool) (before : Text) : List Text → List (Component × Text)
  | [] => []
  | part :: parts =>
    let upTo := before ++ part
    let further := prefixesFrom false (upTo ++ [separator]) parts
    match component? leading part with
    | none => further
    | some component => (component, upTo) :: further

def prefixes (path : Text) : List (Component × Text) :=
  let parts := path.splitOn separator
  if isAbsolute path then (.root, [separator]) :: prefixesFrom false [] parts
  else prefixesFrom true [] parts

def components (path : Text) : List Component := (prefixes path).map Prod.fst

def names (path : Text) : List Text :=
  (components path).filterMap fun
    | .normal name => some name
    | _ => none

/-- The path without its last component; `none` for the root and for the empty path. -/
def parent? (path : Text) : Option Text :=
  match (prefixes path).reverse with
  | [] => none
  | (.root, _) :: _ => none
  | [_] => some []
  | _ :: (_, before) :: _ => some before

def fileName? (path : Text) : Option Text :=
  match (components path).getLast? with
  | some (.normal name) => some name
  | _ => none

/-- Cuts a name at its last dot; a dot in front does not count. -/
def splitExtension (name : Text) : Text × Option Text :=
  let tail := (name.reverse.takeWhile (· ≠ '.')).reverse
  let stem := name.take (name.length - tail.length - 1)
  if tail.length = name.length || stem.isEmpty then (name, none) else (stem, some tail)

def extension? (path : Text) : Option Text :=
  (fileName? path).bind fun name => (splitExtension name).2

def join (directory path : Text) : Text :=
  if isAbsolute path then path
  else if directory.isEmpty || directory.getLast? == some separator then directory ++ path
  else directory ++ separator :: path

def ancestors (path : Text) : List Text :=
  let parts := prefixes path
  match parts.reverse with
  | [] => [path]
  | _ :: outer =>
    let above := outer.map Prod.snd
    path :: above ++ (if isAbsolute path then [] else [[]])

def ofNames (kept : List Text) : Text := kept.foldl join []

/-- Puts a name in the place of the one at the end of a path; a path that does not end with a name goes
on with it. -/
def withFileName (path name : Text) : Text :=
  join (if (fileName? path).isSome then (parent? path).getD path else path) name

/-- Where the rendering of a source file goes: the names of its path are kept below the directory,
and the extension is appended to the last one. -/
def output (directory source extension : Text) : Text :=
  let kept := ofNames (names source)
  let name := (fileName? kept).getD [] ++ '.' :: extension
  join directory (withFileName kept name)

end Path

namespace Component

def rank : Component → Nat
  | root => 0
  | current => 1
  | parent => 2
  | normal _ => 3

def lt : Component → Component → Bool
  | normal first, normal second => first < second
  | first, second => first.rank < second.rank

end Component

namespace Path

def componentsLe : List Component → List Component → Bool
  | [], _ => true
  | _ :: _, [] => false
  | first :: firsts, second :: seconds =>
    if first = second then componentsLe firsts seconds else first.lt second

def le (first second : Text) : Bool := componentsLe (components first) (components second)

def same (first second : Text) : Bool := components first == components second

end Path

end SourceDocs
