import SourceDocs.Text.Basic

/-!
The ways in which an operation on files can fail, and the paths that are refused whatever there is.
-/

namespace SourceDocs

inductive FileError where
  | notFound
  | alreadyExists
  | notDirectory
  | isDirectory
  | nameTooLong
  | nulInPath
  | notText
deriving DecidableEq, Repr

def FileError.message : FileError → String
  | .notFound => "No such file or directory (os error 2)"
  | .alreadyExists => "File exists (os error 17)"
  | .notDirectory => "Not a directory (os error 20)"
  | .isDirectory => "Is a directory (os error 21)"
  | .nameTooLong => "File name too long (os error 36)"
  | .nulInPath => "file name contained an unexpected NUL byte"
  | .notText => "stream did not contain valid UTF-8"

namespace FileSystem

def nameLimit : Nat := 255

def pathLimit : Nat := 4095

/-- Refuses a path that cannot be followed, whatever there is. -/
def checkPath (path : Text) : Except FileError Unit :=
  if path.contains (Char.ofNat 0) then .error .nulInPath
  else if path.isEmpty then .error .notFound
  else if pathLimit < Text.bytes path then .error .nameTooLong
  else .ok ()

end FileSystem

end SourceDocs
