import SourceDocs.FileSystem.Error
import SourceDocs.FileSystem.Node
import SourceDocs.Text.Utf8

/-!
File systems: a tree with a working directory. Paths are followed part by part: each part but the
last has to be a directory, two dots lead back, and a slash at the end asks for a directory.
-/

namespace SourceDocs

structure FileSystem where
  root : Node
  working : List Text
  configurationHome : Option Text

namespace FileSystem

def workingPath (fs : FileSystem) : Text := '/' :: ['/'].intercalate fs.working

/-- Follows parts from a place, given by the names that lead to it, the last one first. -/
def follow (root : Node) : List Text → List Text → Except FileError (List Text)
  | here, [] => .ok here
  | here, part :: parts =>
    match root.find? here.reverse with
    | none => .error .notFound
    | some (.file _) => .error .notDirectory
    | some (.dir _) =>
      if part = [] ∨ part = ['.'] then follow root here parts
      else if part = ['.', '.'] then follow root here.tail parts
      else if nameLimit < Text.bytes part then .error .nameTooLong
      else follow root (part :: here) parts

def origin (fs : FileSystem) (path : Text) : List Text :=
  if Path.isAbsolute path then [] else fs.working.reverse

/-- The place that a path leads to; there need not be anything there. -/
def locate (fs : FileSystem) (path : Text) : Except FileError (List Text) :=
  (checkPath path).bind fun _ =>
    (follow fs.root (fs.origin path) (path.splitOn '/')).map List.reverse

def get (fs : FileSystem) (path : Text) : Except FileError Node :=
  (fs.locate path).bind fun place =>
    match fs.root.find? place with
    | some node => .ok node
    | none => .error .notFound

def fileExists (fs : FileSystem) (path : Text) : Bool := (fs.get path).isOk

def isDir (fs : FileSystem) (path : Text) : Bool :=
  match fs.get path with
  | .ok (.dir _) => true
  | _ => false

def isFile (fs : FileSystem) (path : Text) : Bool :=
  match fs.get path with
  | .ok (.file _) => true
  | _ => false

def readBytes (fs : FileSystem) (path : Text) : Except FileError ByteArray :=
  match fs.get path with
  | .ok (.file content) => .ok content
  | .ok (.dir _) => .error .isDirectory
  | .error error => .error error

def readText (fs : FileSystem) (path : Text) : Except FileError Text :=
  (fs.readBytes path).bind fun content =>
    match Text.decode? content with
    | some text => .ok text
    | none => .error .notText

def entries? (fs : FileSystem) (path : Text) : Option (List (Text × Node)) :=
  match fs.get path with
  | .ok (.dir entries) => some entries
  | _ => none

def putAt (fs : FileSystem) (place : List Text) (node : Node) : FileSystem :=
  { fs with root := Node.put node place fs.root }

def withoutEndSlashes (path : Text) : Text := (path.reverse.dropWhile (· = '/')).reverse

/-- The place of the parent directory that a path names, and the path's last part; slashes at the
end do not count. -/
def locateParent (fs : FileSystem) (path : Text) : Except FileError (List Text × Text) :=
  (checkPath path).bind fun _ =>
    let parts := (withoutEndSlashes path).splitOn '/'
    match follow fs.root (fs.origin path) parts.dropLast with
    | .error error => .error error
    | .ok here =>
      match fs.root.find? here.reverse with
      | none => .error .notFound
      | some (.file _) => .error .notDirectory
      | some (.dir _) => .ok (here.reverse, parts.getLastD [])

def isSelfReference (part : Text) : Bool := part == [] || part == ['.'] || part == ['.', '.']

def makeDir (fs : FileSystem) (path : Text) : Except FileError FileSystem :=
  match fs.locateParent path with
  | .error error => .error error
  | .ok (parent, name) =>
    if isSelfReference name || (fs.root.find? (parent ++ [name])).isSome then
      .error .alreadyExists
    else if nameLimit < Text.bytes name then .error .nameTooLong
    else .ok (fs.putAt (parent ++ [name]) .emptyDir)

def makeDirs (fs : FileSystem) : List Text → Except FileError FileSystem
  | [] => .ok fs
  | path :: parents =>
    if path.isEmpty then .ok fs
    else match fs.makeDir path with
      | .ok made => .ok made
      | .error .notFound =>
        match makeDirs fs parents with
        | .error error => .error error
        | .ok above =>
          match above.makeDir path with
          | .ok made => .ok made
          | .error error => if above.isDir path then .ok above else .error error
      | .error error => if fs.isDir path then .ok fs else .error error

def makeDirAll (fs : FileSystem) (path : Text) : Except FileError FileSystem :=
  fs.makeDirs (Path.ancestors path)

/-- Writes a file, in place of the one that is there. A slash at the end names a directory, which
cannot be written to. -/
def write (fs : FileSystem) (path : Text) (content : ByteArray) : Except FileError FileSystem :=
  match fs.locateParent path with
  | .error error => .error error
  | .ok (parent, name) =>
    if isSelfReference name || path.getLast? == some '/' then .error .isDirectory
    else if nameLimit < Text.bytes name then .error .nameTooLong
    else match fs.root.find? (parent ++ [name]) with
      | some (.dir _) => .error .isDirectory
      | _ => .ok (fs.putAt (parent ++ [name]) (.file content))

end FileSystem

end SourceDocs
