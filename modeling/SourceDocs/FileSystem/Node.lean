import SourceDocs.FileSystem.Error
import SourceDocs.Path.Basic

/-!
Trees of files and directories. A directory lists its entries by name; walking a tree visits a
directory before its entries. It skips everything below an entry that is turned away, and below a
directory whose path is refused.
-/

namespace SourceDocs

inductive Node where
  | file (content : ByteArray)
  | dir (entries : List (Text × Node))

namespace Node

def emptyDir : Node := .dir []

def child? (node : Node) (name : Text) : Option Node :=
  match node with
  | file _ => none
  | dir entries => entries.lookup name

def find? (node : Node) : List Text → Option Node
  | [] => some node
  | name :: names =>
    match node.child? name with
    | none => none
    | some child => find? child names

def isDir : Node → Bool
  | file _ => false
  | dir _ => true

def setEntry (name : Text) (node : Node) : List (Text × Node) → List (Text × Node)
  | [] => [(name, node)]
  | (other, kept) :: rest =>
    if name = other then (name, node) :: rest
    else if name < other then (name, node) :: (other, kept) :: rest
    else (other, kept) :: setEntry name node rest

/-- The tree with a node put at the end of a list of names; directories on the way are made as
needed, and a file on the way is left as it is. -/
def put (node : Node) : List Text → Node → Node
  | [], _ => node
  | _ :: _, file content => file content
  | name :: names, dir entries =>
    dir (setEntry name (put node names ((entries.lookup name).getD emptyDir)) entries)

structure Visit where
  path : Text
  name : Text
  isDir : Bool
deriving DecidableEq, Repr

mutual

/-- The entries of a tree that a walk meets; below an entry that is turned away it meets none. -/
def walk (keep : Visit → Bool) (path name : Text) : Node → List Visit
  | file _ => if keep ⟨path, name, false⟩ then [⟨path, name, false⟩] else []
  | dir entries =>
    if keep ⟨path, name, true⟩ then
      ⟨path, name, true⟩ ::
        -- a directory is opened by its path, which may have become too long
        if (FileSystem.checkPath path).isOk then walkEntries keep path entries else []
    else []

def walkEntries (keep : Visit → Bool) (path : Text) : List (Text × Node) → List Visit
  | [] => []
  | (name, node) :: rest => walk keep (Path.join path name) name node ++ walkEntries keep path rest

end

mutual

def files (path : Text) : Node → List (Text × ByteArray)
  | file content => [(path, content)]
  | dir entries => filesBelow path entries

def filesBelow (path : Text) : List (Text × Node) → List (Text × ByteArray)
  | [] => []
  | (name, node) :: rest => files (Path.join path name) node ++ filesBelow path rest

end

end Node

end SourceDocs
