import SourceDocs.Toml.Reader

/-!
TOML documents: the table that the statements of a text build up. A header moves on to another table;
an assignment adds to the table of the last header. The whole text is read before the first statement
takes effect, so a text that cannot be read has no other fault.
-/

namespace SourceDocs.Toml

def orMalformed {α : Type} : Option α → Except Fault α
  | some result => .ok result
  | none => .error .malformed

/-- Refuses a key of too many parts; the last one is not in `path`. -/
def checkKey (path : List Text) : Except Fault Unit :=
  if path.length < maxDepth then .ok () else .error .longKey

mutual

def Expression.value : Expression → Except Fault Value
  | .string text => .ok (.string text)
  | .word written => orMalformed (scalar? written)
  | .array items => (values items).map .array
  | .table fields => (addFields [] fields).map (.table .inline)

def values : List Expression → Except Fault (List Value)
  | [] => .ok []
  | item :: items => do
    let first ← item.value
    let others ← values items
    return first :: others

def addFields (entries : Entries) : List (List Text × Text × Expression) → Except Fault Entries
  | [] => .ok entries
  | (path, key, expression) :: fields => do
    checkKey path
    let value ← expression.value
    addFields (← orMalformed (entries.assign key value path)) fields

end

structure Builder where
  root : Entries
  current : List Text
deriving Repr

def Builder.enter (builder : Builder) (make : Text → Entries → Option Entries) (path : List Text) :
    Except Fault Builder := do
  checkKey path.dropLast
  let root ← orMalformed (builder.root.descend (make (path.getLastD [])) path.dropLast)
  return ⟨root, path⟩

def Builder.add (builder : Builder) : Statement → Except Fault Builder
  | .table path => builder.enter Entries.openTable path
  | .row path => builder.enter Entries.openRow path
  | .assign path key expression => do
    checkKey path
    let value ← expression.value
    let root ← orMalformed (builder.root.descend (Entries.assign key value path) builder.current)
    return ⟨root, builder.current⟩

/-- The root table of a document; a byte-order mark in front is passed over. -/
def parse (source : Text) : Except Fault Entries := do
  let content := ([Char.ofNat 0xFEFF].isPrefixOf? source).getD source
  let built ← (← orMalformed (statements content)).foldlM Builder.add ⟨[], []⟩
  return built.root

end SourceDocs.Toml
