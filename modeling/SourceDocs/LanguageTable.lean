import SourceDocs.Text.Basic

/-!
Language tables: the comment conventions of one language as a user writes them down. Nothing is
checked here; `Grammar.compile` decides which tables make sense.
-/

namespace SourceDocs

/-- One block-comment style. A missing end is kept so that compiling can report it. -/
structure BlockEntry where
  start : Text
  stop : Option Text
  documentation : Bool
  continuation : Option Text
deriving DecidableEq, Repr

namespace BlockEntry

def plain (start stop : Text) : BlockEntry := ⟨start, some stop, false, none⟩

def doc (start stop : Text) : BlockEntry := ⟨start, some stop, true, none⟩

def withContinuation (entry : BlockEntry) (marker : Text) : BlockEntry :=
  { entry with continuation := some marker }

end BlockEntry

/-- The delimiters of one kind of string literal; a missing close stands for the opening one. -/
structure StringEntry where
  opening : Text
  closing : Option Text
  escape : Option Text
  multiline : Bool
deriving DecidableEq, Repr

namespace StringEntry

def delimitedBy (delimiter : Text) : StringEntry := ⟨delimiter, none, none, true⟩

def withClosing (entry : StringEntry) (closing : Text) : StringEntry :=
  { entry with closing := some closing }

def withEscape (entry : StringEntry) (escape : Text) : StringEntry :=
  { entry with escape := some escape }

def singleLine (entry : StringEntry) : StringEntry := { entry with multiline := false }

end StringEntry

structure LanguageTable where
  name : Text
  extensions : List Text
  highlight : Option Text
  lineComments : List Text
  docLineComments : List Text
  blockComments : List BlockEntry
  strings : List StringEntry
deriving DecidableEq, Repr

namespace LanguageTable

def named (name : Text) : LanguageTable := ⟨name, [], none, [], [], [], []⟩

def withExtensions (table : LanguageTable) (extensions : List Text) : LanguageTable :=
  { table with extensions }

def withHighlight (table : LanguageTable) (highlight : Text) : LanguageTable :=
  { table with highlight := some highlight }

def addLineComment (table : LanguageTable) (marker : Text) : LanguageTable :=
  { table with lineComments := table.lineComments ++ [marker] }

def addDocLineComment (table : LanguageTable) (marker : Text) : LanguageTable :=
  { table with docLineComments := table.docLineComments ++ [marker] }

def addBlockComment (table : LanguageTable) (entry : BlockEntry) : LanguageTable :=
  { table with blockComments := table.blockComments ++ [entry] }

def addString (table : LanguageTable) (entry : StringEntry) : LanguageTable :=
  { table with strings := table.strings ++ [entry] }

end LanguageTable

end SourceDocs
