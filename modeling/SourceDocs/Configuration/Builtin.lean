import SourceDocs.LanguageTable

/-!
The configuration that comes with the tool: the tables of ten languages and the TOML text that
declares them, which a new configuration file starts from.
-/

namespace SourceDocs.Configuration.Builtin

structure Entry where
  id : String
  table : LanguageTable
  remark : Option String
deriving Repr

def starred (start : String) (documentation : Bool) : BlockEntry :=
  ⟨start.toList, some "*/".toList, documentation, some "*".toList⟩

def quotedLine (delimiter : String) : StringEntry :=
  ((StringEntry.delimitedBy delimiter.toList).withEscape "\\".toList).singleLine

def quotedBlock (delimiter : String) : StringEntry :=
  (StringEntry.delimitedBy delimiter.toList).withEscape "\\".toList

def raw (delimiter : String) : StringEntry := StringEntry.delimitedBy delimiter.toList

def bracketed (opening closing : String) : StringEntry := (raw opening).withClosing closing.toList

/-- A language of the C family: line comments, and block comments whose documentation form has a
second star. -/
def curly (name : String) (extensions : List String) (strings : List StringEntry) :
    LanguageTable where
  name := name.toList
  extensions := extensions.map String.toList
  highlight := none
  lineComments := ["//".toList]
  docLineComments := []
  blockComments := [starred "/**" true, starred "/*" false]
  strings

def banged (table : LanguageTable) : LanguageTable :=
  { table with
    docLineComments := ["///".toList, "//!".toList]
    blockComments := [starred "/**" true, starred "/*!" true, starred "/*" false] }

/-- A language whose comments begin with a hash, and its documentation with two. -/
def hashed (name : String) (extensions : List String) (strings : List StringEntry) :
    LanguageTable where
  name := name.toList
  extensions := extensions.map String.toList
  highlight := none
  lineComments := ["#".toList]
  docLineComments := ["##".toList]
  blockComments := []
  strings

def entries : List Entry := [
  ⟨"c", curly "C" ["c", "h"] [quotedLine "\"", quotedLine "'"], none⟩,
  ⟨"cpp", banged (curly "C++" ["cpp", "cc", "cxx", "hpp", "hh", "hxx"]
    [quotedLine "\"", quotedLine "'"]), none⟩,
  ⟨"java", curly "Java" ["java"] [quotedBlock "\"\"\"", quotedLine "\"", quotedLine "'"], none⟩,
  ⟨"javascript", curly "JavaScript" ["js", "mjs", "cjs", "jsx"]
    [quotedLine "\"", quotedLine "'", quotedBlock "`"], none⟩,
  ⟨"typescript", curly "TypeScript" ["ts", "mts", "cts", "tsx"]
    [quotedLine "\"", quotedLine "'", quotedBlock "`"], none⟩,
  ⟨"go", curly "Go" ["go"] [quotedLine "\"", quotedLine "'", raw "`"], none⟩,
  ⟨"rust", banged (curly "Rust" ["rs"]
    [bracketed "r#\"" "\"#", bracketed "r\"" "\"", quotedBlock "\"", bracketed "'\"" "'",
      bracketed "'\\\"" "'"]),
    some "`'` alone would also open lifetimes, so only quote characters are listed."⟩,
  ⟨"css", { curly "CSS" ["css", "scss", "less"] [quotedLine "\"", quotedLine "'"] with
    lineComments := [] }, none⟩,
  ⟨"python", hashed "Python" ["py", "pyi"]
    [quotedBlock "\"\"\"", quotedBlock "'''", quotedLine "\"", quotedLine "'"], none⟩,
  ⟨"shell", hashed "Shell" ["sh", "bash", "zsh"]
    [(bracketed "$\x7b" "\x7d").singleLine, quotedBlock "\"", raw "'"],
    some ("Parameter expansions like `$\x7bpath##*/\x7d` contain `#`, " ++
      "keep them out of comments.")⟩]

def heading : List String := [
  "# Literate configuration file",
  "#",
  "# Each [languages.<id>] table describes the comment grammar of one language.",
  "# Block comment styles are tried in order: list the most specific start first.",
  "# Only styles marked `documentation = true` (and `doc_line_comments`) become",
  "# documentation; every other comment stays verbatim in the code."]

def writeText (text : Text) : String :=
  "\"" ++ String.ofList (text.flatMap fun c =>
    if c = '"' ∨ c = '\\' then ['\\', c] else [c]) ++ "\""

def writeTexts (texts : List Text) : String :=
  "[" ++ ", ".intercalate (texts.map writeText) ++ "]"

def writeFields (fields : List (String × String)) : String :=
  "\x7b " ++ ", ".intercalate (fields.map fun field => field.1 ++ " = " ++ field.2) ++ " \x7d"

def writeBlock (entry : BlockEntry) : String :=
  let given (name : String) (text : Option Text) : List (String × String) :=
    text.toList.map fun text => (name, writeText text)
  writeFields ([("start", writeText entry.start)] ++ given "end" entry.stop ++
    (if entry.documentation then [("documentation", "true")] else []) ++
    given "continuation" entry.continuation)

def writeLiteral (entry : StringEntry) : String :=
  let given (name : String) (text : Option Text) : List (String × String) :=
    text.toList.map fun text => (name, writeText text)
  writeFields ([("open", writeText entry.opening)] ++ given "close" entry.closing ++
    given "escape" entry.escape ++
    (if entry.multiline then [] else [("multiline", "false")]))

def writeItems (name : String) (items : List String) : List String :=
  if items.isEmpty then []
  else [name ++ " = ["] ++ items.map (fun item => "    " ++ item ++ ",") ++ ["]"]

def writeList (name : String) (texts : List Text) : List String :=
  if texts.isEmpty then [] else [name ++ " = " ++ writeTexts texts]

def writeEntry (entry : Entry) : List String :=
  ["", "[languages." ++ entry.id ++ "]", "name = " ++ writeText entry.table.name] ++
  writeList "extensions" entry.table.extensions ++
  writeList "line_comments" entry.table.lineComments ++
  writeList "doc_line_comments" entry.table.docLineComments ++
  writeItems "block_comments" (entry.table.blockComments.map writeBlock) ++
  (entry.remark.toList.map fun remark => "# " ++ remark) ++
  writeItems "strings" (entry.table.strings.map writeLiteral)

def template : String :=
  String.join ((heading ++ entries.flatMap writeEntry).map (· ++ "\n"))

end SourceDocs.Configuration.Builtin
