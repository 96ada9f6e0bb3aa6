import SourceDocs.Configuration.Basic
import SourceDocs.Toml.Document

/-!
Reading configurations from TOML. A record may be written as a table, or as an array of its fields in
order; in an array only fields with a default value may be left out, at the end. Unknown fields are
passed over.
-/

namespace SourceDocs.Configuration

open Toml

/-- The fields of a record, and whether they are given by position. -/
structure Fields where
  positional : Bool
  entries : Entries

def fields? (names : List String) : Value → Option Fields
  | .table _ entries => some ⟨false, entries⟩
  | .array items => some ⟨true, (names.map String.toList).zip items⟩
  | .tables rows => some ⟨true, (names.map String.toList).zip (rows.map (.table .header))⟩
  | _ => none

def text? : Value → Option Text
  | .string text => some text
  | _ => none

def boolean? : Value → Option Bool
  | .boolean value => some value
  | _ => none

def list? {α : Type} (item? : Value → Option α) : Value → Option (List α)
  | .array items => items.mapM item?
  | .tables rows => (rows.map (.table .header)).mapM item?
  | _ => none

namespace Fields

variable {α : Type}

def required (fields : Fields) (name : String) (read? : Value → Option α) : Option α :=
  (fields.entries.get? name.toList).bind read?

/-- A field that may be left out of a table. -/
def optional (fields : Fields) (name : String) (read? : Value → Option α) : Option (Option α) :=
  match fields.entries.get? name.toList with
  | some value => (read? value).map some
  | none => if fields.positional then none else some none

def withDefault (fields : Fields) (name : String) (read? : Value → Option α) (missing : α) :
    Option α :=
  match fields.entries.get? name.toList with
  | some value => read? value
  | none => some missing

end Fields

def blockEntry? (value : Value) : Option BlockEntry := do
  let fields ← fields? ["start", "end", "documentation", "continuation"] value
  return {
    start := ← fields.required "start" text?
    stop := ← fields.optional "end" text?
    documentation := ← fields.withDefault "documentation" boolean? false
    continuation := ← fields.optional "continuation" text? }

def stringEntry? (value : Value) : Option StringEntry := do
  let fields ← fields? ["open", "close", "escape", "multiline"] value
  return {
    opening := ← fields.required "open" text?
    closing := ← fields.optional "close" text?
    escape := ← fields.optional "escape" text?
    multiline := ← fields.withDefault "multiline" boolean? true }

def languageTable? (value : Value) : Option LanguageTable := do
  let fields ← fields? ["name", "extensions", "highlight", "line_comments", "doc_line_comments",
    "block_comments", "strings"] value
  return {
    name := ← fields.required "name" text?
    extensions := ← fields.withDefault "extensions" (list? text?) []
    highlight := ← fields.optional "highlight" text?
    lineComments := ← fields.withDefault "line_comments" (list? text?) []
    docLineComments := ← fields.withDefault "doc_line_comments" (list? text?) []
    blockComments := ← fields.withDefault "block_comments" (list? blockEntry?) []
    strings := ← fields.withDefault "strings" (list? stringEntry?) [] }

def ofEntries? (entries : Entries) : Option Configuration :=
  match entries.get? "languages".toList with
  | none => some empty
  | some (.table _ languages) =>
    (languages.mapM fun entry => (languageTable? entry.2).map (entry.1, ·)).map
      fun tables => ⟨Dictionary.ofList tables⟩
  | some _ => none

/-- The configuration that a TOML text describes, not checked yet. -/
def decode (source : Text) : Except Fault Configuration := do
  orMalformed (ofEntries? (← Toml.parse source))

end SourceDocs.Configuration
