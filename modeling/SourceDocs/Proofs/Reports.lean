import SourceDocs.Json.Document
import SourceDocs.Proofs.JsonReading

/-!
Reading documents back from their reports. Fields are looked up by name, so nothing hangs on their
order. Main statement: the report of a document in either layout spells the same value, and that value
holds the path, the language, every segment and every diagnostic.
-/

namespace SourceDocs

namespace Json

def field? (name : String) : Json → Option Json
  | obj fields => fields.lookup name.toList
  | _ => none

def text? : Json → Option Text
  | str value => some value
  | _ => none

def number? : Json → Option Nat
  | num value => some value
  | _ => none

def items? : Json → Option (List Json)
  | arr items => some items
  | _ => none

def textAt? (name : String) (value : Json) : Option Text := (value.field? name).bind text?

def numberAt? (name : String) (value : Json) : Option Nat := (value.field? name).bind number?

def itemsAt? {α : Type} (name : String) (read : Json → Option α) (value : Json) :
    Option (List α) := do
  let items ← (value.field? name).bind items?
  items.mapM read

end Json

def Segment.ofJson? (value : Json) : Option Segment := do
  let kind ← value.textAt? "kind"
  let text ← value.textAt? "text"
  let range ← value.field? "range"
  let start ← range.numberAt? "start"
  let stop ← range.numberAt? "end"
  if kind = "documentation".toList then return .documentation text start stop
  else if kind = "code".toList then
    let language ← value.textAt? "language"
    return .code text language start stop
  else none

def Construct.ofTag? (tag : Text) : Option Construct :=
  [.blockComment, .stringLiteral].find? (·.tag = tag)

def Diagnostic.ofJson? (value : Json) : Option Diagnostic := do
  let kind ← value.field? "kind"
  let tag ← kind.textAt? "unterminated_construct"
  let construct ← Construct.ofTag? tag
  let offset ← value.numberAt? "offset"
  let line ← value.numberAt? "line"
  let column ← value.numberAt? "column"
  return ⟨construct, offset, line, column⟩

def Document.ofReport? (value : Json) : Option (Text × Document) := do
  let path ← value.textAt? "path"
  let language ← value.textAt? "language"
  let segments ← value.itemsAt? "segments" Segment.ofJson?
  let diagnostics ← value.itemsAt? "diagnostics" Diagnostic.ofJson?
  return (path, ⟨language, segments, diagnostics⟩)

theorem Segment.ofJson?_toJson (segment : Segment) :
    Segment.ofJson? segment.toJson = some segment := by
  cases segment <;> rfl

theorem Diagnostic.ofJson?_toJson (diagnostic : Diagnostic) :
    Diagnostic.ofJson? diagnostic.toJson = some diagnostic := by
  obtain ⟨construct, place⟩ := diagnostic
  cases construct <;> rfl

theorem Json.mapM_map {α : Type} {write : α → Json} {read : Json → Option α}
    (inverse : ∀ a, read (write a) = some a) (l : List α) : (l.map write).mapM read = some l := by
  induction l with
  | nil => rfl
  | cons a l ih => simp [inverse, ih]

theorem Document.ofReport?_report (path : Text) (document : Document) :
    ofReport? (document.report path) = some (path, document) := by
  obtain ⟨language, segments, diagnostics⟩ := document
  let report := Document.report path ⟨language, segments, diagnostics⟩
  have pathField : report.textAt? "path" = some path := rfl
  have languageField : report.textAt? "language" = some language := rfl
  have segmentField : report.itemsAt? "segments" Segment.ofJson? = some segments :=
    Json.mapM_map Segment.ofJson?_toJson segments
  have diagnosticField : report.itemsAt? "diagnostics" Diagnostic.ofJson? = some diagnostics :=
    Json.mapM_map Diagnostic.ofJson?_toJson diagnostics
  unfold ofReport?
  rw [pathField, languageField, segmentField, diagnosticField]
  rfl

/-- Both layouts of a report spell the same value, the path and the document can be read from it, and
so reports of one layout have the same text only if they have the same path and document. -/
theorem Document.read?_writeJson :
    (∀ (path : Text) (document : Document), ∃ value,
      (∀ layout, Json.read? (document.writeJson layout path) = some value) ∧
      Document.ofReport? value = some (path, document)) ∧
    ∀ layout : Json.Layout, Function.Injective
      fun report : Text × Document => report.2.writeJson layout report.1 := by
  have spelled : ∀ (layout : Json.Layout) (path : Text) (document : Document),
      Json.read? (document.writeJson layout path) = some (document.report path) := by
    intro layout path document
    exact Json.read?_write layout (document.report path)
  refine ⟨?_, ?_⟩
  · intro path document
    exact ⟨document.report path, fun layout => spelled layout path document,
      ofReport?_report path document⟩
  · rintro layout ⟨path, document⟩ ⟨otherPath, other⟩ same
    have values : document.report path = other.report otherPath := by
      apply Option.some.inj
      rw [← spelled layout, ← spelled layout]
      exact congrArg Json.read? same
    have read := ofReport?_report path document
    rw [values, ofReport?_report] at read
    exact (Option.some.inj read).symm

end SourceDocs
