import SourceDocs.Document

/-!
Rendering a document piece by piece with one renderer for prose and one for code. Blank code has
nothing to show and is skipped; the first failure ends the rendering.
-/

namespace SourceDocs

inductive Rendered where
  | prose (text : Text)
  | code (text : Text)
deriving DecidableEq, Repr

def Rendered.text : Rendered → Text
  | .prose text => text
  | .code text => text

structure Renderer (ε : Type) where
  prose : Text → Except ε Text
  code : Text → Text → Except ε Text

variable {ε : Type}

/-- Renders one segment; `none` if there is nothing to show. -/
def Segment.render (renderer : Renderer ε) (segment : Segment) : Except ε (Option Rendered) :=
  match segment with
  | .documentation text _ _ => (renderer.prose text).map (some <| .prose ·)
  | .code text language _ _ =>
    if segment.isBlankCode then .ok none
    else (renderer.code text language).map (some <| .code ·)

def Segment.renderAll (renderer : Renderer ε) : List Segment → Except ε (List Rendered)
  | [] => .ok []
  | segment :: segments =>
    match segment.render renderer with
    | .error failure => .error failure
    | .ok piece => (renderAll renderer segments).map (piece.toList ++ ·)

def Document.render (renderer : Renderer ε) (document : Document) : Except ε (List Rendered) :=
  Segment.renderAll renderer document.segments

end SourceDocs
