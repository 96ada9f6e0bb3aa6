import SourceDocs.Log
import SourceDocs.Scan.Machine

/-!
The scan of a source text: its spans in order and the diagnostics raised on the way.
-/

namespace SourceDocs

structure Scan where
  spans : List Span
  diagnostics : List Diagnostic
deriving DecidableEq, Repr

namespace Scan

def State.result (state : State) : Scan := ⟨state.spans.reverse, state.diagnostics.reverse⟩

def ofSource (grammar : Grammar) (source : Text) : Scan :=
  ((State.initial source).run grammar).finish.result

def log (grammar : Grammar) (source : Text) (scan : Scan) : List LogLine :=
  scan.diagnostics.map (fun diagnostic =>
    ⟨.warn, diagnostic.message ++ "; closed implicitly"⟩) ++
  [⟨.debug, s!"scanned {Text.bytes source} bytes of {String.ofList grammar.id} " ++
    s!"into {scan.spans.length} spans"⟩]

end Scan

end SourceDocs
