import SourceDocs.Main
import SourceDocs.Proofs.Coverage
import SourceDocs.Proofs.Tiling
import SourceDocs.Proofs.WrittenBlocks
import SourceDocs.Rendering
import SourceDocs.Proofs.Alternation
import SourceDocs.Proofs.Priority
import SourceDocs.Proofs.Narrowing
import SourceDocs.Proofs.Splitting
import SourceDocs.Proofs.EntryOrder
import SourceDocs.Proofs.CarriageReturns
import SourceDocs.Proofs.LineEndings
import SourceDocs.Proofs.Recovery
import SourceDocs.Proofs.Ancestors
import SourceDocs.Proofs.Merging
import SourceDocs.Proofs.Precedence
import SourceDocs.Proofs.Fences
import SourceDocs.Proofs.Detection
import SourceDocs.Proofs.JsonReading
import SourceDocs.Proofs.Reports
import SourceDocs.Proofs.Trees
import SourceDocs.Proofs.Joining
import SourceDocs.Proofs.PathOrder
import SourceDocs.Proofs.OutputFiles
import SourceDocs.Proofs.Variants
import SourceDocs.Proofs.Walks
import SourceDocs.Proofs.Writing
import SourceDocs.Proofs.NestedIgnore
import SourceDocs.Proofs.WellFormedTables
import SourceDocs.Proofs.LongestMatch
import SourceDocs.Proofs.WrittenLines
import SourceDocs.Proofs.KeptLines
import SourceDocs.Proofs.OwnMarkers
import SourceDocs.Proofs.Places
import SourceDocs.Proofs.ByteOrder
import SourceDocs.Proofs.Lowering
import SourceDocs.Proofs.Registration
import SourceDocs.Proofs.PathUnion
import SourceDocs.Proofs.CheckedCuts
import SourceDocs.Proofs.CursorScan
