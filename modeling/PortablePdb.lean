import PortablePdb.CustomDebug.Value
import PortablePdb.Cursor
import PortablePdb.Metadata.Build
import PortablePdb.Provider
import PortablePdb.SequencePoint.Encoder
import PortablePdb.Store.Snapshot
import PortablePdb.Proofs.SequencePoint.Grammar
import PortablePdb.Proofs.Compressed.Writing
import PortablePdb.Proofs.SequencePoint.Language
import PortablePdb.Proofs.SequencePoint.RoundTrip
import PortablePdb.Proofs.Provider.Sessions
import PortablePdb.Proofs.Query.RecordScan
import PortablePdb.Proofs.Compressed.Streams
import PortablePdb.Proofs.SequencePoint.Orderly
import PortablePdb.Proofs.Document.Naming
import PortablePdb.Proofs.Metadata.Steps
import PortablePdb.Proofs.Metadata.ScopeRuns
import PortablePdb.Proofs.Query.SlotSearch
import PortablePdb.Proofs.Metadata.Log
import PortablePdb.Proofs.Metadata.Limits
import PortablePdb.Proofs.Query.Stopping
import PortablePdb.Proofs.Query.DocumentNames
import PortablePdb.Proofs.Query.TypeLookups
import PortablePdb.Proofs.Provider.SourcePositions
import PortablePdb.Proofs.Provider.RecordedTypes
import PortablePdb.Proofs.SequencePoint.Truncation
import PortablePdb.Proofs.CustomDebug.ElementNames
import PortablePdb.Proofs.Compressed.Shortest
import PortablePdb.Proofs.Compressed.Words
import PortablePdb.Proofs.CustomDebug.Exhaustion
import PortablePdb.Proofs.Document.Parts
import PortablePdb.Proofs.TypeFact.FirstValues
import PortablePdb.Proofs.Cursor.Effects
import PortablePdb.Proofs.Locals.ScopeRange
