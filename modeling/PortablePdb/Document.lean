import PortablePdb.Document.Name
import PortablePdb.Guid

/-!
# Documents

A row of the document table: the encoded name of a source document, and what is known of its
language and content.
-/

namespace PortablePdb

/-- A source document. -/
structure Document where
  name : Bytes
  hashAlgorithm : Option Guid
  hash : Bytes
  language : Option Guid
  deriving DecidableEq

def Document.resolveName (document : Document) (heap : BlobHeap) : Except DebugError String :=
  DocumentName.decode heap document.name

end PortablePdb
