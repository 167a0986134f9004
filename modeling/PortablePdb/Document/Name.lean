import PortablePdb.BlobHeap
import PortablePdb.Compressed.Minimal
import PortablePdb.Cursor

/-!
# Document names

The name of a document is kept in parts, so that documents in one folder share the text of their
path. The name blob has the separator character and then, as compressed integers, the heap index
of each part. Separator 0 means that nothing stands between the parts.

* `join_split`: a path is the join of its parts, whichever character it was split at.
* `decode_nil`: an empty blob is an error, since it has no separator.
* `readName`: reads the parts one by one and joins them on the way.
-/

namespace PortablePdb.DocumentName

/-- A text as the list of its characters. -/
abbrev Part := List Char

/-! ## Reading -/

/-- The parts joined again: with the separator between them, or with nothing if it is 0. -/
def join (separator : UInt8) (parts : List Part) : List Char :=
  if separator = 0 then parts.flatten else [Char.ofNat separator.toNat].intercalate parts

/-- The text under each index in turn, then what ends the list of indices. -/
def resolve (heap : BlobHeap) (stop : Option DebugError) :
    List Compressed → Except DebugError (List Part)
  | [] =>
    match stop with
    | some e => .error e
    | none => .ok []
  | index :: more => do
    let bytes ← heap.get index.value
    let parts ← resolve heap stop more
    pure (Utf8.decodeChars bytes :: parts)

def decode (heap : BlobHeap) : Bytes → Except DebugError String
  | [] => .error .empty
  | separator :: rest =>
    if separator < 0x80 then do
      let (indices, stop) := Compressed.scan rest
      let parts ← resolve heap stop indices
      pure (String.ofList (join separator parts))
    else .error (.malformed (.separator separator))

/-- Reads on from a position to the end, and appends the text under each index to a name as soon as
the index is read. The separator goes in front of every part but the first. -/
def appendParts (heap : BlobHeap) (separator : UInt8) (isFirst : Bool) (name : List Char)
    (cursor : Cursor) : Except DebugError (List Char) :=
  if cursor.hasMore then
    let name :=
      if isFirst = true ∨ separator = 0 then name else name ++ [Char.ofNat separator.toNat]
    match _hindex : cursor.readCompressed with
    | (.error e, _) => .error e
    | (.ok index, next) =>
      match heap.get index.value with
      | .error e => .error e
      | .ok bytes => appendParts heap separator false (name ++ Utf8.decodeChars bytes) next
  else .ok name
termination_by cursor.remaining
decreasing_by exact Cursor.remaining_of_readCompressed _hindex

def readName (heap : BlobHeap) (blob : Bytes) : Except DebugError String :=
  if blob.isEmpty then .error .empty
  else
    match (Cursor.start blob).readInt ⟨1, false⟩ with
    | (.error e, _) => .error e
    | (.ok separator, next) =>
      if 0x7F < separator then .error (.malformed (.separator (UInt8.ofNat separator.toNat)))
      else (appendParts heap (UInt8.ofNat separator.toNat) true [] next).map String.ofList

/-! ## Writing -/

/-- The separator of a path: of slash and backslash the one that occurs more often, the slash if
both do equally often, and 0 if neither occurs. -/
def separatorOf (path : List Char) : UInt8 :=
  let slashes := path.count '/'
  let backslashes := path.count '\\'
  if slashes = 0 ∧ backslashes = 0 then 0
  else if backslashes ≤ slashes then 0x2F
  else 0x5C

/-- The parts of a path. Without a separator the path is one part. -/
def split (separator : UInt8) (path : List Char) : List Part :=
  if separator = 0 then [path] else path.splitOn (Char.ofNat separator.toNat)

/-- Keeps parts in the heap, up to one whose index cannot be written. -/
def storeParts : List Part → BlobHeap → Except DebugError (List Compressed) × BlobHeap
  | [], heap => (.ok [], heap)
  | part :: more, heap =>
    let (index, heap) := heap.add (part.flatMap String.utf8EncodeChar)
    match Compressed.ofNat index.toNat with
    | .error e => (.error e, heap)
    | .ok stored =>
      let (indices, heap) := storeParts more heap
      (indices.map (stored :: ·), heap)

def encode (path : String) (heap : BlobHeap) : Except DebugError Bytes × BlobHeap :=
  let separator := separatorOf path.toList
  let (indices, heap) := storeParts (split separator path.toList) heap
  (indices.map fun indices => separator :: indices.flatMap Compressed.bytes, heap)

/-- Splitting a path at a separator loses nothing, whatever the separator is. -/
theorem join_split (separator : UInt8) (path : List Char) :
    join separator (split separator path) = path := by
  unfold join split
  split
  · simp
  · exact List.intercalate_splitOn _

/-- A name has at least a separator. -/
theorem decode_nil (heap : BlobHeap) : decode heap [] = .error .empty := rfl

theorem fst_encode (path : String) (heap : BlobHeap) :
    (encode path heap).1 =
      (storeParts (split (separatorOf path.toList) path.toList) heap).1.map fun indices =>
        separatorOf path.toList :: indices.flatMap Compressed.bytes := by
  simp only [encode]

theorem snd_encode (path : String) (heap : BlobHeap) :
    (encode path heap).2 =
      (storeParts (split (separatorOf path.toList) path.toList) heap).2 := by
  simp only [encode]

/-- A separator is a single byte, so it is not mistaken for a part of another character. -/
theorem separatorOf_lt (path : List Char) : separatorOf path < 0x80 := by
  unfold separatorOf
  grind

end PortablePdb.DocumentName
