import PortablePdb.SequencePoint.Decoder

/-!
# The grammar of sequence points blobs

Which rows of compressed integers make up a blob and which points they stand for, told as a
grammar: a header, and then a group for each point. What an integer may be depends on the document,
the last offset and the last visible start that the groups before it leave in force. Nothing here
refers to the way in which the decoder reads a blob; only the record `Context` of what is left in
force is shared with it.

* `Spells`: the integers stand for the points.
* `Lead.change`: another change of document may stand before every lead but the first.
-/

namespace PortablePdb.SequencePoint

/-- The integers before the first group, and the document that they put in force: a local signature
and, if the method's row names no document, the row id of the first one. -/
inductive Header : Option DocumentHandle → List Compressed → DocumentHandle → Prop
  | named (document : DocumentHandle) (signature : Compressed) :
      Header (some document) [signature] document
  | unnamed {row : Compressed} {document : DocumentHandle} (signature : Compressed)
      (hrow : row.value = document.rid) : Header none [signature, row] document

/-- Any number of changes of document, each a zero and a row id, from one document in force to
another. -/
inductive Changes : DocumentHandle → List Compressed → DocumentHandle → Prop
  | nil (document : DocumentHandle) : Changes document [] document
  | cons {document next last : DocumentHandle} {zero row : Compressed} {more : List Compressed}
      (hzero : zero.value = 0) (hrow : row.value = next.rid) (hmore : Changes next more last) :
      Changes document (zero :: row :: more) last

/-- The integers that begin a group, with the document and the offset of its point. Only the first
group gives its offset in full, and only it cannot change the document. -/
inductive Lead : Context → List Compressed → DocumentHandle → Nat → Prop
  | first {context : Context} (distance : Compressed) (hfirst : context.offset = none) :
      Lead context [distance] context.document distance.value
  | next {context : Context} {document : DocumentHandle} {changes : List Compressed}
      {distance : Compressed} {last : Nat} (hlast : context.offset = some last)
      (hchanges : Changes context.document changes document) (hdistance : distance.value ≠ 0)
      (hlimit : last + distance.value < offsetLimit) :
      Lead context (changes ++ [distance]) document (last + distance.value)

/-- How many columns a range spans: without a sign if it stays in one line, and with one
otherwise. -/
def columnSpan (lines columns : Compressed) : Int :=
  if lines.value = 0 then columns.value else columns.signed

/-- The two integers for the start of a range: the place itself, or how far it is from the last
visible start. -/
inductive Start : Option Position → Compressed → Compressed → Position → Prop
  | absolute (line column : Compressed) : Start none line column ⟨line.value, column.value⟩
  | relative {last start : Position} {line column : Compressed}
      (hline : (start.line : Int) = last.line + line.signed)
      (hcolumn : (start.column : Int) = last.column + column.signed) :
      Start (some last) line column start

/-- The integers of a group behind its lead, the point at this offset of this document that they
stand for, and the last visible start before and after it. -/
inductive Body (document : DocumentHandle) (offset : Nat) (last : Option Position) :
    List Compressed → SequencePoint → Option Position → Prop
  | hidden {lines columns : Compressed} (hlines : lines.value = 0) (hcolumns : columns.value = 0) :
      Body document offset last [lines, columns] (.hidden offset document) last
  | visible {lines columns line column : Compressed} {start stop : Position}
      (hspan : ¬ (lines.value = 0 ∧ columns.value = 0)) (hstart : Start last line column start)
      (hlines : stop.line = start.line + lines.value)
      (hcolumns : (stop.column : Int) = start.column + columnSpan lines columns)
      (hstartRange : start.InRange) (hstopRange : stop.InRange) :
      Body document offset last [lines, columns, line, column]
        (.visible offset start stop document) (some start)

/-- The integers of any number of groups and the points that they stand for. -/
inductive Groups : Context → List Compressed → List SequencePoint → Prop
  | nil (context : Context) : Groups context [] []
  | cons {context : Context} {document : DocumentHandle} {offset : Nat} {start : Option Position}
      {lead body more : List Compressed} {point : SequencePoint} {points : List SequencePoint}
      (hlead : Lead context lead document offset)
      (hbody : Body document offset context.start body point start)
      (hmore : Groups ⟨document, some offset, start⟩ more points) :
      Groups context (lead ++ body ++ more) (point :: points)

/-- The integers of a blob and the points that they stand for, for a method whose row names
`document` or no document. -/
def Spells (document : Option DocumentHandle) (integers : List Compressed)
    (points : List SequencePoint) : Prop :=
  ∃ header groups first, integers = header ++ groups ∧ Header document header first ∧
    Groups (.initial first) groups points

theorem Header.ne_nil {document : Option DocumentHandle} {header : List Compressed}
    {first : DocumentHandle} (h : Header document header first) : header ≠ [] := by
  cases h with
  | named _ _ => simp
  | unnamed _ _ => simp

theorem Spells.ne_nil {document : Option DocumentHandle} {integers : List Compressed}
    {points : List SequencePoint} (h : Spells document integers points) : integers ≠ [] := by
  obtain ⟨header, groups, first, rfl, hheader, -⟩ := h
  simp [hheader.ne_nil]

theorem Lead.ne_nil {context : Context} {lead : List Compressed} {document : DocumentHandle}
    {offset : Nat} (h : Lead context lead document offset) : lead ≠ [] := by
  cases h with
  | first _ _ => simp
  | next _ _ _ _ => simp

theorem Lead.change {context : Context} {next document : DocumentHandle} {last offset : Nat}
    {zero row : Compressed} {lead : List Compressed} (hlast : context.offset = some last)
    (hzero : zero.value = 0) (hrow : row.value = next.rid)
    (h : Lead { context with document := next } lead document offset) :
    Lead context (zero :: row :: lead) document offset := by
  cases h with
  | first distance hfirst =>
    have hnone : context.offset = none := hfirst
    rw [hlast] at hnone
    cases hnone
  | next hlast' hchanges hdistance hlimit =>
    have hsame : context.offset = some _ := hlast'
    exact .next hsame (.cons hzero hrow hchanges) hdistance hlimit

end PortablePdb.SequencePoint
