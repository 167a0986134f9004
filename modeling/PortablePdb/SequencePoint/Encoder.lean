import PortablePdb.Compressed.Minimal
import PortablePdb.SequencePoint.Decoder

/-!
# Writing a sequence points blob

The numbers of which a sequence points blob consists, in the order in which the decoder takes
them, and the blob that they make up when each is written in its narrowest form. Only points that
are well formed and ordered by offset are read back.

* `numbers`: the numbers of a blob, in order.
* `encode`: the blob of some points.
-/

namespace PortablePdb.SequencePoint

/-- The document of a point; a point without one is taken to lie in the same as the last. -/
def documentIn (point : SequencePoint) (context : Context) : DocumentHandle :=
  point.document.getD context.document

def contextAfter (point : SequencePoint) (context : Context) : Context :=
  let context := { context with document := point.documentIn context }
  if point.isHidden then context.afterHidden point.offset
  else context.afterVisible point.offset point.start

/-- The change of document before a point. The first point lies in the document of the header. -/
def changeNumbers (point : SequencePoint) (context : Context) : List Compressed.Number :=
  if context.offset.isSome ∧ point.documentIn context ≠ context.document then
    [.unsigned 0, .unsigned (point.documentIn context).rid]
  else []

/-- The offset of a point, as a distance from the last one if there is one. -/
def offsetNumber (point : SequencePoint) (context : Context) : Compressed.Number :=
  .unsigned (point.offset - context.offset.getD 0)

def extentNumbers (point : SequencePoint) : List Compressed.Number :=
  let lines := point.stop.line - point.start.line
  if lines = 0 then [.unsigned 0, .unsigned (point.stop.column - point.start.column)]
  else [.unsigned lines, .signed ((point.stop.column : Int) - point.start.column)]

/-- Where a visible point starts, relative to the last visible start if there is one. -/
def startNumbers (point : SequencePoint) (context : Context) : List Compressed.Number :=
  match context.start with
  | none => [.unsigned point.start.line, .unsigned point.start.column]
  | some last =>
    [.signed ((point.start.line : Int) - last.line),
      .signed ((point.start.column : Int) - last.column)]

def pointNumbers (point : SequencePoint) (context : Context) : List Compressed.Number :=
  point.changeNumbers context ++ [point.offsetNumber context] ++
    if point.isHidden then [.unsigned 0, .unsigned 0]
    else point.extentNumbers ++ point.startNumbers context

def numbersFrom (context : Context) : List SequencePoint → List Compressed.Number
  | [] => []
  | point :: more => point.pointNumbers context ++ numbersFrom (point.contextAfter context) more

/-- The numbers before the first point: the local signature, and the first document if the
method's row names none. -/
def headerNumbers (signature : Nat) (document : Option DocumentHandle) (initial : DocumentHandle) :
    List Compressed.Number :=
  match document with
  | some _ => [.unsigned signature]
  | none => [.unsigned signature, .unsigned initial.rid]

/-- The numbers of a blob. The first document is the one of the method's row or, if the row names
none, `initial`. -/
def numbers (signature : Nat) (document : Option DocumentHandle) (initial : DocumentHandle)
    (points : List SequencePoint) : List Compressed.Number :=
  headerNumbers signature document initial ++
    numbersFrom (.initial (document.getD initial)) points

def encode (signature : Nat) (document : Option DocumentHandle) (initial : DocumentHandle)
    (points : List SequencePoint) : Bytes :=
  Compressed.written (numbers signature document initial points) []

end PortablePdb.SequencePoint
