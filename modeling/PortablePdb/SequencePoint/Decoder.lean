import PortablePdb.Compressed
import PortablePdb.SequencePoint

/-!
# Reading a sequence points blob

A blob is a row of compressed integers: a local signature, the first document if the method's row
names none, and then a group for each point. A group begins with the offset of its point, as a
distance from the last point except in the first group; a distance of zero instead announces a
change of document, which may happen any number of times before the distance. Then come how many
lines and columns the range spans, and, unless both are zero and the point is hidden, where the
range starts: absolutely for the first visible point and relative to the last visible point's
start for every other.

The decoder is a machine that takes one integer at a time. What an integer means depends only on
the state it meets, and a state either allows the blob to end there or does not.

* `decode_nil`: an empty blob holds no points.
* `run_append`: decoding a part of the integers leaves a state from which the others are decoded.
-/

namespace PortablePdb.SequencePoint

/-- What the groups read so far leave for the next: the document, the last point's offset, and
the last visible point's start. -/
structure Context where
  document : DocumentHandle
  offset : Option Nat
  start : Option Position
  deriving DecidableEq

/-- How many lines and columns the range of a point spans. Columns count backwards if the range
ends left of where it starts, on a later line. -/
structure Extent where
  lines : Nat
  columns : Int
  deriving DecidableEq

/-- What the decoder takes the next integer for. -/
inductive State
  /-- The local signature, with the document of the method's row. -/
  | signature (document : Option DocumentHandle)
  /-- The first document of a method whose row names none. -/
  | initialDocument
  /-- The beginning of a group. -/
  | group (context : Context)
  /-- The document to change to. -/
  | newDocument (context : Context)
  /-- What follows a change of document: another change, or the distance to the next point. -/
  | distance (context : Context)
  /-- The lines that the point at this offset spans. -/
  | lines (context : Context) (offset : Nat)
  /-- The columns that it spans. -/
  | columns (context : Context) (offset lines : Nat)
  /-- The line that it starts in. -/
  | startLine (context : Context) (offset : Nat) (extent : Extent)
  /-- The column that it starts at. -/
  | startColumn (context : Context) (offset : Nat) (extent : Extent) (line : Nat)

def documentOfRow (row : Nat) : Except DebugError DocumentHandle :=
  match Handle.ofRid? row with
  | some document => .ok document
  | none => .error (.malformed (.documentRow row))

def lineOf (value : Int) : Except DebugError Nat :=
  if 0 ≤ value ∧ value < hiddenLine then .ok value.toNat else .error (.malformed (.line value))

def columnOf (value : Int) : Except DebugError Nat :=
  if 0 ≤ value ∧ value < columnLimit then .ok value.toNat
  else .error (.malformed (.column value))

namespace Context

def initial (document : DocumentHandle) : Context := ⟨document, none, none⟩

def begin (context : Context) (value : Nat) : Except DebugError State :=
  match context.offset with
  | none => .ok (.lines context value)
  | some last =>
    if value = 0 then .ok (.newDocument context)
    else if last + value < offsetLimit then .ok (.lines context (last + value))
    else .error (.malformed .offsetOverflow)

/-- The number that a start line or column stands for, read from its stored form: a distance from
the same coordinate of the last visible start, if there is one. -/
def coordinate (context : Context) (part : Position → Nat) (stored : Compressed) : Int :=
  match context.start with
  | none => stored.value
  | some start => part start + stored.signed

def afterHidden (context : Context) (offset : Nat) : Context :=
  { context with offset := some offset }

def afterVisible (context : Context) (offset : Nat) (start : Position) : Context :=
  { context with offset := some offset, start := some start }

end Context

namespace State

/-- Takes the next integer: gives the state after it, and the point that it completes. -/
def step : State → Compressed → Except DebugError (State × Option SequencePoint)
  | .signature (some document), _ => .ok (.group (.initial document), none)
  | .signature none, _ => .ok (.initialDocument, none)
  | .initialDocument, stored => do
    let document ← documentOfRow stored.value
    pure (.group (.initial document), none)
  | .group context, stored => do
    let next ← context.begin stored.value
    pure (next, none)
  | .newDocument context, stored => do
    let document ← documentOfRow stored.value
    pure (.distance { context with document := document }, none)
  | .distance context, stored => do
    let next ← context.begin stored.value
    pure (next, none)
  | .lines context offset, stored => .ok (.columns context offset stored.value, none)
  | .columns context offset span, stored =>
    if span = 0 then
      if stored.value = 0 then
        .ok (.group (context.afterHidden offset), some (.hidden offset context.document))
      else .ok (.startLine context offset ⟨0, stored.value⟩, none)
    else .ok (.startLine context offset ⟨span, stored.signed⟩, none)
  | .startLine context offset extent, stored => do
    let line ← lineOf (context.coordinate Position.line stored)
    pure (.startColumn context offset extent line, none)
  | .startColumn context offset extent line, stored => do
    let column ← columnOf (context.coordinate Position.column stored)
    let lastLine ← lineOf (line + extent.lines)
    let lastColumn ← columnOf (column + extent.columns)
    pure (.group (context.afterVisible offset ⟨line, column⟩),
      some (.visible offset ⟨line, column⟩ ⟨lastLine, lastColumn⟩ context.document))

/-- Whether the blob may end in a state: only where a group could begin. -/
def allowsEnd : State → Bool
  | .group _ => true
  | _ => false

/-- The points of the integers that follow a state, when nothing but `stop` follows them: the end
of the blob, or the reason why no further integer can be read. -/
def run (state : State) (stop : Option DebugError) :
    List Compressed → Except DebugError (List SequencePoint)
  | [] =>
    match stop with
    | some e => .error e
    | none => if state.allowsEnd then .ok [] else .error .outOfBounds
  | stored :: more => do
    let (next, point) ← state.step stored
    let points ← next.run stop more
    pure (point.toList ++ points)

/-- The state that some integers lead to, with the points that they complete. -/
def advance (state : State) : List Compressed → Except DebugError (State × List SequencePoint)
  | [] => .ok (state, [])
  | stored :: more => do
    let (next, point) ← state.step stored
    let (last, points) ← next.advance more
    pure (last, point.toList ++ points)

@[simp] private theorem ok_bind {α β : Type} (a : α) (f : α → Except DebugError β) :
    (Except.ok a >>= f) = f a := rfl

@[simp] private theorem error_bind {α β : Type} (e : DebugError) (f : α → Except DebugError β) :
    (Except.error e >>= f) = .error e := rfl

@[simp] private theorem pure_eq_ok {α : Type} (a : α) :
    (pure a : Except DebugError α) = .ok a := rfl

/-- Integers can be decoded in two parts: the second part goes on in the state in which the first
one leaves off. -/
theorem run_append (state : State) (stop : Option DebugError) (first second : List Compressed) :
    state.run stop (first ++ second) = (do
      let (next, points) ← state.advance first
      let more ← next.run stop second
      pure (points ++ more)) := by
  induction first generalizing state with
  | nil =>
    simp only [List.nil_append, advance, ok_bind]
    cases state.run stop second <;> rfl
  | cons stored first ih =>
    simp only [List.cons_append, run, advance]
    cases hstep : state.step stored with
    | error e => rfl
    | ok result =>
      obtain ⟨next, point⟩ := result
      simp only [ok_bind, ih]
      cases next.advance first with
      | error e => rfl
      | ok reached =>
        obtain ⟨last, points⟩ := reached
        simp only [ok_bind, pure_eq_ok]
        cases last.run stop second with
        | error e => rfl
        | ok more => simp only [ok_bind, List.append_assoc]

end State

/-- The points of a blob, for a method whose row names `document` or no document. An empty blob
holds no points. -/
def decode (document : Option DocumentHandle) (blob : Bytes) :
    Except DebugError (List SequencePoint) :=
  if blob.isEmpty then .ok []
  else
    let (integers, stop) := Compressed.scan blob
    (State.signature document).run stop integers

@[simp] theorem decode_nil (document : Option DocumentHandle) : decode document [] = .ok [] := rfl

end PortablePdb.SequencePoint
