import Mathlib.Data.List.Chain
import PortablePdb.Proofs.Compressed.Writing
import PortablePdb.Proofs.SequencePoint.Language
import PortablePdb.SequencePoint.Encoder

/-!
# Sequence points are read back

Points that can be written are read back from the blob that is written for them
(`decode_encode_of_encodable`). The numbers of a point are a lead and a body of the grammar for
that point (`exists_lead`, `exists_body`), and what the point leaves in force for the encoder is
what the grammar leaves in force for the next group, so the numbers of all points are groups that
spell them (`exists_groups`). The rest is that the decoder takes whatever the grammar allows.
-/

namespace PortablePdb.SequencePoint

/-- The greatest number that has a stored form without a sign. -/
def maxUnsigned : Nat := 0x1FFFFFFF

/-- How far the offset of a point may be behind that of the point before it. -/
def Spaced (point next : SequencePoint) : Prop :=
  point.offset < next.offset ∧ next.offset - point.offset ≤ maxUnsigned

/-- The points for which a blob can be written, with the document of the first one. -/
structure Encodable (first : DocumentHandle) (points : List SequencePoint) : Prop where
  wellFormed : ∀ point ∈ points, point.WellFormed
  offset_lt : ∀ point ∈ points, point.offset < offsetLimit
  head_offset : ∀ point ∈ points.head?, point.offset ≤ maxUnsigned
  head_document : ∀ point ∈ points.head?, point.document = some first
  spaced : points.IsChain Spaced

/-- A point that can come next: the first one lies in the document of the header. -/
def Follows (context : Context) (point : SequencePoint) : Prop :=
  match context.offset with
  | none => point.offset ≤ maxUnsigned ∧ point.document = some context.document
  | some last => last < point.offset ∧ point.offset - last ≤ maxUnsigned

/-! ## One point -/

theorem WellFormed.shape {point : SequencePoint} (h : point.WellFormed) :
    (∃ offset document, point = hidden offset document) ∨
      ∃ offset start stop document, point = visible offset start stop document ∧
        start.InRange ∧ stop.InRange ∧ start.Before stop := by
  obtain ⟨document, hpoint | ⟨hpoint, hrange⟩⟩ := h
  · exact Or.inl ⟨point.offset, document, hpoint⟩
  · exact Or.inr ⟨point.offset, point.start, point.stop, document, hpoint, hrange⟩

theorem WellFormed.exists_document {point : SequencePoint} (h : point.WellFormed) :
    ∃ document, point.document = some document := by
  rcases h.shape with ⟨offset, document, rfl⟩ | ⟨offset, start, stop, document, rfl, -⟩
  · exact ⟨document, rfl⟩
  · exact ⟨document, rfl⟩

theorem documentIn_of_some {point : SequencePoint} {document : DocumentHandle}
    (h : point.document = some document) (context : Context) :
    point.documentIn context = document := by
  simp [documentIn, h]

theorem contextAfter_of_some {point : SequencePoint} {document : DocumentHandle}
    (h : point.document = some document) (context : Context) :
    point.contextAfter context =
      ⟨document, some point.offset, (point.contextAfter context).start⟩ := by
  rw [contextAfter, documentIn_of_some h]
  by_cases hhidden : point.isHidden = true
  · simp [hhidden, Context.afterHidden]
  · simp [hhidden, Context.afterVisible]

theorem exists_changes {context : Context} {point : SequencePoint} {document : DocumentHandle}
    (hdocument : point.document = some document) {last : Nat}
    (hlast : context.offset = some last) :
    ∃ changes, Compressed.Stored (point.changeNumbers context) changes ∧
      Changes context.document changes document := by
  rw [changeNumbers, documentIn_of_some hdocument, hlast]
  by_cases hsame : document = context.document
  · subst hsame
    exact ⟨[], by simpa using Compressed.Stored.nil, .nil _⟩
  · obtain ⟨zero, hzero, hzeroValue⟩ := Compressed.exists_stored_unsigned (Nat.zero_le _)
    have hrid : document.rid ≤ 0x1FFFFFFF := by
      have := document.rid_valid.2
      simp only [rowLimit] at this
      omega
    obtain ⟨row, hrow, hrowValue⟩ := Compressed.exists_stored_unsigned hrid
    refine ⟨[zero, row], ?_, .cons hzeroValue hrowValue (.nil document)⟩
    simpa [hsame] using Compressed.Stored.cons hzero (.cons hrow .nil)

/-- The numbers before a point are stored as a lead that the grammar accepts. -/
theorem exists_lead {context : Context} {point : SequencePoint} {document : DocumentHandle}
    (hdocument : point.document = some document) (hfollows : Follows context point)
    (hlimit : point.offset < offsetLimit) :
    ∃ lead, Compressed.Stored (point.changeNumbers context ++ [point.offsetNumber context]) lead ∧
      Lead context lead document point.offset := by
  by_cases hfirst : context.offset = none
  · simp only [Follows, hfirst] at hfollows
    obtain ⟨hoffset, hcurrent⟩ := hfollows
    obtain rfl : document = context.document := by
      rw [hdocument] at hcurrent
      exact Option.some.inj hcurrent
    obtain ⟨distance, hdistance, hvalue⟩ := Compressed.exists_stored_unsigned hoffset
    refine ⟨[distance], ?_, ?_⟩
    · simpa [changeNumbers, offsetNumber, hfirst] using Compressed.Stored.cons hdistance .nil
    · rw [← hvalue]
      exact .first distance hfirst
  · obtain ⟨last, hlast⟩ := Option.ne_none_iff_exists'.1 hfirst
    simp only [Follows, hlast] at hfollows
    obtain ⟨hlt, hmax⟩ := hfollows
    obtain ⟨changes, hstored, hchanges⟩ := exists_changes hdocument hlast
    obtain ⟨distance, hdistance, hvalue⟩ := Compressed.exists_stored_unsigned hmax
    have hsum : last + distance.value = point.offset := by omega
    refine ⟨changes ++ [distance], ?_, ?_⟩
    · have hnumber : point.offsetNumber context = .unsigned (point.offset - last) := by
        simp [offsetNumber, hlast]
      rw [hnumber]
      exact hstored.append (.cons hdistance .nil)
    · rw [← hsum]
      exact .next hlast hchanges (by omega) (by omega)

theorem exists_start {context : Context} (point : SequencePoint) (h : point.start.InRange)
    (hlast : ∀ last ∈ context.start, last.InRange) :
    ∃ line column, Compressed.Stored (point.startNumbers context) [line, column] ∧
      Start context.start line column point.start := by
  have hline := h.1
  have hcolumn := h.2
  simp only [hiddenLine, columnLimit] at hline hcolumn
  cases hstart : context.start with
  | none =>
    obtain ⟨line, hstoredLine, hlineValue⟩ :=
      Compressed.exists_stored_unsigned (n := point.start.line) (by omega)
    obtain ⟨column, hstoredColumn, hcolumnValue⟩ :=
      Compressed.exists_stored_unsigned (n := point.start.column) (by omega)
    refine ⟨line, column, ?_, ?_⟩
    · simpa [startNumbers, hstart] using Compressed.Stored.cons hstoredLine
        (.cons hstoredColumn .nil)
    · have hplace : point.start = ⟨line.value, column.value⟩ := by rw [hlineValue, hcolumnValue]
      rw [hplace]
      exact .absolute line column
  | some last =>
    obtain ⟨hlastLine, hlastColumn⟩ := hlast last hstart
    simp only [hiddenLine, columnLimit] at hlastLine hlastColumn
    obtain ⟨line, hstoredLine, hlineValue⟩ := Compressed.exists_stored_signed
      (n := (point.start.line : Int) - last.line) (by omega) (by omega)
    obtain ⟨column, hstoredColumn, hcolumnValue⟩ := Compressed.exists_stored_signed
      (n := (point.start.column : Int) - last.column) (by omega) (by omega)
    refine ⟨line, column, ?_, .relative (by omega) (by omega)⟩
    simpa [startNumbers, hstart] using Compressed.Stored.cons hstoredLine
      (.cons hstoredColumn .nil)

/-- A range in one line is stored with the number of its columns, which is not zero since the range
is not empty. A longer range is stored with a number of lines that is not zero. -/
theorem exists_extent (point : SequencePoint) (hstart : point.start.InRange)
    (hstop : point.stop.InRange) (hbefore : point.start.Before point.stop) :
    ∃ lines columns, Compressed.Stored point.extentNumbers [lines, columns] ∧
      ¬ (lines.value = 0 ∧ columns.value = 0) ∧
      point.stop.line = point.start.line + lines.value ∧
      (point.stop.column : Int) = point.start.column + columnSpan lines columns := by
  obtain ⟨hstartLine, hstartColumn⟩ := hstart
  obtain ⟨hstopLine, hstopColumn⟩ := hstop
  simp only [hiddenLine, columnLimit] at hstartLine hstartColumn hstopLine hstopColumn
  obtain ⟨lines, hlines, hlinesValue⟩ := Compressed.exists_stored_unsigned
    (n := point.stop.line - point.start.line) (by omega)
  rcases hbefore with hlt | ⟨heq, hlt⟩
  · obtain ⟨columns, hcolumns, hcolumnsValue⟩ := Compressed.exists_stored_signed
      (n := (point.stop.column : Int) - point.start.column) (by omega) (by omega)
    have hspan : point.stop.line - point.start.line ≠ 0 := by omega
    have hne : lines.value ≠ 0 := by omega
    refine ⟨lines, columns, ?_, fun h => hne h.1, by omega, ?_⟩
    · simpa [extentNumbers, hspan] using Compressed.Stored.cons hlines (.cons hcolumns .nil)
    · rw [columnSpan, if_neg hne]
      omega
  · obtain ⟨columns, hcolumns, hcolumnsValue⟩ := Compressed.exists_stored_unsigned
      (n := point.stop.column - point.start.column) (by omega)
    have hspan : point.stop.line - point.start.line = 0 := by omega
    have hzero : lines.value = 0 := by omega
    rw [hspan] at hlines
    refine ⟨lines, columns, ?_, fun h => absurd h.2 (by omega), by omega, ?_⟩
    · simpa [extentNumbers, hspan] using Compressed.Stored.cons hlines (.cons hcolumns .nil)
    · rw [columnSpan, if_pos hzero]
      omega

/-- The numbers of a point behind its offset. -/
def bodyNumbers (point : SequencePoint) (context : Context) : List Compressed.Number :=
  if point.isHidden then [.unsigned 0, .unsigned 0]
  else point.extentNumbers ++ point.startNumbers context

/-- So are those of the point itself, since its coordinates are in range. -/
theorem exists_body {context : Context} {point : SequencePoint} {document : DocumentHandle}
    (hdocument : point.document = some document) (hpoint : point.WellFormed)
    (hlast : ∀ last ∈ context.start, last.InRange) :
    ∃ body, Compressed.Stored (point.bodyNumbers context) body ∧
      Body document point.offset context.start body point (point.contextAfter context).start := by
  rcases hpoint.shape with ⟨offset, named, rfl⟩ |
    ⟨offset, start, stop, named, rfl, hstart, hstop, hbefore⟩
  · obtain rfl : named = document := Option.some.inj hdocument
    obtain ⟨zero, hzero, hvalue⟩ := Compressed.exists_stored_unsigned (Nat.zero_le _)
    refine ⟨[zero, zero], .cons hzero (.cons hzero .nil), ?_⟩
    exact .hidden hvalue hvalue
  · obtain rfl : named = document := Option.some.inj hdocument
    obtain ⟨lines, columns, hextent, hspan, hlines, hcolumns⟩ :=
      exists_extent (.visible offset start stop named) hstart hstop hbefore
    obtain ⟨line, column, hplace, hstartOf⟩ :=
      exists_start (.visible offset start stop named) hstart hlast
    refine ⟨[lines, columns, line, column], hextent.append hplace, ?_⟩
    exact .visible hspan hstartOf hlines hcolumns hstart hstop

/-- The start that the next point is measured from is in range again. -/
theorem start_contextAfter {context : Context} {point : SequencePoint} (hpoint : point.WellFormed)
    (hlast : ∀ last ∈ context.start, last.InRange) :
    ∀ last ∈ (point.contextAfter context).start, last.InRange := by
  rcases hpoint.shape with ⟨offset, document, rfl⟩ |
    ⟨offset, start, stop, document, rfl, hstart, -, -⟩
  · exact hlast
  · intro last hsome
    cases hsome
    exact hstart

/-! ## All points -/

/-- The induction is on the points; what the context says of the point before them is kept up by
`Follows`, and what it says of the last visible start by its range. -/
theorem exists_groups (context : Context) {points : List SequencePoint}
    (hpoints : ∀ point ∈ points, point.WellFormed)
    (hlimit : ∀ point ∈ points, point.offset < offsetLimit)
    (hfollows : ∀ point ∈ points.head?, Follows context point) (hspaced : points.IsChain Spaced)
    (hlast : ∀ last ∈ context.start, last.InRange) :
    ∃ integers, Compressed.Stored (numbersFrom context points) integers ∧
      Groups context integers points := by
  induction points generalizing context with
  | nil => exact ⟨[], .nil, .nil context⟩
  | cons point points ih =>
    have hpoint : point.WellFormed := hpoints point List.mem_cons_self
    obtain ⟨document, hdocument⟩ := hpoint.exists_document
    obtain ⟨lead, hleadStored, hlead⟩ :=
      exists_lead hdocument (hfollows point rfl) (hlimit point List.mem_cons_self)
    obtain ⟨body, hbodyStored, hbody⟩ := exists_body hdocument hpoint hlast
    have hnext : ∀ next ∈ points.head?, Follows (point.contextAfter context) next := by
      intro next hnext
      rw [contextAfter_of_some hdocument]
      exact hspaced.rel_head? hnext
    obtain ⟨more, hmoreStored, hmore⟩ := ih (point.contextAfter context)
      (fun other hother => hpoints other (List.mem_cons_of_mem _ hother))
      (fun other hother => hlimit other (List.mem_cons_of_mem _ hother))
      hnext hspaced.tail (start_contextAfter hpoint hlast)
    rw [contextAfter_of_some hdocument] at hmore
    refine ⟨lead ++ body ++ more, ?_, .cons hlead hbody hmore⟩
    exact (hleadStored.append hbodyStored).append hmoreStored

/-- The numbers of points that can be encoded are stored as integers that spell these points. -/
theorem exists_spelling {signature : Nat} {document : Option DocumentHandle}
    {initial : DocumentHandle} {points : List SequencePoint} (hsignature : signature ≤ maxUnsigned)
    (hpoints : Encodable (document.getD initial) points) :
    ∃ integers, Compressed.Stored (numbers signature document initial points) integers ∧
      Spells document integers points := by
  obtain ⟨groups, hgroupsStored, hgroups⟩ :=
    exists_groups (.initial (document.getD initial)) hpoints.wellFormed
      hpoints.offset_lt
      (fun point hpoint => ⟨hpoints.head_offset point hpoint, hpoints.head_document point hpoint⟩)
      hpoints.spaced (fun last hlast => absurd hlast (by simp [Context.initial]))
  obtain ⟨first, hfirst, -⟩ := Compressed.exists_stored_unsigned hsignature
  cases document with
  | some document =>
    refine ⟨[first] ++ groups, (Compressed.Stored.cons hfirst .nil).append hgroupsStored, ?_⟩
    exact ⟨[first], groups, document, rfl, .named document first, hgroups⟩
  | none =>
    have hrid : initial.rid ≤ 0x1FFFFFFF := by
      have := initial.rid_valid.2
      simp only [rowLimit] at this
      omega
    obtain ⟨row, hrow, hrowValue⟩ := Compressed.exists_stored_unsigned hrid
    refine ⟨[first, row] ++ groups,
      (Compressed.Stored.cons hfirst (.cons hrow .nil)).append hgroupsStored, ?_⟩
    exact ⟨[first, row], groups, initial, rfl, .unnamed first hrowValue, hgroups⟩

/-- **Round trip.** Every number of the points has a stored form, so writing them never fails, and
the blob that is written gives the points again. -/
theorem decode_encode_of_encodable {signature : Nat} {document : Option DocumentHandle}
    {initial : DocumentHandle} {points : List SequencePoint} (hsignature : signature ≤ maxUnsigned)
    (hpoints : Encodable (document.getD initial) points) :
    (∀ number ∈ numbers signature document initial points,
        ∃ stored, Compressed.ofNumber number = .ok stored) ∧
      decode document (encode signature document initial points) = .ok points := by
  obtain ⟨integers, hstored, hspells⟩ := exists_spelling hsignature hpoints
  refine ⟨hstored.exists_of_mem, ?_⟩
  rw [encode, Compressed.written_of_stored hstored, List.nil_append]
  exact decode_of_spells hspells

/-- Two visible points of one document, and a hidden and a visible point of another. The second
range ends left of where it starts, and the last one starts above it. -/
def mixedPoints : List SequencePoint :=
  [.visible 0 ⟨10, 5⟩ ⟨10, 20⟩ .first, .visible 6 ⟨11, 9⟩ ⟨12, 4⟩ .first,
    .hidden 9 ⟨2, by decide⟩, .visible 12 ⟨3, 1⟩ ⟨3, 8⟩ ⟨2, by decide⟩]

theorem encodable_mixedPoints : Encodable .first mixedPoints where
  wellFormed := by
    intro point hpoint
    simp only [mixedPoints, List.mem_cons, List.not_mem_nil, or_false] at hpoint
    rcases hpoint with rfl | rfl | rfl | rfl
    · exact wellFormed_visible _ (by decide) (by decide) (by decide)
    · exact wellFormed_visible _ (by decide) (by decide) (by decide)
    · exact wellFormed_hidden 9 _
    · exact wellFormed_visible _ (by decide) (by decide) (by decide)
  offset_lt := by decide
  head_offset := by decide
  head_document := by decide
  spaced := by simp [mixedPoints, Spaced, visible, hidden, maxUnsigned]

theorem decode_encode_mixedPoints :
    0 ≤ maxUnsigned ∧ Encodable ((none : Option DocumentHandle).getD .first) mixedPoints ∧
      (∀ number ∈ numbers 0 none .first mixedPoints,
        ∃ stored, Compressed.ofNumber number = .ok stored) ∧
      decode none (encode 0 none .first mixedPoints) = .ok mixedPoints :=
  ⟨by decide, encodable_mixedPoints,
    decode_encode_of_encodable (by decide) encodable_mixedPoints⟩

end PortablePdb.SequencePoint
