import PortablePdb.Proofs.SequencePoint.Grammar

/-!
# The blobs that can be decoded

The decoder accepts a blob exactly if it is empty or consists of integers that spell points by the
grammar, and then it gives those points (`decode_eq_ok_iff_spells`). Both directions follow the
parts of a group: what the decoder does from the state in which a part begins is told by one lemma
for each part (`run_lead` for the lead, `run_lines_eq_ok_iff` for the body), and the groups of a
blob are then taken one after the other (`run_group_eq_ok_iff`).
-/

namespace PortablePdb.SequencePoint

/-! ## Single numbers -/

theorem documentOfRow_eq_ok_iff {row : Nat} {document : DocumentHandle} :
    documentOfRow row = .ok document ↔ row = document.rid := by
  unfold documentOfRow
  cases h : (Handle.ofRid? row : Option DocumentHandle) with
  | none =>
    constructor
    · intro hok
      cases hok
    · rintro rfl
      rw [Handle.ofRid?_rid] at h
      cases h
  | some found =>
    have hrid : found.rid = row := Handle.ofRid?_eq_some_iff.1 h
    constructor
    · intro hok
      cases hok
      exact hrid.symm
    · rintro rfl
      exact congrArg Except.ok (Handle.ext hrid)

theorem lineOf_eq_ok_iff {value : Int} {line : Nat} :
    lineOf value = .ok line ↔ (line : Int) = value ∧ line < hiddenLine := by
  unfold lineOf
  split
  · simp only [Except.ok.injEq]
    omega
  · simp only [reduceCtorEq, false_iff]
    omega

theorem columnOf_eq_ok_iff {value : Int} {column : Nat} :
    columnOf value = .ok column ↔ (column : Int) = value ∧ column < columnLimit := by
  unfold columnOf
  split
  · simp only [Except.ok.injEq]
    omega
  · simp only [reduceCtorEq, false_iff]
    omega

/-- The two coordinates of a start, as the decoder computes them. -/
theorem start_iff {context : Context} {line column : Compressed} {start : Position} :
    Start context.start line column start ↔
      (start.line : Int) = context.coordinate Position.line line ∧
        (start.column : Int) = context.coordinate Position.column column := by
  obtain ⟨startLine, startColumn⟩ := start
  cases hlast : context.start with
  | none =>
    simp only [Context.coordinate, hlast]
    constructor
    · intro h
      cases h
      exact ⟨rfl, rfl⟩
    · rintro ⟨hline, hcolumn⟩
      have hline' : startLine = line.value := by omega
      have hcolumn' : startColumn = column.value := by omega
      rw [hline', hcolumn']
      exact .absolute line column
  | some last =>
    simp only [Context.coordinate, hlast]
    constructor
    · intro h
      cases h with
      | relative hline hcolumn => exact ⟨hline, hcolumn⟩
    · rintro ⟨hline, hcolumn⟩
      exact .relative hline hcolumn

/-! ## Single integers -/

namespace State

theorem run_cons_eq_ok_iff {state : State} {stop : Option DebugError} {stored : Compressed}
    {more : List Compressed} {points : List SequencePoint} :
    state.run stop (stored :: more) = .ok points ↔
      ∃ next point rest, state.step stored = .ok (next, point) ∧
        next.run stop more = .ok rest ∧ points = point.toList ++ rest := by
  rw [run, bind_eq_ok_iff]
  constructor
  · rintro ⟨⟨next, point⟩, hstep, hrun⟩
    obtain ⟨rest, hrest, hpoints⟩ := bind_eq_ok_iff.1 hrun
    exact ⟨next, point, rest, hstep, hrest, (Except.ok.inj hpoints).symm⟩
  · rintro ⟨next, point, rest, hstep, hrest, rfl⟩
    exact ⟨(next, point), hstep, bind_eq_ok_iff.2 ⟨rest, hrest, rfl⟩⟩

/-- An integer that completes no point only changes the state. -/
theorem run_cons_of_step {state next : State} {stop : Option DebugError} {stored : Compressed}
    (h : state.step stored = .ok (next, none)) (more : List Compressed) :
    state.run stop (stored :: more) = next.run stop more := by
  rw [run, h]
  cases hrun : next.run stop more with
  | error e => simp [bind, Except.bind, hrun]
  | ok rest => simp [bind, Except.bind, hrun, pure, Except.pure]

/-- The integers may only end between two points. -/
theorem run_nil_eq_ok_iff {state : State} {points : List SequencePoint} :
    state.run none [] = .ok points ↔ state.allowsEnd = true ∧ points = [] := by
  simp only [run]
  split
  · rename_i hend
    simp [hend, eq_comm]
  · rename_i hend
    simp [hend]

/-- A blob in which some integer cannot be read is never accepted. -/
theorem run_stopped_ne_ok {state : State} {e : DebugError} {integers : List Compressed}
    {points : List SequencePoint} : state.run (some e) integers ≠ .ok points := by
  induction integers generalizing state points with
  | nil =>
    intro h
    cases h
  | cons stored more ih =>
    intro h
    obtain ⟨next, point, rest, -, hrest, -⟩ := run_cons_eq_ok_iff.1 h
    exact ih hrest

end State

/-! ## The body of a group -/

namespace State

theorem step_startLine_eq_ok_iff {context : Context} {offset : Nat} {extent : Extent}
    {stored : Compressed} {next : State} {point : Option SequencePoint} :
    (startLine context offset extent).step stored = .ok (next, point) ↔
      ∃ line, lineOf (context.coordinate Position.line stored) = .ok line ∧
        next = .startColumn context offset extent line ∧ point = none := by
  rw [step, bind_eq_ok_iff]
  simp only [pure, Except.pure, Except.ok.injEq, Prod.mk.injEq, eq_comm]

theorem step_startColumn_eq_ok_iff {context : Context} {offset line : Nat} {extent : Extent}
    {stored : Compressed} {next : State} {point : Option SequencePoint} :
    (startColumn context offset extent line).step stored = .ok (next, point) ↔
      ∃ column, columnOf (context.coordinate Position.column stored) = .ok column ∧
        ∃ lastLine, lineOf (line + extent.lines) = .ok lastLine ∧
          ∃ lastColumn, columnOf (column + extent.columns) = .ok lastColumn ∧
            next = .group (context.afterVisible offset ⟨line, column⟩) ∧
            point = some
              (.visible offset ⟨line, column⟩ ⟨lastLine, lastColumn⟩ context.document) := by
  rw [step]
  constructor
  · intro h
    obtain ⟨column, hcolumn, h⟩ := bind_eq_ok_iff.1 h
    obtain ⟨lastLine, hlastLine, h⟩ := bind_eq_ok_iff.1 h
    obtain ⟨lastColumn, hlastColumn, h⟩ := bind_eq_ok_iff.1 h
    cases h
    exact ⟨column, hcolumn, lastLine, hlastLine, lastColumn, hlastColumn, rfl, rfl⟩
  · rintro ⟨column, hcolumn, lastLine, hlastLine, lastColumn, hlastColumn, rfl, rfl⟩
    refine bind_eq_ok_iff.2 ⟨column, hcolumn, ?_⟩
    refine bind_eq_ok_iff.2 ⟨lastLine, hlastLine, ?_⟩
    exact bind_eq_ok_iff.2 ⟨lastColumn, hlastColumn, rfl⟩

/-- A range without lines and columns marks a hidden point. -/
theorem step_columns_of_hidden {context : Context} {offset : Nat} {lines columns : Compressed}
    (hlines : lines.value = 0) (hcolumns : columns.value = 0) :
    (State.columns context offset lines.value).step columns =
      .ok (.group (context.afterHidden offset), some (.hidden offset context.document)) := by
  simp [step, hlines, hcolumns]

theorem step_columns_of_visible {context : Context} {offset : Nat} {lines columns : Compressed}
    (hspan : ¬ (lines.value = 0 ∧ columns.value = 0)) :
    (State.columns context offset lines.value).step columns =
      .ok (.startLine context offset ⟨lines.value, columnSpan lines columns⟩, none) := by
  by_cases hlines : lines.value = 0
  · have hcolumns : columns.value ≠ 0 := fun h => hspan ⟨hlines, h⟩
    simp [step, columnSpan, hlines, hcolumns]
  · simp [step, columnSpan, hlines]

end State

/-- The place where a range starts, read after its extent. The range of the whole body is checked
only here, when all four of its numbers are known. -/
theorem run_startLine_eq_ok_iff {context : Context} {offset : Nat} {extent : Extent}
    {integers : List Compressed} {points : List SequencePoint} :
    (State.startLine context offset extent).run none integers = .ok points ↔
      ∃ line column more start stop rest, integers = line :: column :: more ∧
        points = .visible offset start stop context.document :: rest ∧
        Start context.start line column start ∧
        stop.line = start.line + extent.lines ∧
        (stop.column : Int) = start.column + extent.columns ∧
        start.InRange ∧ stop.InRange ∧
        (State.group (context.afterVisible offset start)).run none more = .ok rest := by
  constructor
  · intro h
    rcases integers with _ | ⟨line, tail⟩
    · cases (State.run_nil_eq_ok_iff.1 h).1
    obtain ⟨next, point, rest, hstep, hrest, rfl⟩ := State.run_cons_eq_ok_iff.1 h
    obtain ⟨startLine, hline, rfl, rfl⟩ := State.step_startLine_eq_ok_iff.1 hstep
    rcases tail with _ | ⟨column, more⟩
    · cases (State.run_nil_eq_ok_iff.1 hrest).1
    obtain ⟨next, point, rest', hstep', hrest', rfl⟩ := State.run_cons_eq_ok_iff.1 hrest
    obtain ⟨startColumn, hcolumn, stopLine, hstopLine, stopColumn, hstopColumn, rfl, rfl⟩ :=
      State.step_startColumn_eq_ok_iff.1 hstep'
    obtain ⟨hline, hlineLimit⟩ := lineOf_eq_ok_iff.1 hline
    obtain ⟨hcolumn, hcolumnLimit⟩ := columnOf_eq_ok_iff.1 hcolumn
    obtain ⟨hstopLine, hstopLineLimit⟩ := lineOf_eq_ok_iff.1 hstopLine
    obtain ⟨hstopColumn, hstopColumnLimit⟩ := columnOf_eq_ok_iff.1 hstopColumn
    refine ⟨line, column, more, ⟨startLine, startColumn⟩, ⟨stopLine, stopColumn⟩, rest', rfl, rfl,
      start_iff.2 ⟨hline, hcolumn⟩, ?_, hstopColumn, ⟨hlineLimit, hcolumnLimit⟩,
      ⟨hstopLineLimit, hstopColumnLimit⟩, hrest'⟩
    show stopLine = startLine + extent.lines
    omega
  · rintro ⟨line, column, more, ⟨startLine, startColumn⟩, ⟨stopLine, stopColumn⟩, rest, rfl, rfl,
      hstart, hlines, hcolumns, ⟨hlineLimit, hcolumnLimit⟩, ⟨hstopLineLimit, hstopColumnLimit⟩,
      hrest⟩
    obtain ⟨hline, hcolumn⟩ := start_iff.1 hstart
    have hstopLine : lineOf (startLine + extent.lines) = .ok stopLine :=
      lineOf_eq_ok_iff.2 ⟨by simp only at hlines; omega, hstopLineLimit⟩
    have hfirst : (State.startLine context offset extent).step line =
        .ok (.startColumn context offset extent startLine, none) :=
      State.step_startLine_eq_ok_iff.2
        ⟨startLine, lineOf_eq_ok_iff.2 ⟨hline, hlineLimit⟩, rfl, rfl⟩
    have hsecond : (State.startColumn context offset extent startLine).step column =
        .ok (.group (context.afterVisible offset ⟨startLine, startColumn⟩),
          some (.visible offset ⟨startLine, startColumn⟩ ⟨stopLine, stopColumn⟩
            context.document)) := State.step_startColumn_eq_ok_iff.2
      ⟨startColumn, columnOf_eq_ok_iff.2 ⟨hcolumn, hcolumnLimit⟩, stopLine, hstopLine, stopColumn,
        columnOf_eq_ok_iff.2 ⟨hcolumns, hstopColumnLimit⟩, rfl, rfl⟩
    rw [State.run_cons_of_step hfirst]
    exact State.run_cons_eq_ok_iff.2 ⟨_, _, rest, hsecond, hrest, rfl⟩

theorem run_lines_eq_ok_iff {context : Context} {offset : Nat} {integers : List Compressed}
    {points : List SequencePoint} :
    (State.lines context offset).run none integers = .ok points ↔
      ∃ body more point start rest, integers = body ++ more ∧ points = point :: rest ∧
        Body context.document offset context.start body point start ∧
        (State.group ⟨context.document, some offset, start⟩).run none more = .ok rest := by
  constructor
  · intro h
    rcases integers with _ | ⟨lines, tail⟩
    · cases (State.run_nil_eq_ok_iff.1 h).1
    have hlines : (State.lines context offset).step lines =
        .ok (.columns context offset lines.value, none) := rfl
    rw [State.run_cons_of_step hlines] at h
    rcases tail with _ | ⟨columns, more⟩
    · cases (State.run_nil_eq_ok_iff.1 h).1
    by_cases hspan : lines.value = 0 ∧ columns.value = 0
    · obtain ⟨next, point, rest, hstep, hrest, rfl⟩ := State.run_cons_eq_ok_iff.1 h
      rw [State.step_columns_of_hidden hspan.1 hspan.2] at hstep
      cases hstep
      exact ⟨[lines, columns], more, _, context.start, rest, rfl, rfl, .hidden hspan.1 hspan.2,
        hrest⟩
    · rw [State.run_cons_of_step (State.step_columns_of_visible hspan)] at h
      obtain ⟨line, column, more, start, stop, rest, rfl, rfl, hstart, hstopLine, hstopColumn,
        hstartRange, hstopRange, hrest⟩ := run_startLine_eq_ok_iff.1 h
      exact ⟨[lines, columns, line, column], more, _, some start, rest, rfl, rfl,
        .visible hspan hstart hstopLine hstopColumn hstartRange hstopRange, hrest⟩
  · rintro ⟨body, more, point, start, rest, rfl, rfl, hbody, hrest⟩
    cases hbody with
    | @hidden lines columns hlines hcolumns =>
      have hstep : (State.lines context offset).step lines =
          .ok (.columns context offset lines.value, none) := rfl
      rw [List.cons_append, State.run_cons_of_step hstep]
      exact State.run_cons_eq_ok_iff.2
        ⟨_, _, rest, State.step_columns_of_hidden hlines hcolumns, hrest, rfl⟩
    | @visible lines columns line column start stop hspan hstart hlines hcolumns hstartRange
        hstopRange =>
      have hstep : (State.lines context offset).step lines =
          .ok (.columns context offset lines.value, none) := rfl
      rw [List.cons_append, State.run_cons_of_step hstep, List.cons_append,
        State.run_cons_of_step (State.step_columns_of_visible hspan)]
      exact run_startLine_eq_ok_iff.2 ⟨line, column, more, start, stop, rest, rfl, rfl, hstart,
        hlines, hcolumns, hstartRange, hstopRange, hrest⟩

/-! ## The lead of a group -/

namespace State

theorem step_distance_of_none {context : Context} (h : context.offset = none)
    (stored : Compressed) :
    (distance context).step stored = .ok (.lines context stored.value, none) := by
  simp [step, Context.begin, h, bind, Except.bind, pure, Except.pure]

/-- After the first point, a distance of zero announces another document. -/
theorem step_distance_of_zero {context : Context} {last : Nat} {stored : Compressed}
    (h : context.offset = some last) (hzero : stored.value = 0) :
    (distance context).step stored = .ok (.newDocument context, none) := by
  simp [step, Context.begin, h, hzero, bind, Except.bind, pure, Except.pure]

theorem step_distance_eq_ok_iff {context : Context} {next : State} {last : Nat}
    {stored : Compressed} {point : Option SequencePoint} (h : context.offset = some last)
    (hdistance : stored.value ≠ 0) :
    (distance context).step stored = .ok (next, point) ↔
      last + stored.value < offsetLimit ∧ next = .lines context (last + stored.value) ∧
        point = none := by
  by_cases hlimit : last + stored.value < offsetLimit
  · simp [step, Context.begin, h, hdistance, hlimit, bind, Except.bind, pure, Except.pure,
      eq_comm]
  · simp [step, Context.begin, h, hdistance, hlimit, bind, Except.bind]

theorem step_newDocument_eq_ok_iff {context : Context} {next : State} {stored : Compressed}
    {point : Option SequencePoint} :
    (newDocument context).step stored = .ok (next, point) ↔
      ∃ document : DocumentHandle, stored.value = document.rid ∧
        next = .distance { context with document := document } ∧ point = none := by
  rw [step, bind_eq_ok_iff]
  simp only [documentOfRow_eq_ok_iff, pure, Except.pure, Except.ok.injEq, Prod.mk.injEq,
    @eq_comm State, @eq_comm (Option SequencePoint)]

theorem step_initialDocument_eq_ok_iff {next : State} {stored : Compressed}
    {point : Option SequencePoint} :
    initialDocument.step stored = .ok (next, point) ↔
      ∃ document : DocumentHandle, stored.value = document.rid ∧
        next = .group (.initial document) ∧ point = none := by
  rw [step, bind_eq_ok_iff]
  simp only [documentOfRow_eq_ok_iff, pure, Except.pure, Except.ok.injEq, Prod.mk.injEq,
    @eq_comm State, @eq_comm (Option SequencePoint)]

/-- A group begins like the distance that may follow a change of document. -/
theorem run_group_cons (context : Context) (stop : Option DebugError) (stored : Compressed)
    (more : List Compressed) :
    (group context).run stop (stored :: more) = (distance context).run stop (stored :: more) :=
  rfl

end State

/-- Changes of document only change the document. -/
theorem run_changes {context : Context} {last : Nat} {changes : List Compressed}
    {document : DocumentHandle} (hlast : context.offset = some last)
    (h : Changes context.document changes document) (more : List Compressed) :
    (State.distance context).run none (changes ++ more) =
      (State.distance { context with document := document }).run none more := by
  generalize hfirst : context.document = first at h
  induction h generalizing context with
  | nil first =>
    subst hfirst
    rfl
  | @cons first next final zero row rest hzero hrow hmore ih =>
    have hchange : (State.newDocument context).step row =
        .ok (.distance { context with document := next }, none) :=
      State.step_newDocument_eq_ok_iff.2 ⟨next, hrow, rfl, rfl⟩
    rw [List.cons_append, State.run_cons_of_step (State.step_distance_of_zero hlast hzero),
      List.cons_append, State.run_cons_of_step hchange]
    exact ih hlast rfl

theorem run_lead {context : Context} {lead : List Compressed} {document : DocumentHandle}
    {offset : Nat} (h : Lead context lead document offset) (more : List Compressed) :
    (State.distance context).run none (lead ++ more) =
      (State.lines { context with document := document } offset).run none more := by
  cases h with
  | first distance hfirst =>
    exact State.run_cons_of_step (State.step_distance_of_none hfirst distance) more
  | @next _ changes distance last hlast hchanges hdistance hlimit =>
    have hlast' : ({ context with document := document } : Context).offset = some last := hlast
    have hstep : (State.distance { context with document := document }).step distance =
        .ok (.lines { context with document := document } (last + distance.value), none) :=
      (State.step_distance_eq_ok_iff hlast' hdistance).2 ⟨hlimit, rfl, rfl⟩
    rw [List.append_assoc, run_changes hlast hchanges]
    exact State.run_cons_of_step hstep more

/-- Every change of document takes two integers off the front, so the induction is on how many
integers there are. -/
theorem exists_lead_of_run {context : Context} {integers : List Compressed}
    {points : List SequencePoint}
    (h : (State.distance context).run none integers = .ok points) :
    ∃ lead more document offset, integers = lead ++ more ∧ Lead context lead document offset ∧
      (State.lines { context with document := document } offset).run none more = .ok points := by
  induction hlength : integers.length using Nat.strongRecOn generalizing context integers with
  | ind length ih =>
    rcases integers with _ | ⟨distance, tail⟩
    · cases (State.run_nil_eq_ok_iff.1 h).1
    by_cases hfirst : context.offset = none
    · rw [State.run_cons_of_step (State.step_distance_of_none hfirst distance)] at h
      exact ⟨[distance], tail, context.document, distance.value, rfl, .first distance hfirst, h⟩
    · obtain ⟨last, hlast⟩ := Option.ne_none_iff_exists'.1 hfirst
      by_cases hdistance : distance.value = 0
      · rw [State.run_cons_of_step (State.step_distance_of_zero hlast hdistance)] at h
        rcases tail with _ | ⟨row, tail⟩
        · cases (State.run_nil_eq_ok_iff.1 h).1
        obtain ⟨next, point, rest, hstep, hrest, rfl⟩ := State.run_cons_eq_ok_iff.1 h
        obtain ⟨changed, hrow, rfl, rfl⟩ := State.step_newDocument_eq_ok_iff.1 hstep
        obtain ⟨lead, more, document, offset, rfl, hlead, hlines⟩ :=
          ih tail.length (by simp only [List.length_cons] at hlength; omega) hrest rfl
        exact ⟨distance :: row :: lead, more, document, offset, rfl,
          hlead.change hlast hdistance hrow, hlines⟩
      · obtain ⟨next, point, rest, hstep, hrest, rfl⟩ := State.run_cons_eq_ok_iff.1 h
        obtain ⟨hlimit, rfl, rfl⟩ := (State.step_distance_eq_ok_iff hlast hdistance).1 hstep
        exact ⟨[distance], tail, context.document, last + distance.value, rfl,
          .next hlast (.nil context.document) hdistance hlimit, hrest⟩

/-! ## All groups -/

theorem groups_of_run {context : Context} {integers : List Compressed}
    {points : List SequencePoint} (h : (State.group context).run none integers = .ok points) :
    Groups context integers points := by
  induction hlength : integers.length using Nat.strongRecOn
    generalizing context integers points with
  | ind length ih =>
    rcases integers with _ | ⟨stored, tail⟩
    · obtain ⟨-, rfl⟩ := State.run_nil_eq_ok_iff.1 h
      exact .nil context
    rw [State.run_group_cons] at h
    obtain ⟨lead, rest, document, offset, hintegers, hlead, hlines⟩ := exists_lead_of_run h
    obtain ⟨body, more, point, start, rest, rfl, rfl, hbody, hmore⟩ :=
      run_lines_eq_ok_iff.1 hlines
    have hne := List.length_pos_iff.2 hlead.ne_nil
    have hlt : more.length < length := by
      rw [← hlength, hintegers]
      simp only [List.length_append]
      omega
    rw [hintegers, ← List.append_assoc]
    exact .cons hlead hbody (ih more.length hlt hmore rfl)

theorem run_of_groups {context : Context} {integers : List Compressed}
    {points : List SequencePoint} (h : Groups context integers points) :
    (State.group context).run none integers = .ok points := by
  induction h with
  | nil context => rfl
  | @cons context document offset start lead body more point points hlead hbody _ ih =>
    have hlines : (State.lines { context with document := document } offset).run none
        (body ++ more) = .ok (point :: points) :=
      run_lines_eq_ok_iff.2 ⟨body, more, point, start, points, rfl, rfl, hbody, ih⟩
    rw [← run_lead hlead] at hlines
    rw [List.append_assoc]
    -- The lead is not empty, so the group state takes its first integer as the distance state does.
    cases hintegers : lead ++ (body ++ more) with
    | nil => simp [hlead.ne_nil] at hintegers
    | cons stored tail =>
      rw [hintegers] at hlines
      exact hlines

theorem run_group_eq_ok_iff {context : Context} {integers : List Compressed}
    {points : List SequencePoint} :
    (State.group context).run none integers = .ok points ↔ Groups context integers points :=
  ⟨groups_of_run, run_of_groups⟩

/-- The decoder accepts what the grammar spells, and nothing else. -/
theorem run_signature_eq_ok_iff {document : Option DocumentHandle} {integers : List Compressed}
    {points : List SequencePoint} :
    (State.signature document).run none integers = .ok points ↔
      Spells document integers points := by
  constructor
  · intro h
    rcases integers with _ | ⟨signature, tail⟩
    · cases (State.run_nil_eq_ok_iff.1 h).1
    cases document with
    | some document =>
      have hstep : (State.signature (some document)).step signature =
          .ok (.group (.initial document), none) := rfl
      rw [State.run_cons_of_step hstep] at h
      have hgroups := run_group_eq_ok_iff.1 h
      exact ⟨[signature], tail, document, rfl, .named document signature, hgroups⟩
    | none =>
      have hstep : (State.signature none).step signature = .ok (.initialDocument, none) := rfl
      rw [State.run_cons_of_step hstep] at h
      rcases tail with _ | ⟨row, tail⟩
      · cases (State.run_nil_eq_ok_iff.1 h).1
      obtain ⟨next, point, rest, hnext, hrest, rfl⟩ := State.run_cons_eq_ok_iff.1 h
      obtain ⟨document, hrow, rfl, rfl⟩ := State.step_initialDocument_eq_ok_iff.1 hnext
      have hgroups := run_group_eq_ok_iff.1 hrest
      exact ⟨[signature, row], tail, document, rfl, .unnamed signature hrow, hgroups⟩
  · rintro ⟨header, groups, first, rfl, hheader, hgroups⟩
    cases hheader with
    | named _ signature =>
      have hstep : (State.signature (some first)).step signature =
          .ok (.group (.initial first), none) := rfl
      rw [List.cons_append, State.run_cons_of_step hstep]
      exact run_group_eq_ok_iff.2 hgroups
    | @unnamed row _ signature hrow =>
      have hstep : (State.signature none).step signature = .ok (.initialDocument, none) := rfl
      have hnext : State.initialDocument.step row = .ok (.group (.initial first), none) :=
        State.step_initialDocument_eq_ok_iff.2 ⟨first, hrow, rfl, rfl⟩
      rw [List.cons_append, State.run_cons_of_step hstep, List.cons_append,
        State.run_cons_of_step hnext]
      exact run_group_eq_ok_iff.2 hgroups

/-! ## Blobs -/

theorem decode_of_ne_nil {document : Option DocumentHandle} {blob : Bytes} (h : blob ≠ []) :
    decode document blob =
      (State.signature document).run (Compressed.scan blob).2 (Compressed.scan blob).1 := by
  simp [decode, h]

theorem decode_of_spells {document : Option DocumentHandle} {integers : List Compressed}
    {points : List SequencePoint} (h : Spells document integers points) :
    decode document (integers.flatMap Compressed.bytes) = .ok points := by
  have hblob : integers.flatMap Compressed.bytes ≠ [] := by
    cases integers with
    | nil => exact absurd rfl h.ne_nil
    | cons stored more => simp [Compressed.bytes_ne_nil]
  rw [decode_of_ne_nil hblob, Compressed.scan_flatMap_bytes]
  exact run_signature_eq_ok_iff.2 h

theorem spells_of_decode {document : Option DocumentHandle} {blob : Bytes}
    {points : List SequencePoint} (hblob : blob ≠ []) (h : decode document blob = .ok points) :
    ∃ integers, blob = integers.flatMap Compressed.bytes ∧ Spells document integers points := by
  rw [decode_of_ne_nil hblob] at h
  rcases hscan : Compressed.scan blob with ⟨integers, stop⟩
  rw [hscan] at h
  cases stop with
  | some e => exact absurd h State.run_stopped_ne_ok
  | none =>
    exact ⟨integers, (Compressed.flatMap_bytes_of_scan hscan).symm, run_signature_eq_ok_iff.1 h⟩

/-- **The language of the decoder.** A blob gives some points exactly if there is nothing in it and
there are no points, or it splits into integers, each in any width that holds it, that spell the
points. -/
theorem decode_eq_ok_iff_spells (document : Option DocumentHandle) (blob : Bytes)
    (points : List SequencePoint) :
    decode document blob = .ok points ↔
      blob = [] ∧ points = [] ∨
        ∃ integers, blob = integers.flatMap Compressed.bytes ∧
          Spells document integers points := by
  constructor
  · intro h
    by_cases hblob : blob = []
    · subst hblob
      rw [decode_nil] at h
      exact Or.inl ⟨rfl, (Except.ok.inj h).symm⟩
    · exact Or.inr (spells_of_decode hblob h)
  · rintro (⟨rfl, rfl⟩ | ⟨integers, rfl, hspells⟩)
    · exact decode_nil document
    · exact decode_of_spells hspells

end PortablePdb.SequencePoint
