import PortablePdb.Proofs.Compressed.Streams

/-!
# The shortest stored form

A number has a stored form in every width that it fits into, and in each of them only one
(`eq_of_readAs`), although the same bits mean different signed numbers in different widths. Writing
takes the narrowest of these widths (`size_le_of_ofNumber`), while reading accepts them all. So what
is read can always be written, and the written form is the one that was read or a shorter one.

* `writesShortest`: how the bytes that are written for a number go with all those that are read as
  it.
-/

namespace PortablePdb

namespace Compressed

/-! ## Widths -/

theorem length_bytes (stored : Compressed) : stored.bytes.length = stored.width.size := by
  unfold bytes
  split <;> rename_i hwidth <;> rw [hwidth] <;> rfl

theorem Width.size_injective {first second : Width} (h : first.size = second.size) :
    first = second := by
  cases first <;> cases second <;> simp_all [Width.size]

/-- A number fits into a width if the width has a stored form for it. -/
def Fits (width : Width) : Number → Prop
  | .unsigned n => n < width.values
  | .signed n => FitsSigned width n

theorem fitsSigned_signed (stored : Compressed) : FitsSigned stored.width stored.signed := by
  have hvalue := stored.value_lt
  rw [← stored.width.two_mul_half] at hvalue
  unfold FitsSigned signed
  split <;> omega

theorem signedBits_signed (stored : Compressed) :
    signedBits stored.width stored.signed = stored.value := by
  have hvalue := stored.value_lt
  rw [← stored.width.two_mul_half] at hvalue
  unfold signedBits signed
  split <;> split <;> omega

theorem fits_of_readAs {stored : Compressed} {number : Number}
    (h : stored.readAs number = number) : Fits stored.width number := by
  cases number with
  | unsigned n =>
    obtain rfl : stored.value = n := Number.unsigned.inj h
    exact stored.value_lt
  | signed n =>
    obtain rfl : stored.signed = n := Number.signed.inj h
    exact stored.fitsSigned_signed

/-- In one width, a number has one stored form. -/
theorem eq_of_readAs {first second : Compressed} {number : Number}
    (hfirst : first.readAs number = number) (hsecond : second.readAs number = number)
    (hwidth : first.width = second.width) : first = second := by
  refine Compressed.ext hwidth ?_
  cases number with
  | unsigned n =>
    have hvalue : first.value = n := Number.unsigned.inj hfirst
    rw [hvalue]
    exact (Number.unsigned.inj hsecond).symm
  | signed n =>
    have hvalue : first.signed = n := Number.signed.inj hfirst
    have hother : second.signed = n := Number.signed.inj hsecond
    rw [← first.signedBits_signed, ← second.signedBits_signed, hwidth, hvalue, hother]

theorem inRange_of_fits {width : Width} {number : Number} (h : Fits width number) :
    number.InRange := by
  cases number with
  | unsigned n =>
    cases width <;> simp only [Fits, Width.values] at h <;> simp only [Number.InRange] <;> omega
  | signed n =>
    cases width <;> simp only [Fits, FitsSigned, Width.half] at h <;>
      simp only [Number.InRange] <;> omega

/-- The width is tried before all wider ones, so a number that fits into it never gets one of
those. -/
theorem size_le_of_ofNumber {number : Number} {stored : Compressed} {width : Width}
    (h : ofNumber number = .ok stored) (hfits : Fits width number) :
    stored.width.size ≤ width.size := by
  cases number with
  | unsigned n => cases width <;> grind [ofNumber, ofNat, ofNatIn, Fits, Width.size]
  | signed n => cases width <;> grind [ofNumber, ofInt, ofIntIn, Fits, Width.size]

/-- A stored form is the one that is written, or the written one is shorter. -/
theorem exists_short_of_readAs {stored : Compressed} {number : Number}
    (h : stored.readAs number = number) :
    ∃ short, ofNumber number = .ok short ∧ short.bytes.length ≤ stored.bytes.length ∧
      (short.bytes.length = stored.bytes.length → short = stored) := by
  obtain ⟨short, hshort⟩ := exists_stored_iff.2 (inRange_of_fits (fits_of_readAs h))
  refine ⟨short, hshort, ?_, ?_⟩
  · rw [length_bytes, length_bytes]
    exact size_le_of_ofNumber hshort (fits_of_readAs h)
  · intro hlength
    rw [length_bytes, length_bytes] at hlength
    exact eq_of_readAs (readAs_of_ofNumber hshort) h (Width.size_injective hlength)

/-! ## Bytes that are read as a number -/

theorem exists_stored_of_run {number : Number} {cursor next : Cursor}
    (h : cursor.run number.reader = (.ok number.result, next)) :
    ∃ stored : Compressed, stored.readAs number = number ∧ ∃ front rest,
      cursor = .between front (stored.bytes ++ rest) ∧
        next = .between (front ++ stored.bytes) rest := by
  rcases hread : cursor.readCompressed with ⟨result, behind⟩
  cases number with
  | unsigned n =>
    simp only [Cursor.run, hread, Prod.map, id, Prod.mk.injEq] at h
    obtain ⟨hvalue, rfl⟩ := h
    obtain ⟨stored, rfl, hstored⟩ := map_eq_ok_iff.1 hvalue
    exact ⟨stored, congrArg Number.unsigned hstored, Cursor.exists_between_of_readCompressed hread⟩
  | signed n =>
    simp only [Cursor.run, hread, Prod.map, id, Prod.mk.injEq] at h
    obtain ⟨hvalue, rfl⟩ := h
    obtain ⟨stored, rfl, hstored⟩ := map_eq_ok_iff.1 hvalue
    exact ⟨stored, congrArg Number.signed hstored, Cursor.exists_between_of_readCompressed hread⟩

/-- Some bytes encode a number if a cursor in front of them reads it and then stands behind them. -/
def Encodes (bytes : Bytes) (number : Number) : Prop :=
  ∀ front rest, (Cursor.between front (bytes ++ rest)).run number.reader =
    (.ok number.result, .between (front ++ bytes) rest)

theorem encodes_iff {input : Bytes} {number : Number} :
    Encodes input number ↔ ∃ stored : Compressed, input = stored.bytes ∧
      stored.readAs number = number := by
  constructor
  · intro h
    obtain ⟨stored, hstored, front, rest, hbefore, hbehind⟩ := exists_stored_of_run (h [] [])
    simp only [Cursor.between, Cursor.mk.injEq, List.nil_append, List.append_nil] at hbefore hbehind
    obtain ⟨hdata, hpos⟩ := hbefore
    obtain rfl : front = [] := List.length_eq_zero_iff.1 hpos.symm
    refine ⟨stored, ?_, hstored⟩
    have hlength := congrArg List.length hdata
    simp only [List.nil_append, List.length_append] at hdata hlength hbehind
    obtain rfl : rest = [] := List.length_eq_zero_iff.1 (by omega)
    rw [hdata, List.append_nil]
  · rintro ⟨stored, rfl, hstored⟩
    exact run_reader_of_readAs hstored

theorem write_eq_ok_iff {number : Number} {buffer emitted after : Bytes} :
    write number buffer = (.ok emitted, after) ↔
      ∃ stored, ofNumber number = .ok stored ∧ emitted = stored.bytes ∧
        after = buffer ++ emitted := by
  unfold write
  cases ofNumber number with
  | error e => simp
  | ok stored =>
    simp only [Prod.mk.injEq, Except.ok.injEq, exists_eq_left']
    constructor
    · rintro ⟨rfl, rfl⟩
      exact ⟨rfl, rfl⟩
    · rintro ⟨rfl, rfl⟩
      exact ⟨rfl, rfl⟩

/-- How a number is written, beside the bytes that are read as it. -/
structure WritesShortest (number : Number) : Prop where
  /-- A number that was read can be written, in at most as many bytes; if it takes as many, then
  these are the bytes that were read. -/
  readBack : ∀ cursor next : Cursor, cursor.run number.reader = (.ok number.result, next) →
    ∃ consumed emitted, cursor.rest = consumed ++ next.rest ∧
      next.data = cursor.data ∧ next.pos = cursor.pos + consumed.length ∧
      (∀ buffer, write number buffer = (.ok emitted, buffer ++ emitted)) ∧
      emitted.length ≤ consumed.length ∧ (emitted.length = consumed.length → emitted = consumed)
  /-- The numbers that can be written are those that can be read. -/
  accepted : (∃ buffer emitted after, write number buffer = (.ok emitted, after)) ↔
    ∃ cursor next : Cursor, cursor.run number.reader = (.ok number.result, next)
  /-- There is at most one encoding of each length. -/
  unique : ∀ first second, Encodes first number → Encodes second number →
    first.length = second.length → first = second
  /-- What is written is an encoding, and no encoding is shorter. -/
  shortest : ∀ buffer emitted after, write number buffer = (.ok emitted, after) →
    Encodes emitted number ∧ ∀ other, Encodes other number → emitted.length ≤ other.length

/-- **Writing is the shortest inverse of reading**, for numbers with a sign and without one. -/
theorem writesShortest (number : Number) : WritesShortest number where
  readBack := by
    intro cursor next h
    obtain ⟨stored, hstored, front, rest, rfl, rfl⟩ := exists_stored_of_run h
    obtain ⟨short, hshort, hle, heq⟩ := exists_short_of_readAs hstored
    refine ⟨stored.bytes, short.bytes, ?_, ?_, ?_, ?_, hle, ?_⟩
    · rw [Cursor.rest_between, Cursor.rest_between]
    · simp [Cursor.between]
    · simp [Cursor.between]
    · intro buffer
      exact write_eq_ok_iff.2 ⟨short, hshort, rfl, rfl⟩
    · intro hlength
      rw [heq hlength]
  accepted := by
    constructor
    · rintro ⟨buffer, emitted, after, hwrite⟩
      obtain ⟨stored, hstored, -, -⟩ := write_eq_ok_iff.1 hwrite
      exact ⟨_, _, run_reader hstored [] []⟩
    · rintro ⟨cursor, next, hread⟩
      obtain ⟨stored, hstored, -⟩ := exists_stored_of_run hread
      obtain ⟨short, hshort, -⟩ := exists_short_of_readAs hstored
      exact ⟨[], _, _, write_eq_ok_iff.2 ⟨short, hshort, rfl, rfl⟩⟩
  unique := by
    intro first second hfirst hsecond hlength
    obtain ⟨stored, rfl, hstored⟩ := encodes_iff.1 hfirst
    obtain ⟨other, rfl, hother⟩ := encodes_iff.1 hsecond
    rw [length_bytes, length_bytes] at hlength
    rw [eq_of_readAs hstored hother (Width.size_injective hlength)]
  shortest := by
    intro buffer emitted after hwrite
    obtain ⟨short, hshort, rfl, -⟩ := write_eq_ok_iff.1 hwrite
    refine ⟨encodes_iff.2 ⟨short, rfl, readAs_of_ofNumber hshort⟩, ?_⟩
    intro other hother
    obtain ⟨stored, rfl, hstored⟩ := encodes_iff.1 hother
    rw [length_bytes, length_bytes]
    exact size_le_of_ofNumber hshort (fits_of_readAs hstored)

/-- The number -1 takes one byte; here it is read from two. -/
theorem writesShortest_minusOne :
    let cursor := Cursor.between [0xAA] [0xBF, 0xFF, 0x01]
    let next := Cursor.between [0xAA, 0xBF, 0xFF] [0x01]
    cursor.run .signed = (.ok (-1), next) ∧ write (.signed (-1)) [] = (.ok [0x7F], [0x7F]) ∧
      ∃ consumed emitted, cursor.rest = consumed ++ next.rest ∧
        write (.signed (-1)) [] = (.ok emitted, emitted) ∧ emitted.length ≤ consumed.length := by
  intro cursor next
  have hread : cursor.run .signed = (.ok (-1), next) := rfl
  obtain ⟨consumed, emitted, hrest, -, -, hwrite, hle, -⟩ :=
    (writesShortest (.signed (-1))).readBack cursor next hread
  exact ⟨hread, by decide, consumed, emitted, hrest, hwrite [], hle⟩

end Compressed

end PortablePdb
