import PortablePdb.Compressed

/-!
# Bytes that end inside an integer

The first byte tells how many bytes an integer has, or that none begins with it. So a reading gives
an integer, or refuses the first byte, or comes to the end of the bytes inside an integer
(`read_error_cases`, `read_outOfBounds_iff`), and reading on to the end of some bytes goes through
integers to one of these stops (`integer_induction`).

With more bytes behind them, some bytes are split as far as before. The integers that were read stay
the same, and a byte with which no integer begins stays such a byte, so only an integer that was cut
off can go on differently.

* `scan_continues`: the integers of some bytes, beside those of more bytes.
-/

namespace PortablePdb.Compressed

/-! ## One integer -/

/-- A complete integer is read in the same way whatever follows. -/
theorem read_append_of_ok {input rest : Bytes} {stored : Compressed}
    (h : read input = (.ok stored, rest)) (more : Bytes) :
    read (input ++ more) = (.ok stored, rest ++ more) := by
  rw [eq_append_of_read h, List.append_assoc, read_bytes_append]

theorem ofLead?_eq_none_iff {lead : UInt8} : Width.ofLead? lead = none ↔ 0xE0 ≤ lead := by
  rw [ofLead?_eq, UInt8.le_iff_toNat_le]
  have hbound : (0xE0 : UInt8).toNat = 0xE0 := rfl
  grind

/-- Whether an integer can begin with a byte is seen from that byte alone. -/
theorem read_of_ofLead?_eq_none {lead : UInt8} (h : Width.ofLead? lead = none) (tail : Bytes) :
    read (lead :: tail) = (.error (.malformed (.leadByte lead)), tail) := by
  simp only [read, h]

theorem read_of_length_lt {width : Width} {lead : UInt8} {tail : Bytes}
    (h : Width.ofLead? lead = some width) (hlength : (lead :: tail).length < width.size) :
    read (lead :: tail) = (.error .outOfBounds, []) := by
  cases width with
  | one => simp [Width.size] at hlength
  | two =>
    rcases tail with _ | ⟨second, tail⟩
    · simp only [read, h]
    · simp only [List.length_cons, Width.size] at hlength
      omega
  | four =>
    rcases tail with _ | ⟨second, _ | ⟨third, _ | ⟨fourth, tail⟩⟩⟩
    · simp only [read, h]
    · simp only [read, h]
    · simp only [read, h]
    · simp only [List.length_cons, Width.size] at hlength
      omega

theorem exists_read_of_le_length {width : Width} {lead : UInt8} {tail : Bytes}
    (h : Width.ofLead? lead = some width) (hlength : width.size ≤ (lead :: tail).length) :
    ∃ stored, read (lead :: tail) = (.ok stored, (lead :: tail).drop width.size) := by
  cases width with
  | one => exact ⟨ofByte lead, by simp only [read, h, Width.size, List.drop_one, List.tail_cons]⟩
  | two =>
    rcases tail with _ | ⟨second, tail⟩
    · simp [Width.size] at hlength
    · exact ⟨ofTwoBytes lead second, by simp [read, h, Width.size]⟩
  | four =>
    rcases tail with _ | ⟨second, _ | ⟨third, _ | ⟨fourth, tail⟩⟩⟩
    · simp [Width.size] at hlength
    · simp [Width.size] at hlength
    · simp [Width.size] at hlength
    · exact ⟨ofFourBytes lead second third fourth, by simp [read, h, Width.size]⟩

theorem read_error_cases {lead : UInt8} {tail rest : Bytes} {e : DebugError}
    (h : read (lead :: tail) = (.error e, rest)) :
    e = .outOfBounds ∨ e = .malformed (.leadByte lead) ∧ Width.ofLead? lead = none := by
  cases hwidth : Width.ofLead? lead with
  | none =>
    rw [read_of_ofLead?_eq_none hwidth] at h
    cases h
    exact Or.inr ⟨rfl, rfl⟩
  | some width =>
    rcases Nat.lt_or_ge (lead :: tail).length width.size with hlt | hle
    · rw [read_of_length_lt hwidth hlt] at h
      cases h
      exact Or.inl rfl
    · obtain ⟨stored, hread⟩ := exists_read_of_le_length hwidth hle
      rw [hread] at h
      cases h

/-- Some bytes end inside an integer if they are its first ones, but not all of them. -/
def CutOff (input : Bytes) : Prop :=
  ∃ (stored : Compressed) (missing : Bytes), input ≠ [] ∧ missing ≠ [] ∧
    stored.bytes = input ++ missing

/-- Zero bytes complete an integer that is too short. -/
theorem cutOff_of_length_lt {width : Width} {lead : UInt8} {tail : Bytes}
    (h : Width.ofLead? lead = some width) (hlength : (lead :: tail).length < width.size) :
    CutOff (lead :: tail) := by
  obtain ⟨missing, hmissing, htotal⟩ :
      ∃ missing : Bytes, missing ≠ [] ∧ width.size = (lead :: (tail ++ missing)).length := by
    refine ⟨List.replicate (width.size - (lead :: tail).length) 0, ?_, ?_⟩
    · rw [← List.length_pos_iff, List.length_replicate]
      exact Nat.sub_pos_of_lt hlength
    · simp only [List.length_cons, List.length_append, List.length_replicate] at hlength ⊢
      omega
  obtain ⟨stored, hread⟩ := exists_read_of_le_length h (Nat.le_of_eq htotal)
  rw [htotal, List.drop_length] at hread
  refine ⟨stored, missing, List.cons_ne_nil lead tail, hmissing, ?_⟩
  rw [List.cons_append, eq_append_of_read hread, List.append_nil]

/-- An integer cannot be read from bytes that end inside it. -/
theorem read_of_cutOff {input : Bytes} (h : CutOff input) :
    ∃ rest, read input = (.error .outOfBounds, rest) := by
  obtain ⟨stored, missing, hinput, hmissing, hbytes⟩ := h
  have hwhole : read (input ++ missing) = (.ok stored, []) := by
    rw [← hbytes, ← List.append_nil stored.bytes, read_bytes_append]
  rcases input with _ | ⟨lead, tail⟩
  · exact absurd rfl hinput
  rcases hread : read (lead :: tail) with ⟨result, rest⟩
  cases result with
  | ok other =>
    rw [read_append_of_ok hread missing] at hwhole
    exact absurd (List.append_eq_nil_iff.1 (Prod.mk.inj hwhole).2).2 hmissing
  | error e =>
    rcases read_error_cases hread with rfl | ⟨-, hlead⟩
    · exact ⟨rest, rfl⟩
    · rw [List.cons_append, read_of_ofLead?_eq_none hlead] at hwhole
      cases hwhole

theorem read_outOfBounds_iff {lead : UInt8} {tail : Bytes} :
    (∃ rest, read (lead :: tail) = (.error .outOfBounds, rest)) ↔ CutOff (lead :: tail) := by
  refine ⟨?_, read_of_cutOff⟩
  rintro ⟨rest, hread⟩
  cases hwidth : Width.ofLead? lead with
  | none =>
    rw [read_of_ofLead?_eq_none hwidth] at hread
    cases hread
  | some width =>
    refine cutOff_of_length_lt hwidth (Nat.not_le.1 fun hle => ?_)
    obtain ⟨stored, hok⟩ := exists_read_of_le_length hwidth hle
    rw [hok] at hread
    cases hread

theorem fst_read_eq_outOfBounds_iff {input : Bytes} :
    (read input).1 = .error .outOfBounds ↔ input = [] ∨ CutOff input := by
  rcases input with _ | ⟨lead, tail⟩
  · simp [read]
  · rw [← read_outOfBounds_iff]
    constructor
    · intro h
      exact Or.inr ⟨(read (lead :: tail)).2, Prod.ext h rfl⟩
    · rintro (hnil | ⟨rest, hread⟩)
      · cases hnil
      · rw [hread]

/-- A read that comes to the end of the bytes leaves none. -/
theorem eq_nil_of_read_outOfBounds {input rest : Bytes}
    (h : read input = (.error .outOfBounds, rest)) : rest = [] := by
  rcases input with _ | ⟨lead, tail⟩
  · cases h
    rfl
  cases hwidth : Width.ofLead? lead with
  | none =>
    rw [read_of_ofLead?_eq_none hwidth] at h
    cases h
  | some width =>
    rcases Nat.lt_or_ge (lead :: tail).length width.size with hlt | hle
    · rw [read_of_length_lt hwidth hlt] at h
      cases h
      rfl
    · obtain ⟨stored, hread⟩ := exists_read_of_le_length hwidth hle
      rw [hread] at h
      cases h

/-- A read that refuses a byte leaves all others. -/
theorem exists_lead_of_read_malformed {input rest : Bytes} {reason : Malformation}
    (h : read input = (.error (.malformed reason), rest)) :
    ∃ lead, input = lead :: rest ∧ Width.ofLead? lead = none ∧ reason = .leadByte lead := by
  rcases input with _ | ⟨lead, tail⟩
  · cases h
  rcases read_error_cases h with hbounds | ⟨-, hlead⟩
  · cases hbounds
  · rw [read_of_ofLead?_eq_none hlead] at h
    cases h
    exact ⟨lead, rfl, hlead, rfl⟩

theorem fst_read_eq_malformed_iff {input : Bytes} {reason : Malformation} :
    (read input).1 = .error (.malformed reason) ↔
      ∃ lead, input[0]? = some lead ∧ 0xE0 ≤ lead ∧ reason = .leadByte lead := by
  simp only [← ofLead?_eq_none_iff]
  constructor
  · intro h
    obtain ⟨lead, hinput, hlead, hreason⟩ := exists_lead_of_read_malformed (Prod.ext h rfl)
    exact ⟨lead, by rw [hinput]; rfl, hlead, hreason⟩
  · rintro ⟨lead, hfirst, hlead, rfl⟩
    rcases input with _ | ⟨first, tail⟩
    · cases hfirst
    · obtain rfl : first = lead := Option.some.inj hfirst
      rw [read_of_ofLead?_eq_none hlead]

/-! ## All integers of some bytes -/

/-- Some bytes are at their end, or an integer is in front of other bytes, or none can be read. -/
@[elab_as_elim] theorem integer_induction {motive : Bytes → Prop} (nil : motive [])
    (cons : ∀ (stored : Compressed) rest, motive rest → motive (stored.bytes ++ rest))
    (stop : ∀ lead tail e rest, read (lead :: tail) = (.error e, rest) → motive (lead :: tail))
    (input : Bytes) : motive input := by
  induction hlength : input.length using Nat.strongRecOn generalizing input with
  | ind length ih =>
    rcases input with _ | ⟨lead, tail⟩
    · exact nil
    rcases hread : read (lead :: tail) with ⟨result, rest⟩
    cases result with
    | error e => exact stop lead tail e rest hread
    | ok stored =>
      have hlt : rest.length < length := by
        have hle := length_read_lt lead tail
        rw [hread] at hle
        rw [← hlength, List.length_cons]
        exact Nat.lt_succ_of_le hle
      rw [eq_append_of_read hread]
      exact cons stored rest (ih rest.length hlt rest rfl)

theorem scan_of_read_error {lead : UInt8} {tail rest : Bytes} {e : DebugError}
    (h : read (lead :: tail) = (.error e, rest)) : scan (lead :: tail) = ([], some e) := by
  rw [scan]
  split
  · rename_i hread
    rw [h] at hread
    cases hread
    rfl
  · rename_i hread
    rw [h] at hread
    cases hread

/-- How the integers of some bytes go with those of more bytes. If no integer can begin somewhere,
nothing behind that place matters; otherwise the integers are the first ones of the others. -/
inductive Continues (front whole : List Compressed × Option DebugError) : Prop
  | goesOn (hstop : front.2 = none ∨ front.2 = some .outOfBounds) (hfront : front.1 <+: whole.1)
  | stopped {reason : Malformation} (hstop : front.2 = some (.malformed reason))
      (hsame : whole = front)

theorem Continues.cons {front whole : List Compressed × Option DebugError}
    (h : Continues front whole) (stored : Compressed) :
    Continues (stored :: front.1, front.2) (stored :: whole.1, whole.2) := by
  cases h with
  | goesOn hstop hfront => exact .goesOn hstop (List.cons_prefix_cons.2 ⟨rfl, hfront⟩)
  | stopped hstop hsame =>
    subst hsame
    exact .stopped hstop rfl

theorem scan_continues (first second : Bytes) :
    Continues (scan first) (scan (first ++ second)) := by
  induction first using integer_induction with
  | nil =>
    rw [scan_nil]
    exact .goesOn (Or.inl rfl) List.nil_prefix
  | cons stored rest ih =>
    rw [List.append_assoc, scan_bytes_append, scan_bytes_append]
    exact ih.cons stored
  | stop lead tail e rest hread =>
    rw [scan_of_read_error hread]
    rcases read_error_cases hread with rfl | ⟨rfl, hlead⟩
    · exact .goesOn (Or.inr rfl) List.nil_prefix
    · exact .stopped rfl (scan_of_read_error (read_of_ofLead?_eq_none hlead (tail ++ second)))

end PortablePdb.Compressed
