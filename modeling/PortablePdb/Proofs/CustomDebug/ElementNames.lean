import PortablePdb.CustomDebug.TupleNames

/-!
# Names between zero bytes

The names of tuple elements are what stands in front of the zero bytes of a blob, and nothing else.
A position in a blob is always in front of a zero byte that a search has just found, so none of the
reads at it can fail (`readName?_between`), and reading name by name gives the names of all segments
(`readNames_between`). The segments are told by their places: each ends at a zero byte and begins
behind the one before or at the start (`IsSegment`). Text without a NUL character is stored without
a zero byte (`zero_notMem_encode`), so names that are written are segments again.

* `decode_segments`: what a blob gives, what parts of a blob give, and that names are read back.
-/

namespace PortablePdb

/-! ## Text without zero bytes -/

namespace Utf8

theorem zero_ne_or (bits : UInt8) {mark : UInt8} (h : mark ≠ 0) : 0 ≠ bits ||| mark :=
  fun hzero => h (UInt8.or_eq_zero_iff.1 hzero.symm).2

/-- All bytes of a character that takes more than one are marked as such. -/
theorem zero_notMem_encodeChar {c : Char} (h : c ≠ '\x00') : 0 ∉ String.utf8EncodeChar c := by
  have hpos := c.utf8Size_pos
  have hle := c.utf8Size_le_four
  obtain hsize | hsize | hsize | hsize :
      c.utf8Size = 1 ∨ c.utf8Size = 2 ∨ c.utf8Size = 3 ∨ c.utf8Size = 4 := by omega
  · rw [String.utf8EncodeChar_eq_singleton hsize, List.mem_singleton]
    intro hzero
    have hlow : c.val.toNat ≤ 127 := UInt32.le_iff_toNat_le.1 (Char.utf8Size_eq_one_iff.1 hsize)
    have hbyte : c.val.toNat % 256 = 0 := (congrArg UInt8.toNat hzero).symm
    refine h (Char.toNat_inj.1 ?_)
    show c.val.toNat = 0
    omega
  · rw [String.utf8EncodeChar_eq_cons_cons hsize]
    simp [zero_ne_or]
  · rw [String.utf8EncodeChar_eq_cons_cons_cons hsize]
    simp [zero_ne_or]
  · rw [String.utf8EncodeChar_eq_cons_cons_cons_cons hsize]
    simp [zero_ne_or]

/-- Only the NUL character has a zero byte in UTF-8. -/
theorem zero_notMem_encode {text : String} (h : '\x00' ∉ text.toList) : 0 ∉ encode text := by
  rw [encode, List.mem_flatMap]
  rintro ⟨c, hc, hzero⟩
  exact zero_notMem_encodeChar (fun hnul => h (hnul ▸ hc)) hzero

end Utf8

namespace TupleNames

/-! ## Segments -/

theorem count_zero_cons {segment : Bytes} (h : 0 ∉ segment) (more : Bytes) :
    (segment ++ 0 :: more).count 0 = more.count 0 + 1 := by
  rw [List.count_append, List.count_cons_self, List.count_eq_zero.2 h, Nat.zero_add]

/-- A blob is a tail without a zero byte, or a segment that a zero byte ends in front of another
blob. -/
@[elab_as_elim] theorem segment_induction {motive : Bytes → Prop}
    (tail : ∀ tail, 0 ∉ tail → motive tail)
    (cons : ∀ segment more, 0 ∉ segment → motive more → motive (segment ++ 0 :: more))
    (blob : Bytes) : motive blob := by
  induction hcount : blob.count 0 generalizing blob with
  | zero => exact tail blob (List.count_eq_zero.1 hcount)
  | succ n ih =>
    have hmem : 0 ∈ blob := List.count_pos_iff.1 (by omega)
    obtain ⟨segment, more, rfl, hsegment⟩ := List.eq_append_cons_of_mem hmem
    rw [count_zero_cons hsegment] at hcount
    exact cons segment more hsegment (ih more (Nat.succ.inj hcount))

theorem segments_of_notMem {tail : Bytes} (h : 0 ∉ tail) : segments tail = [] := by
  rw [segments, List.splitOn_eq_singleton h]
  rfl

/-- The first segment is what stands before the first zero byte. -/
theorem segments_cons {segment : Bytes} (h : 0 ∉ segment) (more : Bytes) :
    segments (segment ++ 0 :: more) = segment :: segments more := by
  rw [segments_append]
  simp [segments, splitOn_append, List.splitOn_eq_singleton h]

theorem unterminated_of_notMem {tail : Bytes} (h : 0 ∉ tail) : unterminated tail = tail := by
  simp [unterminated, List.splitOn_eq_singleton h]

theorem unterminated_append (front more : Bytes) :
    unterminated (front ++ 0 :: more) = unterminated more := by
  simp [unterminated, splitOn_append, List.splitOn_ne_nil]

theorem decode_of_notMem {tail : Bytes} (h : 0 ∉ tail) : decode tail = [] := by
  rw [decode, segments_of_notMem h]
  rfl

theorem decode_cons {segment : Bytes} (h : 0 ∉ segment) (more : Bytes) :
    decode (segment ++ 0 :: more) = nameOf segment :: decode more := by
  rw [decode, segments_cons h]
  rfl

/-- Some bytes are a segment of a blob behind `k` zero bytes if a zero byte ends them, none is among
them, and they begin behind the last of the `k` or, if there is none, at the start. -/
def IsSegment (blob : Bytes) (k : Nat) (segment : Bytes) : Prop :=
  ∃ before after, blob = before ++ segment ++ 0 :: after ∧ 0 ∉ segment ∧ before.count 0 = k ∧
    (before = [] ∨ ∃ front, before = front ++ [0])

theorem length_segments (blob : Bytes) : (segments blob).length = blob.count 0 := by
  induction blob using segment_induction with
  | tail tail htail =>
    rw [segments_of_notMem htail, List.count_eq_zero.2 htail]
    rfl
  | cons segment more hsegment ih =>
    rw [segments_cons hsegment, List.length_cons, ih, count_zero_cons hsegment]

theorem isSegment_of_getElem? {blob segment : Bytes} {k : Nat}
    (h : (segments blob)[k]? = some segment) : IsSegment blob k segment := by
  induction blob using segment_induction generalizing k with
  | tail tail htail =>
    rw [segments_of_notMem htail] at h
    cases h
  | cons first more hfirst ih =>
    rw [segments_cons hfirst] at h
    cases k with
    | zero =>
      cases h
      exact ⟨[], more, rfl, hfirst, rfl, Or.inl rfl⟩
    | succ k =>
      obtain ⟨before, after, rfl, hsegment, hcount, hstart⟩ := ih h
      refine ⟨first ++ 0 :: before, after, by simp, hsegment, ?_, Or.inr ?_⟩
      · rw [count_zero_cons hfirst, hcount]
      · rcases hstart with rfl | ⟨front, rfl⟩
        · exact ⟨first, rfl⟩
        · exact ⟨first ++ 0 :: front, by simp⟩

/-- The segments of the bytes before a segment are those before it. -/
theorem getElem?_of_isSegment {blob segment : Bytes} {k : Nat} (h : IsSegment blob k segment) :
    (segments blob)[k]? = some segment := by
  obtain ⟨before, after, rfl, hsegment, rfl, rfl | ⟨front, rfl⟩⟩ := h
  · rw [List.nil_append, segments_cons hsegment]
    rfl
  · have hblob : front ++ [0] ++ segment ++ 0 :: after = front ++ 0 :: (segment ++ 0 :: after) := by
      simp
    rw [hblob, segments_append, segments_cons hsegment, ← length_segments,
      List.getElem?_append_right (Nat.le_refl _), Nat.sub_self]
    rfl

theorem getElem?_segments_iff {blob segment : Bytes} {k : Nat} :
    (segments blob)[k]? = some segment ↔ IsSegment blob k segment :=
  ⟨isSegment_of_getElem?, getElem?_of_isSegment⟩

/-! ## Reading -/

open Cursor (between)

theorem indexOf_between {segment : Bytes} (h : 0 ∉ segment) (front more : Bytes) :
    (between front (segment ++ 0 :: more)).indexOf 0 = some segment.length := by
  have hnone : segment.findIdx? (· == 0) = none := by
    rw [List.findIdx?_eq_none_iff]
    intro byte hbyte
    exact beq_false_of_ne fun hzero => h (hzero ▸ hbyte)
  rw [Cursor.indexOf, Cursor.rest_between, List.findIdx?_append, hnone, List.findIdx?_cons]
  simp

/-- A name is read with its zero byte, and what is behind it stays unread. -/
theorem readName?_between {segment : Bytes} (h : 0 ∉ segment) (front more : Bytes) :
    readName? (between front (segment ++ 0 :: more)) =
      some (.ok (nameOf segment), between (front ++ segment ++ [0]) more) := by
  have hsegment := Cursor.readBytes_between front segment (0 :: more)
  have hzero := Cursor.readBytes_between (front ++ segment) [0] more
  rw [readName?, indexOf_between h, Option.map_some, hsegment]
  simp only [Cursor.readInt]
  exact congrArg _ (congrArg (Prod.map _ id ∘ Prod.map _ id) hzero)

theorem readName?_of_notMem {tail : Bytes} (h : 0 ∉ tail) (front : Bytes) :
    readName? (between front tail) = none := by
  rw [readName?, Cursor.indexOf, Cursor.rest_between, Option.map_eq_none_iff,
    List.findIdx?_eq_none_iff]
  intro byte hbyte
  exact beq_false_of_ne fun hzero => h (hzero ▸ hbyte)

theorem readNames_of_none {cursor : Cursor} (h : readName? cursor = none) :
    readNames cursor = (.ok [], cursor) := by
  rw [readNames]
  split
  · split
    · rfl
    · rename_i hname
      rw [h] at hname
      cases hname
    · rename_i hname
      rw [h] at hname
      cases hname
  · rfl

theorem readNames_of_ok {cursor next : Cursor} {name : Name}
    (h : readName? cursor = some (.ok name, next)) :
    readNames cursor = (readNames next).map (·.map (name :: ·)) id := by
  rw [readNames]
  split
  · split
    · rename_i hname
      rw [h] at hname
      cases hname
    · rename_i hname
      rw [h] at hname
      cases hname
    · rename_i hname
      rw [h] at hname
      cases hname
      rfl
  · rename_i hmore
    have hrest : cursor.rest = [] :=
      Decidable.of_not_not fun hne => hmore (cursor.hasMore_iff.2 hne)
    rw [readName?, Cursor.indexOf, hrest] at h
    cases h

/-- Wherever reading begins, no read fails, and only the tail is left unread. -/
theorem readNames_between (front blob : Bytes) :
    ∃ done, blob = done ++ unterminated blob ∧
      readNames (between front blob) =
        (.ok (decode blob), between (front ++ done) (unterminated blob)) := by
  induction blob using segment_induction generalizing front with
  | tail tail htail =>
    refine ⟨[], by rw [unterminated_of_notMem htail]; rfl, ?_⟩
    rw [readNames_of_none (readName?_of_notMem htail front), decode_of_notMem htail,
      unterminated_of_notMem htail, List.append_nil]
  | cons segment more hsegment ih =>
    obtain ⟨done, hdone, hread⟩ := ih (front ++ segment ++ [0])
    refine ⟨segment ++ 0 :: done, ?_, ?_⟩
    · rw [unterminated_append, List.append_assoc, List.cons_append, ← hdone]
    · rw [readNames_of_ok (readName?_between hsegment front more), hread, decode_cons hsegment,
        unterminated_append]
      simp [Except.map]

/-- From the start, all names are read, and what is not ended is left. -/
theorem readNames_start (blob : Bytes) :
    (readNames (.start blob)).1 = .ok (decode blob) ∧
      (readNames (.start blob)).2.rest = unterminated blob := by
  obtain ⟨done, -, hread⟩ := readNames_between [] blob
  have hstart : readNames (.start blob) = _ := hread
  rw [hstart]
  exact ⟨rfl, Cursor.rest_between _ _⟩

/-! ## Writing -/

/-- A name that can be told from others once it is written: none, or a text that is not blank and
has no NUL character. -/
def Writable : Name → Prop
  | none => True
  | some text => '\x00' ∉ text.toList ∧ ∃ c ∈ text.toList, Blank.isBlank c = false

theorem exists_written {name : Name} (h : Writable name) :
    ∃ segment, (name.map Utf8.encode).getD [] = segment ∧ 0 ∉ segment ∧ nameOf segment = name := by
  cases name with
  | none =>
    refine ⟨[], rfl, List.not_mem_nil, ?_⟩
    simp [nameOf, Blank.isBlankText]
  | some text =>
    obtain ⟨hnul, c, hc, hvisible⟩ := h
    refine ⟨Utf8.encode text, rfl, Utf8.zero_notMem_encode hnul, ?_⟩
    have hblank : ¬ Blank.isBlankText text = true := by
      intro hall
      have hblank := List.all_eq_true.1 hall c hc
      rw [hvisible] at hblank
      cases hblank
    rw [nameOf, Utf8.decode_encode]
    exact if_neg hblank

/-- Names that can be told apart are read back as they were written. -/
theorem decode_encode_of_writable {names : List Name} (h : ∀ name ∈ names, Writable name) :
    decode (encode names) = names := by
  induction names with
  | nil => rfl
  | cons name more ih =>
    obtain ⟨segment, hwritten, hsegment, hname⟩ := exists_written (h name List.mem_cons_self)
    have hencode : encode (name :: more) = segment ++ 0 :: encode more := by
      rw [← hwritten]
      simp [encode]
    rw [hencode, decode_cons hsegment, hname,
      ih fun other hother => h other (List.mem_cons_of_mem _ hother)]

/-! ## Blobs -/

/-- What is unread in the end are the bytes behind the last zero byte. -/
theorem exists_front (blob : Bytes) :
    ∃ front, blob = front ++ unterminated blob ∧ 0 ∉ unterminated blob ∧
      (front = [] ∨ ∃ body, front = body ++ [0]) := by
  induction blob using segment_induction with
  | tail tail htail =>
    rw [unterminated_of_notMem htail]
    exact ⟨[], rfl, htail, Or.inl rfl⟩
  | cons segment more hsegment ih =>
    obtain ⟨front, hmore, htail, hend⟩ := ih
    rw [unterminated_append]
    refine ⟨segment ++ 0 :: front, ?_, htail, Or.inr ?_⟩
    · rw [List.append_assoc, List.cons_append, ← hmore]
    · rcases hend with rfl | ⟨body, rfl⟩
      · exact ⟨segment, rfl⟩
      · exact ⟨segment ++ 0 :: body, by simp⟩

theorem decode_append_tail {front tail : Bytes} (htail : 0 ∉ tail)
    (h : front = [] ∨ ∃ body, front = body ++ [0]) : decode (front ++ tail) = decode front := by
  rcases h with rfl | ⟨body, rfl⟩
  · rw [List.nil_append, decode_of_notMem htail, decode_of_notMem List.not_mem_nil]
  · rw [List.append_assoc, List.singleton_append, decode_append_zero, decode_of_notMem htail,
      List.append_nil]

/-- The names of a blob are those of its segments. -/
structure NamesSegments (blob : Bytes) : Prop where
  /-- Reading name by name cannot fail. -/
  succeeds : (readNames (.start blob)).1 = .ok (decode blob)
  /-- The bytes behind the last zero byte are left unread and hold no name. -/
  tail : ∃ front tail, blob = front ++ tail ∧ 0 ∉ tail ∧
    (front = [] ∨ ∃ body, front = body ++ [0]) ∧
    (readNames (.start blob)).2.rest = tail ∧ decode blob = decode front
  length : (decode blob).length = blob.count 0
  /-- A name is the text of its segment as it is, unless all of that is white space. -/
  getElem?_iff : ∀ k name, (decode blob)[k]? = some name ↔
    ∃ segment, IsSegment blob k segment ∧
      name = if (Utf8.decode segment).toList.all Blank.isBlank then none
        else some (Utf8.decode segment)

theorem namesSegments (blob : Bytes) : NamesSegments blob where
  succeeds := (readNames_start blob).1
  tail := by
    obtain ⟨front, hblob, htail, hend⟩ := exists_front blob
    refine ⟨front, unterminated blob, hblob, htail, hend, (readNames_start blob).2, ?_⟩
    rw [← decode_append_tail htail hend, ← hblob]
  length := by rw [decode, List.length_map, length_segments]
  getElem?_iff k name := by
    rw [decode, List.getElem?_map, Option.map_eq_some_iff]
    refine exists_congr fun segment => and_congr getElem?_segments_iff ?_
    exact eq_comm

/-- **The names of a blob** are the texts between its zero bytes. Hence a blob can be cut behind any
zero byte and read part by part, and names that are written are read back. -/
theorem decode_segments :
    (∀ blob, NamesSegments blob) ∧
    (∀ first second, decode (first ++ [0] ++ second) = decode (first ++ [0]) ++ decode second) ∧
    ∀ names, (∀ name ∈ names, Writable name) → decode (encode names) = names := by
  refine ⟨namesSegments, ?_, fun names h => decode_encode_of_writable h⟩
  intro first second
  rw [List.append_assoc, List.singleton_append, decode_append_zero]

/-- Names in two scripts with blanks around one of them, and elements without a name. -/
theorem decode_segments_unnamed :
    let names : List Name := [none, some " é\n", none, some "😀"]
    (∀ name ∈ names, Writable name) ∧ decode (encode names) = names := by
  intro names
  have haccent : Writable (some " é\n") := ⟨by simp, 'é', by simp, by decide⟩
  have hsmile : Writable (some "😀") := ⟨by simp, '😀', by simp, by decide⟩
  have hnames : ∀ name ∈ names, Writable name := by
    simp only [names, List.forall_mem_cons]
    exact ⟨trivial, haccent, trivial, hsmile, List.forall_mem_nil _⟩
  exact ⟨hnames, decode_segments.2.2 names hnames⟩

end TupleNames

end PortablePdb
