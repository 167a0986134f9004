import Mathlib.Data.List.Forall2
import PortablePdb.Document.Name
import PortablePdb.Proofs.Compressed.CutOff

/-!
# Names from their parts

Behind the separator a name blob is read index by index, and each index is looked up before the next
one is read. The parts that come of it are those of the integers of the blob (`partsOf_append`), up
to the first place where there is none or where one is too large for the heap. Joining the parts on
the way gives what joining them in the end gives (`appendParts_between`).

* `decode_parts`: which blobs give a name and which name, and which error the others give.
-/

namespace PortablePdb.DocumentName

open Compressed (CutOff)
open Cursor (between)

/-- The text of the part under an index: nothing under 0, and otherwise what the heap keeps there,
whether or not it is UTF-8. -/
inductive PartAt (heap : BlobHeap) : Nat → String → Prop
  | empty : PartAt heap 0 ""
  | kept {k : Nat} {blob : Bytes} (h : heap.blobs[k]? = some blob) :
    PartAt heap (k + 1) (Utf8.decode blob)

/-- Why no part can be taken from the front of some bytes. -/
inductive Fault (heap : BlobHeap) : Bytes → DebugError → Prop
  | leadByte {lead : UInt8} {rest : Bytes} (h : 0xE0 ≤ lead) :
    Fault heap (lead :: rest) (.malformed (.leadByte lead))
  | cutOff {input : Bytes} (h : CutOff input) : Fault heap input .outOfBounds
  | unresolved {index : Compressed} {rest : Bytes} (h : heap.size < index.value) :
    Fault heap (index.bytes ++ rest) .outOfBounds

/-- What stands between two parts. -/
def separatorText (separator : UInt8) : String :=
  if separator = 0 then "" else String.singleton (Char.ofNat separator.toNat)

/-! ## Parts -/

theorem partAt_iff {heap : BlobHeap} {index : Nat} {text : String} :
    PartAt heap index text ↔ ∃ blob, heap.get? index = some blob ∧ text = Utf8.decode blob := by
  constructor
  · intro h
    cases h with
    | empty => exact ⟨[], rfl, Utf8.decode_nil.symm⟩
    | kept h => exact ⟨_, h, rfl⟩
  · rintro ⟨blob, hblob, rfl⟩
    cases index with
    | zero =>
      cases hblob
      rw [Utf8.decode_nil]
      exact .empty
    | succ k => exact .kept hblob

/-- The parts whose indices some bytes consist of. -/
def partsOf (heap : BlobHeap) (input : Bytes) : Except DebugError (List Part) :=
  resolve heap (Compressed.scan input).2 (Compressed.scan input).1

theorem partsOf_nil (heap : BlobHeap) : partsOf heap [] = .ok [] := by
  rw [partsOf, Compressed.scan_nil]
  rfl

/-- The part of an index is fetched before the next index is read. -/
theorem partsOf_append (heap : BlobHeap) (index : Compressed) (rest : Bytes) :
    partsOf heap (index.bytes ++ rest) = (do
      let blob ← heap.get index.value
      let parts ← partsOf heap rest
      pure (Utf8.decodeChars blob :: parts)) := by
  rw [partsOf, Compressed.scan_bytes_append]
  rfl

theorem partsOf_of_read_error {lead : UInt8} {tail rest : Bytes} {e : DebugError}
    (h : Compressed.read (lead :: tail) = (.error e, rest)) (heap : BlobHeap) :
    partsOf heap (lead :: tail) = .error e := by
  rw [partsOf, Compressed.scan_of_read_error h]
  rfl

/-- A name has parts if it splits into indices that all lead to a part. -/
theorem partsOf_eq_ok_iff {heap : BlobHeap} {input : Bytes} {parts : List Part} :
    partsOf heap input = .ok parts ↔ ∃ indices : List Compressed,
      input = indices.flatMap Compressed.bytes ∧
        List.Forall₂ (PartAt heap) (indices.map Compressed.value) (parts.map String.ofList) := by
  constructor
  · intro h
    induction input using Compressed.integer_induction generalizing parts with
    | nil =>
      rw [partsOf_nil] at h
      cases h
      exact ⟨[], rfl, .nil⟩
    | cons index rest ih =>
      rw [partsOf_append, bind_eq_ok_iff] at h
      obtain ⟨blob, hblob, h⟩ := h
      obtain ⟨more, hmore, rfl⟩ := map_eq_ok_iff.1 h
      obtain ⟨indices, rfl, hparts⟩ := ih hmore
      have hpart := partAt_iff.2 ⟨blob, BlobHeap.get_eq_ok_iff.1 hblob, rfl⟩
      exact ⟨index :: indices, List.flatMap_cons.symm, .cons hpart hparts⟩
    | stop lead tail e rest hread =>
      rw [partsOf_of_read_error hread] at h
      cases h
  · rintro ⟨indices, rfl, h⟩
    induction indices generalizing parts with
    | nil =>
      obtain rfl : parts = [] := List.map_eq_nil_iff.1 (List.forall₂_nil_left_iff.1 h)
      exact partsOf_nil heap
    | cons index more ih =>
      obtain ⟨text, texts, hpart, hparts, htexts⟩ := List.forall₂_cons_left_iff.1 h
      obtain ⟨part, rest, rfl, rfl, rfl⟩ := List.map_eq_cons_iff.1 htexts
      obtain ⟨blob, hblob, htext⟩ := partAt_iff.1 hpart
      rw [List.flatMap_cons, partsOf_append, BlobHeap.get_eq_ok_iff.2 hblob, ih hparts]
      rw [String.ofList_injective htext]
      rfl

theorem fault_of_read {lead : UInt8} {tail rest : Bytes} {e : DebugError}
    (h : Compressed.read (lead :: tail) = (.error e, rest)) (heap : BlobHeap) :
    Fault heap (lead :: tail) e := by
  rcases Compressed.read_error_cases h with rfl | ⟨rfl, hlead⟩
  · exact .cutOff (Compressed.read_outOfBounds_iff.1 ⟨rest, h⟩)
  · exact .leadByte (Compressed.ofLead?_eq_none_iff.1 hlead)

/-- The first index that cannot be read or does not lead to a part decides the error. -/
theorem partsOf_of_fault {heap : BlobHeap} {input : Bytes} {e : DebugError}
    (h : Fault heap input e) : partsOf heap input = .error e := by
  cases h with
  | leadByte h =>
    exact partsOf_of_read_error
      (Compressed.read_of_ofLead?_eq_none (Compressed.ofLead?_eq_none_iff.2 h) _) heap
  | cutOff h =>
    obtain ⟨rest, hread⟩ := Compressed.read_of_cutOff h
    rcases input with _ | ⟨lead, tail⟩
    · obtain ⟨-, -, hne, -⟩ := h
      exact absurd rfl hne
    · exact partsOf_of_read_error hread heap
  | unresolved h =>
    rw [partsOf_append, BlobHeap.get_eq_error_iff.2 ⟨rfl, h⟩]
    rfl

/-- What fails is the first part that cannot be taken, behind some that can. -/
theorem partsOf_eq_error_iff {heap : BlobHeap} {input : Bytes} {e : DebugError} :
    partsOf heap input = .error e ↔ ∃ (front : List Compressed) (tail : Bytes),
      input = front.flatMap Compressed.bytes ++ tail ∧
        (∀ index ∈ front, index.value ≤ heap.size) ∧ Fault heap tail e := by
  constructor
  · intro h
    induction input using Compressed.integer_induction with
    | nil =>
      rw [partsOf_nil] at h
      cases h
    | cons index rest ih =>
      rw [partsOf_append, bind_eq_error_iff] at h
      rcases h with hget | ⟨blob, hget, h⟩
      · obtain ⟨rfl, hsize⟩ := BlobHeap.get_eq_error_iff.1 hget
        exact ⟨[], index.bytes ++ rest, rfl, List.forall_mem_nil _, .unresolved hsize⟩
      · have hrest : partsOf heap rest = .error e := by
          rcases bind_eq_error_iff.1 h with hrest | ⟨parts, -, hpure⟩
          · exact hrest
          · cases hpure
        obtain ⟨front, tail, rfl, hfront, hfault⟩ := ih hrest
        have hindex : index.value ≤ heap.size := by
          rw [← BlobHeap.isSome_get?, BlobHeap.get_eq_ok_iff.1 hget]
          rfl
        refine ⟨index :: front, tail, ?_, List.forall_mem_cons.2 ⟨hindex, hfront⟩, hfault⟩
        rw [List.flatMap_cons, List.append_assoc]
    | stop lead tail e' rest hread =>
      rw [partsOf_of_read_error hread] at h
      cases h
      exact ⟨[], lead :: tail, rfl, List.forall_mem_nil _, fault_of_read hread heap⟩
  · rintro ⟨front, tail, rfl, hfront, hfault⟩
    induction front with
    | nil => exact partsOf_of_fault hfault
    | cons index more ih =>
      obtain ⟨hindex, hmore⟩ := List.forall_mem_cons.1 hfront
      obtain ⟨blob, hblob⟩ := Option.isSome_iff_exists.1 (heap.isSome_get? index.value |>.2 hindex)
      rw [List.flatMap_cons, List.append_assoc, partsOf_append, BlobHeap.get_eq_ok_iff.2 hblob,
        ih hmore]
      rfl

/-! ## Joining -/

theorem intercalate_nil_left {α : Type} (lists : List (List α)) :
    ([] : List α).intercalate lists = lists.flatten := by
  induction lists with
  | nil => rfl
  | cons first more ih =>
    cases more with
    | nil => simp
    | cons second more => simp [List.intercalate_cons_cons, ih]

theorem toList_separatorText (separator : UInt8) : (separatorText separator).toList =
    if separator = 0 then [] else [Char.ofNat separator.toNat] := by
  unfold separatorText
  split
  · rfl
  · exact String.toList_singleton _

/-- A separator stands between two parts, also where one of them is empty. -/
theorem join_eq_intercalate (separator : UInt8) (parts : List Part) :
    join separator parts = (separatorText separator).toList.intercalate parts := by
  rw [join, toList_separatorText]
  split
  · exact (intercalate_nil_left parts).symm
  · rfl

theorem ofList_join (separator : UInt8) (parts : List Part) :
    String.ofList (join separator parts) =
      (separatorText separator).intercalate (parts.map String.ofList) := by
  rw [← String.toList_inj, String.toList_ofList, String.toList_intercalate, List.map_map,
    join_eq_intercalate]
  simp

/-- The first part, and each later one behind a separator. -/
theorem join_cons (separator : UInt8) (part : Part) (more : List Part) :
    join separator (part :: more) =
      part ++ more.flatMap ((separatorText separator).toList ++ ·) := by
  rw [join_eq_intercalate]
  induction more generalizing part with
  | nil => simp
  | cons next more ih =>
    rw [List.intercalate_cons_cons, ih, List.flatMap_cons, List.append_assoc, List.append_assoc]

/-! ## The reading that joins on the way -/

theorem appendParts_nil (heap : BlobHeap) (separator : UInt8) (isFirst : Bool) (name : List Char)
    (front : Bytes) : appendParts heap separator isFirst name (between front []) = .ok name := by
  rw [appendParts, if_neg (Cursor.not_hasMore_between_nil front)]

/-- No separator goes in front of the first part, and separator 0 is no text anywhere. -/
theorem append_separator (separator : UInt8) (isFirst : Bool) (name : List Char) :
    (if isFirst = true ∨ separator = 0 then name else name ++ [Char.ofNat separator.toNat]) =
      name ++ if isFirst then [] else (separatorText separator).toList := by
  rw [toList_separatorText]
  by_cases hseparator : separator = 0 <;> cases isFirst <;> simp [hseparator]

theorem appendParts_of_ok {cursor next : Cursor} {index : Compressed}
    (h : cursor.readCompressed = (.ok index, next)) (heap : BlobHeap) (separator : UInt8)
    (isFirst : Bool) (name : List Char) :
    appendParts heap separator isFirst name cursor = (do
      let blob ← heap.get index.value
      let mark := if isFirst then [] else (separatorText separator).toList
      appendParts heap separator false (name ++ mark ++ Utf8.decodeChars blob) next) := by
  have hmore := Cursor.hasMore_of_remaining_lt (Cursor.remaining_of_readCompressed h)
  rw [appendParts, if_pos hmore]
  simp only [append_separator]
  split
  · rename_i hindex
    rw [h] at hindex
    cases hindex
  · rename_i hindex
    rw [h] at hindex
    cases hindex
    cases heap.get index.value <;> rfl

theorem appendParts_of_error {cursor next : Cursor} {e : DebugError} (hmore : cursor.hasMore = true)
    (h : cursor.readCompressed = (.error e, next)) (heap : BlobHeap) (separator : UInt8)
    (isFirst : Bool) (name : List Char) :
    appendParts heap separator isFirst name cursor = .error e := by
  rw [appendParts, if_pos hmore]
  simp only [append_separator]
  split
  · rename_i hindex
    rw [h] at hindex
    cases hindex
    rfl
  · rename_i hindex
    rw [h] at hindex
    cases hindex

/-- The induction is on the bytes that remain; the name is what was joined up to here, and before
the first part there is nothing to separate. -/
theorem appendParts_between (heap : BlobHeap) (separator : UInt8) (isFirst : Bool)
    (name : List Char) (front rest : Bytes) :
    appendParts heap separator isFirst name (between front rest) =
      (partsOf heap rest).map fun parts => name ++
        if isFirst then join separator parts
        else parts.flatMap ((separatorText separator).toList ++ ·) := by
  induction rest using Compressed.integer_induction generalizing isFirst name front with
  | nil =>
    rw [appendParts_nil, partsOf_nil]
    cases isFirst <;> simp [Except.map, join]
  | cons index rest ih =>
    rw [appendParts_of_ok (Cursor.readCompressed_between front index rest), partsOf_append]
    cases heap.get index.value with
    | error e => rfl
    | ok blob =>
      simp only [bind, Except.bind, ih]
      cases partsOf heap rest with
      | error e => rfl
      | ok parts => cases isFirst <;> simp [Except.map, pure, Except.pure, join_cons]
  | stop lead tail e rest hread =>
    have hcursor : (between front (lead :: tail)).readCompressed.1 = .error e := by
      simp only [Cursor.readCompressed, Cursor.rest_between, hread]
    rw [partsOf_of_read_error hread,
      appendParts_of_error (by simp [Cursor.hasMore_iff]) (Prod.ext hcursor rfl)]
    rfl

/-! ## Name blobs -/

theorem decode_of_le {separator : UInt8} (h : separator ≤ 0x7F) (heap : BlobHeap) (rest : Bytes) :
    decode heap (separator :: rest) = (partsOf heap rest).map fun parts =>
      (separatorText separator).intercalate (parts.map String.ofList) := by
  have hlt : separator < 0x80 := UInt8.lt_iff_toNat_lt.2 (Nat.lt_succ_of_le h)
  rw [decode, if_pos hlt]
  show (partsOf heap rest >>= fun parts => pure (String.ofList (join separator parts))) = _
  simp only [ofList_join]
  rfl

theorem decode_of_lt {separator : UInt8} (h : 0x7F < separator) (heap : BlobHeap) (rest : Bytes) :
    decode heap (separator :: rest) = .error (.malformed (.separator separator)) := by
  have hle : ¬ separator < 0x80 := fun hlt => by
    rw [UInt8.lt_iff_toNat_lt] at h hlt
    exact absurd (Nat.lt_succ_iff.1 hlt) (Nat.not_le.2 h)
  rw [decode, if_neg hle]

/-- Reading a name index by index gives what splitting it up gives. -/
theorem readName_eq_decode (heap : BlobHeap) (blob : Bytes) :
    readName heap blob = decode heap blob := by
  rcases blob with _ | ⟨separator, rest⟩
  · rfl
  have hread := Cursor.readByte_between [] separator rest
  have hstart : (Cursor.start (separator :: rest)).readInt ⟨1, false⟩ = _ := hread
  simp only [readName, List.isEmpty_cons, Bool.false_eq_true, if_false, hstart,
    Int.toNat_natCast, UInt8.ofNat_toNat]
  have hlimit : (0x7F : Int) < separator.toNat ↔ 0x7F < separator := by
    rw [UInt8.lt_iff_toNat_lt]
    exact Int.ofNat_lt
  by_cases h : 0x7F < separator
  · rw [if_pos (hlimit.2 h), decode_of_lt h]
  · rw [if_neg (mt hlimit.1 h), decode_of_le (UInt8.not_lt.1 h), appendParts_between]
    cases partsOf heap rest with
    | error e => rfl
    | ok parts => simp [Except.map, ofList_join]

theorem exists_partAt {heap : BlobHeap} {index : Nat} :
    (∃ text, PartAt heap index text) ↔ index ≤ heap.size := by
  rw [← BlobHeap.isSome_get?, Option.isSome_iff_exists]
  constructor
  · rintro ⟨text, htext⟩
    obtain ⟨blob, hblob, -⟩ := partAt_iff.1 htext
    exact ⟨blob, hblob⟩
  · rintro ⟨blob, hblob⟩
    exact ⟨Utf8.decode blob, partAt_iff.2 ⟨blob, hblob, rfl⟩⟩

theorem exists_texts {heap : BlobHeap} {indices : List Nat} :
    (∃ texts, List.Forall₂ (PartAt heap) indices texts) ↔ ∀ index ∈ indices, index ≤ heap.size := by
  induction indices with
  | nil => exact ⟨fun _ => List.forall_mem_nil _, fun _ => ⟨[], .nil⟩⟩
  | cons index more ih =>
    rw [List.forall_mem_cons, ← exists_partAt, ← ih]
    constructor
    · rintro ⟨_, hall⟩
      cases hall with
      | cons htext htexts => exact ⟨⟨_, htext⟩, ⟨_, htexts⟩⟩
    · rintro ⟨⟨text, htext⟩, ⟨texts, htexts⟩⟩
      exact ⟨text :: texts, .cons htext htexts⟩

/-- What a name blob gives whose first byte can be a separator. -/
structure NamesParts (heap : BlobHeap) (separator : UInt8) (rest : Bytes) : Prop where
  /-- The bytes behind the separator are integers, whatever their widths, and none is too large. -/
  succeeds : (∃ name, decode heap (separator :: rest) = .ok name) ↔
    ∃ indices : List Compressed, rest = indices.flatMap Compressed.bytes ∧
      ∀ index ∈ indices, index.value = 0 ∨ index.value ≤ heap.size
  /-- The name has the texts under these integers, with the separator between them. -/
  name : ∀ name, decode heap (separator :: rest) = .ok name ↔
    ∃ (indices : List Compressed) (texts : List String),
      rest = indices.flatMap Compressed.bytes ∧
        List.Forall₂ (PartAt heap) (indices.map Compressed.value) texts ∧
        name = (separatorText separator).intercalate texts
  /-- The error is that of the first part which cannot be read or is not there. -/
  fails : ∀ e, decode heap (separator :: rest) = .error e ↔
    ∃ (front : List Compressed) (tail : Bytes), rest = front.flatMap Compressed.bytes ++ tail ∧
      (∀ index ∈ front, index.value ≤ heap.size) ∧ Fault heap tail e

theorem namesParts {separator : UInt8} (h : separator ≤ 0x7F) (heap : BlobHeap) (rest : Bytes) :
    NamesParts heap separator rest := by
  have hname : ∀ name, decode heap (separator :: rest) = .ok name ↔
      ∃ (indices : List Compressed) (texts : List String),
        rest = indices.flatMap Compressed.bytes ∧
          List.Forall₂ (PartAt heap) (indices.map Compressed.value) texts ∧
          name = (separatorText separator).intercalate texts := by
    intro name
    rw [decode_of_le h, map_eq_ok_iff]
    constructor
    · rintro ⟨parts, hparts, rfl⟩
      obtain ⟨indices, hrest, htexts⟩ := partsOf_eq_ok_iff.1 hparts
      exact ⟨indices, parts.map String.ofList, hrest, htexts, rfl⟩
    · rintro ⟨indices, texts, hrest, htexts, rfl⟩
      have hself : (texts.map String.toList).map String.ofList = texts := by simp
      refine ⟨texts.map String.toList, partsOf_eq_ok_iff.2 ⟨indices, hrest, ?_⟩, ?_⟩
      · rwa [hself]
      · rw [hself]
  refine ⟨?_, hname, ?_⟩
  · have hbound (index : Compressed) :
        index.value = 0 ∨ index.value ≤ heap.size ↔ index.value ≤ heap.size :=
      or_iff_right_of_imp fun hzero => hzero ▸ Nat.zero_le _
    simp only [hname, hbound]
    constructor
    · rintro ⟨name, indices, texts, hrest, htexts, -⟩
      exact ⟨indices, hrest, List.forall_mem_map.1 (exists_texts.1 ⟨texts, htexts⟩)⟩
    · rintro ⟨indices, hrest, hindices⟩
      obtain ⟨texts, htexts⟩ := exists_texts.2 (List.forall_mem_map.2 hindices)
      exact ⟨_, indices, texts, hrest, htexts, rfl⟩
  · intro e
    rw [decode_of_le h, ← partsOf_eq_error_iff]
    cases partsOf heap rest with
    | error e' => simp [Except.map]
    | ok parts => simp [Except.map]

/-- **The name in a blob**, over any heap. Joining the parts while they are read makes no
difference. -/
theorem decode_parts (heap : BlobHeap) :
    decode heap [] = .error .empty ∧
    (∀ lead rest, 0x7F < lead →
      decode heap (lead :: rest) = .error (.malformed (.separator lead))) ∧
    (∀ separator rest, separator ≤ 0x7F → NamesParts heap separator rest) ∧
    ∀ blob, readName heap blob = decode heap blob :=
  ⟨decode_nil heap, fun _ rest h => decode_of_lt h heap rest,
    fun _ rest h => namesParts h heap rest, readName_eq_decode heap⟩

/-- Two parts, the second of them under a two-byte index; a part that is not in the heap, in front
of a byte with which no index begins; and a byte that is no separator. -/
theorem decode_parts_threeBlobs :
    let heap := (BlobHeap.empty.add [0x61, 0xFF]).2
    decode heap [0x2F, 0x00, 0x80, 0x01] = .ok "/a\uFFFD" ∧
      decode heap [0x2F, 0x01, 0x02, 0xFF] = .error .outOfBounds ∧
      decode heap [0x80, 0xFF] = .error (.malformed (.separator 0x80)) := by
  intro heap
  obtain ⟨-, hseparator, hparts, -⟩ := decode_parts heap
  refine ⟨?_, ?_, hseparator 0x80 [0xFF] (by decide)⟩
  · have hlossy : Utf8.decode [0x61, 0xFF] = "a\uFFFD" := by decide +kernel
    have htext : PartAt heap 1 "a\uFFFD" := hlossy ▸ @PartAt.kept heap 0 [0x61, 0xFF] rfl
    refine ((hparts 0x2F [0x00, 0x80, 0x01] (by decide)).name _).2
      ⟨[⟨.one, 0, by decide⟩, ⟨.two, 1, by decide⟩], ["", "a\uFFFD"], rfl, ?_, by decide⟩
    exact .cons .empty (.cons htext .nil)
  · refine ((hparts 0x2F [0x01, 0x02, 0xFF] (by decide)).fails _).2
      ⟨[⟨.one, 1, by decide⟩], [0x02, 0xFF], rfl, by decide, ?_⟩
    have hsize : heap.size < 2 := by decide
    exact @Fault.unresolved heap ⟨.one, 2, by decide⟩ [0xFF] hsize

end PortablePdb.DocumentName
