import Mathlib.Data.List.Sort
import PortablePdb.Metadata.Table

/-!
# Tables as logs

A table is a map from tokens to rows, and a log is a list. Since the row ids of a table are 1, 2,
3, … without a gap, the two are the same: the rows in the order of their tokens are the rows in the
order in which they were added (`log`). Adding a row appends it to the log (`log_add?`), a lookup in
the map is one in the log (`get?_eq_getElem?_log`), and so a table that only had rows added still
finds whatever it found (`Extends.get?`).
-/

namespace PortablePdb

theorem Handle.rid_injective {table : TableId} :
    Function.Injective (Handle.rid : Handle table → Nat) := fun _ _ => Handle.ext

namespace Table

variable {table : TableId} {Row : Type}

/-- The rows of a table in the order of their tokens. -/
def log (rows : Table table Row) : List Row := rows.entries.map Prod.snd

/-! ## Handles -/

/-- The keys of a table are the tokens of its rows. -/
theorem map_rid_handles_eq_keys (rows : Table table Row) :
    rows.handles.map Handle.rid = rows.rows.keys.map Token.row := by
  rw [handles, entries, ← Std.TreeMap.map_fst_toList_eq_keys, List.map_map, List.map_map,
    List.map_filterMap, ← List.filterMap_eq_map]
  refine List.filterMap_congr fun entry hentry => ?_
  obtain ⟨token, row⟩ := entry
  have hkey : token ∈ rows.rows := by
    rw [Std.TreeMap.mem_iff_isSome_getElem?, Std.TreeMap.mem_toList_iff_getElem?_eq_some.1 hentry]
    rfl
  obtain ⟨-, hpos, -⟩ := (rows.numbered.mem_iff token).1 hkey
  simp [Handle.ofRid?, hpos, token.row_lt]

theorem mem_map_row_keys {rows : Table table Row} {n : Nat} :
    n ∈ rows.rows.keys.map Token.row ↔ 0 < n ∧ n ≤ rows.size := by
  rw [List.mem_map]
  constructor
  · rintro ⟨token, hkey, rfl⟩
    exact ((rows.numbered.mem_iff token).1 (Std.TreeMap.mem_keys.1 hkey)).2
  · rintro ⟨hpos, hle⟩
    have hlt : n < rowLimit := Nat.lt_of_le_of_lt hle rows.size_lt
    refine ⟨⟨table.code, n, hlt⟩, ?_, rfl⟩
    exact Std.TreeMap.mem_keys.2 ((rows.numbered.mem_iff _).2 ⟨rfl, hpos, hle⟩)

/-- The handles of a table are numbered from 1 on, in order. -/
theorem map_rid_handles (rows : Table table Row) :
    rows.handles.map Handle.rid = List.range' 1 rows.size := by
  have hsorted : (rows.rows.keys.map Token.row).Pairwise (· < ·) := by
    refine List.pairwise_map.2 (Std.TreeMap.ordered_keys.imp_of_mem fun {a b} ha hb hlt => ?_)
    have htable {token : Token} (hkey : token ∈ rows.rows.keys) : token.table = table.code :=
      ((rows.numbered.mem_iff token).1 (Std.TreeMap.mem_keys.1 hkey)).1
    exact (Token.compare_eq_lt_iff ((htable ha).trans (htable hb).symm)).1 hlt
  rw [map_rid_handles_eq_keys]
  refine hsorted.eq_of_mem_iff (List.pairwise_lt_range' 1) fun n => ?_
  rw [mem_map_row_keys, List.mem_range'_1]
  omega

@[simp] theorem length_handles (rows : Table table Row) : rows.handles.length = rows.size := by
  rw [← List.length_map Handle.rid, map_rid_handles, List.length_range']

theorem mem_handles {rows : Table table Row} {handle : Handle table} :
    handle ∈ rows.handles ↔ handle.rid ≤ rows.size := by
  rw [← List.mem_map_of_injective Handle.rid_injective, map_rid_handles, List.mem_range'_1]
  have := handle.rid_valid.1
  omega

/-- A new row is behind all others. -/
theorem handles_add? {rows next : Table table Row} {row : Row} {handle : Handle table}
    (h : rows.add? row = some (handle, next)) : next.handles = rows.handles ++ [handle] := by
  obtain ⟨hsize, hrid⟩ := size_add h
  apply List.map_injective_iff.2 Handle.rid_injective
  rw [List.map_append, map_rid_handles, map_rid_handles, hsize, List.range'_concat,
    List.map_singleton, hrid, Nat.one_mul, Nat.add_comm 1]

/-! ## Rows -/

theorem map_fst_entries (rows : Table table Row) : rows.entries.map Prod.fst = rows.handles := rfl

/-- The entries of a table are what its handles find. -/
theorem mem_entries_iff {rows : Table table Row} {handle : Handle table} {row : Row} :
    (handle, row) ∈ rows.entries ↔ rows.get? handle = some row := by
  rw [entries, List.mem_filterMap, get?, find?, ← Std.TreeMap.mem_toList_iff_getElem?_eq_some]
  constructor
  · rintro ⟨⟨token, found⟩, hentry, hhandle⟩
    obtain ⟨other, hother, hsame⟩ := Option.map_eq_some_iff.1 hhandle
    cases hsame
    have hkey : token ∈ rows.rows := by
      rw [Std.TreeMap.mem_iff_isSome_getElem?,
        Std.TreeMap.mem_toList_iff_getElem?_eq_some.1 hentry]
      rfl
    obtain ⟨htable, -, -⟩ := (rows.numbered.mem_iff token).1 hkey
    rwa [← Handle.token_eq_of htable (Handle.ofRid?_eq_some_iff.1 hother).symm]
  · intro hentry
    exact ⟨_, hentry, by simp [Handle.token]⟩

theorem entries_eq (rows : Table table Row) :
    rows.entries = rows.handles.filterMap fun handle => (rows.get? handle).map (handle, ·) := by
  conv_lhs => rw [← List.filterMap_some (l := rows.entries)]
  rw [handles, List.filterMap_map]
  refine List.filterMap_congr fun entry hentry => ?_
  obtain ⟨handle, row⟩ := entry
  simp [mem_entries_iff.1 hentry]

/-- Adding a row is appending it, since its token comes behind all others. -/
theorem entries_add? {rows next : Table table Row} {row : Row} {handle : Handle table}
    (h : rows.add? row = some (handle, next)) : next.entries = rows.entries ++ [(handle, row)] := by
  have hold : ∀ other ∈ rows.handles, next.get? other = rows.get? other := by
    intro other hother
    refine get?_add_of_ne h fun hsame => ?_
    have hle := mem_handles.1 hother
    rw [hsame, (size_add h).2] at hle
    omega
  rw [entries_eq, handles_add? h, List.filterMap_append, entries_eq rows]
  congr 1
  · exact List.filterMap_congr fun other hother => by rw [hold other hother]
  · simp [get?_add h]

/-- To add a row to a table is to append it to the log. -/
theorem log_add? {rows next : Table table Row} {row : Row} {handle : Handle table}
    (h : rows.add? row = some (handle, next)) : next.log = rows.log ++ [row] := by
  rw [log, entries_add? h, List.map_append]
  rfl

theorem entries_eq_zip (rows : Table table Row) : rows.entries = rows.handles.zip rows.log :=
  List.zip_of_prod rfl rfl

theorem length_log (rows : Table table Row) : rows.log.length = rows.size := by
  rw [log, List.length_map, ← List.length_map Prod.fst, ← handles, length_handles]

/-- A lookup in the map is a lookup in the log: the row with row id `n` is the `n`-th. -/
theorem get?_eq_getElem?_log (rows : Table table Row) (handle : Handle table) :
    rows.get? handle = rows.log[handle.rid - 1]? := by
  have hpos := handle.rid_valid.1
  rcases Nat.lt_or_ge rows.size handle.rid with hbehind | hle
  · rw [get?_eq_none_iff.2 hbehind, List.getElem?_eq_none]
    rw [length_log]
    omega
  · have hlt : handle.rid - 1 < rows.entries.length := by
      have hlength := rows.length_log
      rw [log, List.length_map] at hlength
      omega
    have hrid : (rows.handles.map Handle.rid)[handle.rid - 1]? = some handle.rid := by
      rw [map_rid_handles, List.getElem?_range' (by omega)]
      congr 1
      omega
    obtain ⟨⟨found, row⟩, hentry⟩ : ∃ entry, rows.entries[handle.rid - 1]? = some entry :=
      ⟨_, List.getElem?_eq_getElem hlt⟩
    rw [handles, List.map_map, List.getElem?_map, hentry, Option.map_some, Option.some_inj] at hrid
    obtain rfl : found = handle := Handle.ext hrid
    rw [log, List.getElem?_map, hentry, Option.map_some]
    exact mem_entries_iff.1 (List.mem_of_getElem? hentry)

/-- Nor is anything found under the token that would come behind the last possible row. -/
theorem find?_ofParts (rows : Table table Row) {rid : Nat} (h : rid < rowLimit) :
    rows.find? (.ofParts table (rid + 1)) = rows.log[rid]? := by
  rcases Nat.lt_or_ge (rid + 1) rowLimit with hlt | hlast
  · have htoken : Token.ofParts table (rid + 1) =
        (⟨rid + 1, Nat.succ_pos _, hlt⟩ : Handle table).token := by
      simp [Token.ofParts, Handle.token, Nat.mod_eq_of_lt hlt]
    rw [htoken]
    exact rows.get?_eq_getElem?_log _
  · have hsize := rows.size_lt
    have hrow : (Token.ofParts table (rid + 1)).row = 0 := by
      have hlimit : rid + 1 = rowLimit := by omega
      show (rid + 1) % rowLimit = 0
      rw [hlimit, Nat.mod_self]
    have hnone : Token.ofParts table (rid + 1) ∉ rows.rows := by
      rw [rows.numbered.mem_iff, hrow]
      omega
    rw [find?, Std.TreeMap.getElem?_eq_none hnone, List.getElem?_eq_none]
    rw [length_log]
    omega

/-! ## Tables that grow -/

variable {old new : Table table Row}

/-- A table extends another one if it begins with the rows of that one. -/
def Extends (old new : Table table Row) : Prop := old.log <+: new.log

theorem Extends.refl (rows : Table table Row) : rows.Extends rows := List.prefix_rfl

theorem Extends.trans {middle : Table table Row} (h : old.Extends middle)
    (h' : middle.Extends new) : old.Extends new := List.IsPrefix.trans h h'

/-- What was found stays. -/
theorem Extends.get? (h : old.Extends new) {handle : Handle table} {row : Row}
    (hrow : old.get? handle = some row) : new.get? handle = some row := by
  obtain ⟨more, hmore⟩ := h
  rw [get?_eq_getElem?_log] at hrow ⊢
  have hlt : handle.rid - 1 < old.log.length := (List.getElem?_eq_some_iff.1 hrow).1
  rw [← hmore, List.getElem?_append_left hlt, hrow]

theorem extends_add? {rows next : Table table Row} {row : Row} {handle : Handle table}
    (h : rows.add? row = some (handle, next)) : rows.Extends next := by
  rw [Extends, log_add? h]
  exact List.prefix_append _ _

/-! ## Room for rows -/

/-- A table has room for some rows if there are that many row ids left. -/
def HasRoom (rows : Table table Row) (count : Nat) : Prop := rows.size + count < rowLimit

instance (rows : Table table Row) (count : Nat) : Decidable (rows.HasRoom count) :=
  inferInstanceAs (Decidable (_ < _))

theorem exists_nextHandle? {rows : Table table Row} (h : rows.HasRoom 1) :
    ∃ handle, rows.nextHandle? = some handle :=
  Option.isSome_iff_exists.1 (Handle.isSome_ofRid?.2 ⟨Nat.succ_pos _, h⟩)

/-- Where there is room for a row, it can be added. -/
theorem exists_add? {rows : Table table Row} (h : rows.HasRoom 1) (row : Row) :
    ∃ handle next, rows.add? row = some (handle, next) := by
  obtain ⟨handle, hnext⟩ := exists_nextHandle? h
  unfold add?
  split
  · rename_i hnone
    rw [hnone] at hnext
    cases hnext
  · exact ⟨_, _, rfl⟩

end Table

end PortablePdb
