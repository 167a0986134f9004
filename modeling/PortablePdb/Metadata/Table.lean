import Std.Data.TreeMap
import PortablePdb.Handle

/-!
# Tables

A table keeps rows under their tokens and goes through them in the order of the tokens. A row that
is added gets the row id behind the number of rows that are there. Whatever was kept under its token
would be replaced, but nothing ever is: the row ids of a table are 1, 2, 3, … up to its size, and
adding a row keeps them so (`RowMap.Numbered.insert`). A table never holds more rows than there are
row ids.

* `get?_add`: an added row is found under the handle that adding gave.
* `get?_add_of_ne`: adding never changes another row.
* `size_add`: a table grows by one row.
-/

namespace PortablePdb

/-- Rows under their tokens, in the order of the tokens. -/
abbrev RowMap (Row : Type) := Std.TreeMap Token Row

namespace RowMap

variable {table : TableId} {Row : Type} {rows : RowMap Row}

/-- The row ids of some rows of a table are those from 1 up to the number of rows. -/
structure Numbered (table : TableId) (rows : RowMap Row) : Prop where
  mem_iff : ∀ token, token ∈ rows ↔
    token.table = table.code ∧ 0 < token.row ∧ token.row ≤ rows.size
  size_lt : rows.size < rowLimit

theorem numbered_empty : Numbered table (∅ : RowMap Row) where
  mem_iff token := by
    rw [Std.TreeMap.size_emptyc]
    constructor
    · intro h
      exact absurd h Std.TreeMap.not_mem_emptyc
    · rintro ⟨-, hpos, hle⟩
      omega
  size_lt := Nat.succ_pos _

namespace Numbered

/-- In a numbered table there is a row for each row id up to the size. -/
theorem handle_mem_iff (h : Numbered table rows) (handle : Handle table) :
    handle.token ∈ rows ↔ handle.rid ≤ rows.size := by
  rw [h.mem_iff]
  exact ⟨fun hmem => hmem.2.2, fun hle => ⟨rfl, handle.rid_valid.1, hle⟩⟩

variable {next : Handle table}

/-- Nothing is kept yet under the token of the next row. -/
theorem next_notMem (h : Numbered table rows) (hnext : next.rid = rows.size + 1) :
    next.token ∉ rows := by
  rw [h.handle_mem_iff]
  omega

/-- A row with the next row id does not take the place of another one. -/
theorem size_insert (h : Numbered table rows) (hnext : next.rid = rows.size + 1) (row : Row) :
    (rows.insert next.token row).size = rows.size + 1 := by
  rw [Std.TreeMap.size_insert, if_neg]
  rw [Std.TreeMap.contains_iff_mem]
  exact h.next_notMem hnext

/-- The step by which a table grows: the row id that comes next is counted on from the number of
rows, so the row ids stay without a gap and nothing is replaced. -/
theorem insert (h : Numbered table rows) (hnext : next.rid = rows.size + 1) (row : Row) :
    Numbered table (rows.insert next.token row) where
  mem_iff token := by
    rw [Std.TreeMap.mem_insert, h.size_insert hnext, Std.compare_eq_iff_eq, h.mem_iff]
    constructor
    · rintro (rfl | ⟨htable, hpos, hle⟩)
      · exact ⟨rfl, next.rid_valid.1, Nat.le_of_eq hnext⟩
      · exact ⟨htable, hpos, Nat.le_succ_of_le hle⟩
    · rintro ⟨htable, hpos, hle⟩
      rcases Nat.lt_or_ge rows.size token.row with hlt | hold
      · left
        have hrow : token.row = next.rid := by omega
        exact (Handle.token_eq_of htable hrow).symm
      · exact Or.inr ⟨htable, hpos, hold⟩
  size_lt := by
    rw [h.size_insert hnext, ← hnext]
    exact next.rid_valid.2

end Numbered

end RowMap

/-- The rows of a metadata table. -/
structure Table (table : TableId) (Row : Type) where
  rows : RowMap Row
  numbered : rows.Numbered table

namespace Table

variable {table : TableId} {Row : Type}

def empty : Table table Row := ⟨∅, RowMap.numbered_empty⟩

def size (rows : Table table Row) : Nat := rows.rows.size

/-- The handle that the next row will have, if there is one left. -/
def nextHandle? (rows : Table table Row) : Option (Handle table) := Handle.ofRid? (rows.size + 1)

/-- Adds a row under the next token, if there is one left. -/
def add? (rows : Table table Row) (row : Row) : Option (Handle table × Table table Row) :=
  match hnext : rows.nextHandle? with
  | none => none
  | some handle => some (handle, ⟨rows.rows.insert handle.token row,
      rows.numbered.insert (Handle.ofRid?_eq_some_iff.1 hnext) row⟩)

def find? (rows : Table table Row) (token : Token) : Option Row := rows.rows[token]?

def get? (rows : Table table Row) (handle : Handle table) : Option Row := rows.find? handle.token

/-- The rows with their handles, in the order of their tokens. -/
def entries (rows : Table table Row) : List (Handle table × Row) :=
  rows.rows.toList.filterMap fun (token, row) => (Handle.ofRid? token.row).map (·, row)

def handles (rows : Table table Row) : List (Handle table) := rows.entries.map Prod.fst

/-- There are never more rows than row ids. -/
theorem size_lt (rows : Table table Row) : rows.size < rowLimit := rows.numbered.size_lt

/-- What adding a row does: it is put under the next token. -/
theorem of_add? {rows next : Table table Row} {row : Row} {handle : Handle table}
    (h : rows.add? row = some (handle, next)) :
    handle.rid = rows.size + 1 ∧ next.rows = rows.rows.insert handle.token row := by
  unfold add? at h
  split at h
  · cases h
  · rename_i found hnext
    cases h
    exact ⟨Handle.ofRid?_eq_some_iff.1 hnext, rfl⟩

theorem get?_add {rows next : Table table Row} {row : Row} {handle : Handle table}
    (h : rows.add? row = some (handle, next)) : next.get? handle = some row := by
  rw [get?, find?, (of_add? h).2, Std.TreeMap.getElem?_insert_self]

/-- Adding a row does not change what any other handle finds. -/
theorem get?_add_of_ne {rows next : Table table Row} {row : Row} {handle other : Handle table}
    (h : rows.add? row = some (handle, next)) (hne : other ≠ handle) :
    next.get? other = rows.get? other := by
  have htoken : compare handle.token other.token ≠ .eq := by
    rw [Ne, Std.compare_eq_iff_eq]
    exact fun hsame => hne (Handle.token_injective hsame.symm)
  rw [get?, find?, (of_add? h).2, Std.TreeMap.getElem?_insert, if_neg htoken]
  rfl

/-- Row ids are given in order, without gaps. -/
theorem size_add {rows next : Table table Row} {row : Row} {handle : Handle table}
    (h : rows.add? row = some (handle, next)) :
    next.size = rows.size + 1 ∧ handle.rid = rows.size + 1 := by
  obtain ⟨hrid, hrows⟩ := of_add? h
  refine ⟨?_, hrid⟩
  rw [size, hrows]
  exact rows.numbered.size_insert hrid row

/-- A row is found under the handles up to the size of the table, and under no others. -/
theorem isSome_get?_iff {rows : Table table Row} {handle : Handle table} :
    (rows.get? handle).isSome = true ↔ handle.rid ≤ rows.size := by
  rw [get?, find?, ← Std.TreeMap.mem_iff_isSome_getElem?]
  exact rows.numbered.handle_mem_iff handle

theorem get?_eq_none_iff {rows : Table table Row} {handle : Handle table} :
    rows.get? handle = none ↔ rows.size < handle.rid := by
  rw [← Option.not_isSome_iff_eq_none, isSome_get?_iff, Nat.not_le]

end Table

end PortablePdb
