import PortablePdb.TableId
import PortablePdb.Text.Hexadecimal

/-!
# Tokens

A token names a row of a metadata table in 32 bits: the table in the top byte, the row id in the
low 24 bits. Row ids count from 1, so a token with row 0 names nothing and is called nil.

* `ofValue_value`, `value_ofValue`: tokens are exactly the 32-bit numbers.
* `value_lt`: a token fits into 32 bits.

Tokens are ordered as numbers, so the rows of one table are in the order of their row ids.
-/

namespace PortablePdb

/-- The number of row ids a token can hold, the nil row included. -/
def rowLimit : Nat := 0x1000000

/-- The name of a table row: which table, and which row of it. -/
structure Token where
  table : UInt8
  row : Nat
  row_lt : row < rowLimit
  deriving DecidableEq

namespace Token

def value (token : Token) : Nat := token.table.toNat * rowLimit + token.row

/-- The token of a 32-bit number: its top byte and its low 24 bits. -/
def ofValue (value : Nat) : Token where
  table := UInt8.ofNat (value / rowLimit)
  row := value % rowLimit
  row_lt := Nat.mod_lt _ (by decide)

/-- The token of a row of a table; only the low 24 bits of the row id count. -/
def ofParts (table : TableId) (row : Nat) : Token where
  table := table.code
  row := row % rowLimit
  row_lt := Nat.mod_lt _ (by decide)

def tableId? (token : Token) : Option TableId := TableId.ofCode? token.table

/-- A nil token names no row. -/
def isNil (token : Token) : Bool := token.row == 0

/-- The text of a token: its number in eight hexadecimal digits. -/
def render (token : Token) : String := s!"0x{Hexadecimal.padded 8 token.value}"

def inspect (token : Token) : String :=
  s!"Token({token.render}, table: 0x{Hexadecimal.padded 2 token.table.toNat}, row: {token.row})"

instance : Ord Token where
  compare a b := compare a.value b.value

theorem compare_eq (a b : Token) : compare a b = compare a.value b.value := rfl

instance : Std.TransOrd Token where
  eq_swap {a b} := by
    rw [compare_eq, compare_eq]
    exact Std.OrientedCmp.eq_swap
  isLE_trans {a b c} := by
    rw [compare_eq, compare_eq, compare_eq]
    exact Std.TransCmp.isLE_trans

theorem value_lt (token : Token) : token.value < 0x100000000 := by
  have := token.row_lt
  have := token.table.toNat_lt
  simp only [value, rowLimit] at *
  omega

/-- A token and its number determine each other. -/
theorem ofValue_value (token : Token) : ofValue token.value = token := by
  obtain ⟨table, row, h⟩ := token
  have hrow : (table.toNat * rowLimit + row) % rowLimit = row := by
    rw [Nat.mul_comm, Nat.mul_add_mod, Nat.mod_eq_of_lt h]
  have htable : (table.toNat * rowLimit + row) / rowLimit = table.toNat := by
    rw [Nat.mul_comm, Nat.mul_add_div (by decide), Nat.div_eq_of_lt h, Nat.add_zero]
  simp [ofValue, value, hrow, htable]

/-- Tokens with the same number are the same. -/
theorem value_injective {a b : Token} (h : a.value = b.value) : a = b := by
  rw [← ofValue_value a, h, ofValue_value]

instance : Std.LawfulEqOrd Token where
  eq_of_compare {a b} h := by
    rw [compare_eq, Nat.compare_eq_eq] at h
    exact value_injective h

theorem value_ofValue {n : Nat} (h : n < 0x100000000) : (ofValue n).value = n := by
  have hdiv : n / rowLimit < 256 := by simp only [rowLimit]; omega
  simp only [value, ofValue, UInt8.toNat_ofNat', Nat.mod_eq_of_lt hdiv]
  exact Nat.div_add_mod' n rowLimit

/-- Behind another token of its table is a token with a greater row id. -/
theorem compare_eq_lt_iff {a b : Token} (h : a.table = b.table) :
    compare a b = .lt ↔ a.row < b.row := by
  rw [compare_eq, Nat.compare_eq_lt, value, value, h]
  exact Nat.add_lt_add_iff_left

end Token

end PortablePdb
