import PortablePdb.Bytes
import PortablePdb.Text.Hexadecimal

/-!
# Globally unique identifiers

An identifier has 128 bits in four fields. Text shows the fields in order, most significant digit
first. Storage turns the first three fields around, least significant byte first.

* `ofBytes?_bytes`: an identifier is read back from its stored bytes.
-/

namespace PortablePdb

/-- A globally unique identifier. -/
structure Guid where
  first : UInt32
  second : UInt16
  third : UInt16
  fourth : UInt64
  deriving DecidableEq

namespace Guid

def bytes (guid : Guid) : Bytes :=
  toLittleEndian 4 guid.first.toNat ++ toLittleEndian 2 guid.second.toNat ++
    toLittleEndian 2 guid.third.toNat ++ toBigEndian 8 guid.fourth.toNat

def ofBytes? (bytes : Bytes) : Option Guid :=
  if bytes.length = 16 then
    some {
      first := UInt32.ofNat (littleEndian (bytes.take 4))
      second := UInt16.ofNat (littleEndian ((bytes.drop 4).take 2))
      third := UInt16.ofNat (littleEndian ((bytes.drop 6).take 2))
      fourth := UInt64.ofNat (littleEndian (bytes.drop 8).reverse) }
  else none

def render (guid : Guid) : String :=
  let tail := Hexadecimal.padded 16 guid.fourth.toNat
  let groups := [Hexadecimal.padded 8 guid.first.toNat, Hexadecimal.padded 4 guid.second.toNat,
    Hexadecimal.padded 4 guid.third.toNat, String.ofList (tail.toList.take 4),
    String.ofList (tail.toList.drop 4)]
  "-".intercalate groups

def ofText? (text : String) : Option Guid :=
  match text.toList.splitOn '-' with
  | [first, second, third, fourth, fifth] => do
    guard ([first, second, third, fourth, fifth].map List.length = [8, 4, 4, 4, 12])
    return {
      first := UInt32.ofNat (← Hexadecimal.toNat? first)
      second := UInt16.ofNat (← Hexadecimal.toNat? second)
      third := UInt16.ofNat (← Hexadecimal.toNat? third)
      fourth := UInt64.ofNat (← Hexadecimal.toNat? (fourth ++ fifth)) }
  | _ => none

theorem ofBytes?_bytes (guid : Guid) : ofBytes? guid.bytes = some guid := by
  obtain ⟨first, second, third, fourth⟩ := guid
  have hfirst := littleEndian_ofNat 4 first.toNat first.toNat_lt
  have hsecond := littleEndian_ofNat 2 second.toNat second.toNat_lt
  have hthird := littleEndian_ofNat 2 third.toNat third.toNat_lt
  have hfourth := littleEndian_ofNat 8 fourth.toNat fourth.toNat_lt
  have hend {size n k : Nat} (h : size ≤ k) : (toLittleEndian size n).drop k = [] :=
    List.drop_eq_nil_of_le (by simpa using h)
  simp [ofBytes?, bytes, toBigEndian, List.drop_append, hend, hfirst, hsecond, hthird, hfourth]

end Guid

end PortablePdb
