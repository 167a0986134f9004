import PortablePdb.Locals

/-!
# The range of a scope

A scope covers the offsets from its start on, as many as its length says. The offset at which it
stops is not among them, and no stop is beyond the greatest offset. So the greatest offset is in no
scope, not even in one that covers it (`not_contains_lastOffset`); all other offsets are in exactly
the scopes that cover them (`contains_iff_covers`).

* `contains_range`: the offsets of a scope, and when they are exactly those that it covers.
-/

namespace PortablePdb.LocalScope

/-- Whether an offset is in the range of a scope, which may reach beyond the greatest offset. -/
def Covers (scope : LocalScope) (offset : UInt32) : Prop :=
  scope.start.toNat ≤ offset.toNat ∧ offset.toNat < scope.start.toNat + scope.length.toNat

instance (scope : LocalScope) (offset : UInt32) : Decidable (scope.Covers offset) :=
  inferInstanceAs (Decidable (_ ∧ _))

theorem toNat_le_lastOffset (offset : UInt32) : offset.toNat ≤ lastOffset := by
  have hlt := offset.toNat_lt
  simp only [lastOffset]
  omega

/-- The stop cuts off the greatest offset and nothing else. -/
theorem contains_iff_covers (scope : LocalScope) (offset : UInt32) :
    scope.contains offset = true ↔ scope.Covers offset ∧ offset.toNat ≠ lastOffset := by
  have hlast := toNat_le_lastOffset offset
  rw [contains_iff, UInt32.le_iff_toNat_le, UInt32.lt_iff_toNat_lt, stop_toNat, Covers]
  omega

theorem not_contains_lastOffset (scope : LocalScope) : scope.contains 0xFFFFFFFF = false := by
  rw [← Bool.not_eq_true, contains_iff_covers]
  exact fun h => h.2 rfl

/-- **A scope contains the offsets that it covers, except the greatest one**, and therefore all of
them if its range ends in front of that one. -/
theorem contains_range (scope : LocalScope) :
    (∀ offset, scope.contains offset = true ↔ scope.Covers offset ∧ offset.toNat ≠ lastOffset) ∧
      ((∀ offset, scope.contains offset = true ↔ scope.Covers offset) ↔
        scope.start.toNat + scope.length.toNat ≤ lastOffset) := by
  refine ⟨contains_iff_covers scope, ?_, ?_⟩
  · intro h
    have hnot : ¬ scope.Covers 0xFFFFFFFF := by
      rw [← h, not_contains_lastOffset]
      exact Bool.false_ne_true
    have hstart := toNat_le_lastOffset scope.start
    have hlast : (0xFFFFFFFF : UInt32).toNat = lastOffset := rfl
    rw [Covers, hlast] at hnot
    omega
  · intro h offset
    rw [contains_iff_covers, and_iff_left_iff_imp]
    rintro ⟨-, hlt⟩
    omega

/-- A scope that covers the greatest offset alone contains nothing. -/
theorem not_contains_iff_covers_last :
    let scope : LocalScope := ⟨⟨1, by decide⟩, 0, 1, 0, 0xFFFFFFFF, 1⟩
    ¬ (scope.contains 0xFFFFFFFF = true ↔ scope.Covers 0xFFFFFFFF) := by decide

end PortablePdb.LocalScope
