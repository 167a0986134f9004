import PortablePdb.Query

/-!
# Lookups up to the one that ends them

Many parts of a query go through a row of lookups that is known beforehand, and end at the first
one whose answer allows no other or makes the others needless. The lookups that are made are then
the row up to and including that one.

* `upTo_append`: a row behind another is only begun if nothing ends the other.
-/

namespace PortablePdb

/-- Whether a lookup fails. -/
def Store.fails (store : Store) (lookup : Lookup) : Bool :=
  match store lookup with
  | .ok _ => false
  | .error _ => true

theorem Store.fails_of_ok {store : Store} {lookup : Lookup} {answer : lookup.Answer}
    (h : store lookup = .ok answer) : store.fails lookup = false := by
  simp only [fails, h]

theorem Store.fails_of_error {store : Store} {lookup : Lookup} {e : DebugError}
    (h : store lookup = .error e) : store.fails lookup = true := by
  simp only [fails, h]

namespace Query

/-- The lookups of a row up to and including the first that ends it, or all of them. -/
def upTo (ends : Lookup → Bool) (row : List Lookup) : List Lookup :=
  row.take (row.findIdx ends + 1)

variable {ends : Lookup → Bool} {lookup : Lookup}

@[simp] theorem upTo_nil (ends : Lookup → Bool) : upTo ends [] = [] := rfl

/-- The lookup that ends a row is still made. -/
theorem upTo_cons_of_pos (h : ends lookup = true) (more : List Lookup) :
    upTo ends (lookup :: more) = [lookup] := by
  simp [upTo, List.findIdx_cons, h]

theorem upTo_cons_of_neg (h : ends lookup = false) (more : List Lookup) :
    upTo ends (lookup :: more) = lookup :: upTo ends more := by
  simp [upTo, List.findIdx_cons, h]

theorem upTo_append {before : List Lookup} (h : ∀ lookup ∈ before, ends lookup = false)
    (more : List Lookup) : upTo ends (before ++ more) = before ++ upTo ends more := by
  induction before with
  | nil => rfl
  | cons lookup before ih =>
    have hbefore : ∀ other ∈ before, ends other = false := fun other hother =>
      h other (List.mem_cons_of_mem _ hother)
    rw [List.cons_append, upTo_cons_of_neg (h lookup List.mem_cons_self), ih hbefore,
      List.cons_append]

theorem upTo_eq_self {row : List Lookup} (h : ∀ lookup ∈ row, ends lookup = false) :
    upTo ends row = row := by
  have hrow := upTo_append h []
  rwa [upTo_nil, List.append_nil] at hrow

theorem upTo_prefix (ends : Lookup → Bool) (row : List Lookup) : upTo ends row <+: row :=
  List.take_prefix _ row

end Query

end PortablePdb
