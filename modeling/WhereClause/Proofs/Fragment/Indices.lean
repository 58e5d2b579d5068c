import Mathlib.Algebra.Group.Nat.Defs
import WhereClause.Fragment

/-!
# Consecutive indices

The indices of some values one after the other are words of 64 bits that count on from the first one (`indices`). As
words they add up without a condition (`indices_add`); as numbers they count on up to the last index that there is
(`map_toNat_indices`).
-/

namespace WhereClause

/-- So many indices one after the other, from a first one. -/
def indices (start : UInt64) (count : Nat) : List UInt64 := (List.range count).map fun i => start + .ofNat i

example : indices 18446744073709551614 3 = [18446744073709551614, 18446744073709551615, 0] := by decide +kernel

section

variable {start : UInt64} {count : Nat}

@[simp] theorem length_indices (start : UInt64) (count : Nat) : (indices start count).length = count := by
  rw [indices, List.length_map, List.length_range]

@[simp] theorem indices_zero (start : UInt64) : indices start 0 = [] := rfl

/-- An index and the one that many places behind it. -/
theorem add_ofNat_add (start : UInt64) (m n : Nat) : start + .ofNat (m + n) = start + .ofNat m + .ofNat n := by
  rw [UInt64.ofNat_add, UInt64.add_assoc]

/-- Indices come one after the other. -/
theorem indices_add (start : UInt64) (m n : Nat) :
    indices start (m + n) = indices start m ++ indices (start + .ofNat m) n := by
  unfold indices
  rw [List.range_add, List.map_append, List.map_map]
  congr 2
  exact funext fun i => add_ofNat_add start m i

/-- Behind the first index come the others. -/
theorem indices_succ (start : UInt64) (n : Nat) : indices start (n + 1) = start :: indices (start + 1) n := by
  rw [Nat.add_comm, indices_add]
  show [start + 0] ++ indices (start + 1) n = start :: indices (start + 1) n
  rw [UInt64.add_zero, List.singleton_append]

/-- The index at a position is the first one and the position on top. -/
theorem getElem_indices {i : Nat} (h : i < (indices start count).length) :
    (indices start count)[i] = start + .ofNat i := by
  simp only [indices, List.getElem_map, List.getElem_range]

/-! ## Indices as numbers -/

/-- Where counting on does not pass the last index, it is that of numbers. -/
theorem toNat_add_ofNat (h : start.toNat + count < 2 ^ 64) : (start + .ofNat count).toNat = start.toNat + count := by
  rw [UInt64.toNat_add, UInt64.toNat_ofNat', Nat.mod_eq_of_lt (Nat.lt_of_le_of_lt (Nat.le_add_left _ _) h),
    Nat.mod_eq_of_lt h]

/-- Indices that do not pass the last one are the numbers from the first one on. -/
theorem map_toNat_indices (h : start.toNat + count ≤ 2 ^ 64) :
    (indices start count).map UInt64.toNat = List.range' start.toNat count := by
  refine List.ext_getElem (by simp) fun i hl hr => ?_
  rw [List.length_map, length_indices] at hl
  rw [List.getElem_map, getElem_indices, List.getElem_range', Nat.one_mul, toNat_add_ofNat]
  exact Nat.lt_of_lt_of_le (Nat.add_lt_add_left hl _) h

/-- Where a fragment starts, as a number. -/
theorem toNat_max_one (index : UInt64) : (max index 1).toNat = max index.toNat 1 := by
  show (if index ≤ 1 then 1 else index).toNat = max index.toNat 1
  split
  next hle => exact (Nat.max_eq_right (UInt64.le_iff_toNat_le.mp hle)).symm
  next hle => exact (Nat.max_eq_left (Nat.le_of_lt (UInt64.lt_iff_toNat_lt.mp (UInt64.not_le.mp hle)))).symm

end

end WhereClause
