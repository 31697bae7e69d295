import Fuzix.Lib.Table

/-!
# Bit tables

A table of bits that is packed into the bytes of a memory from an address on: entry `n` is
bit `n % 8` of byte `n / 8`.
-/

namespace Bits

open Table

abbrev Byte := BitVec 8

/-- `1 << (n & 7)` -/
def bit (n : Nat) : Byte := 1#8 <<< (n % 8)

def test (mem : Nat → Byte) (base n : Nat) : Bool := (mem (base + n / 8)).getLsbD (n % 8)

def set (mem : Nat → Byte) (base n : Nat) : Nat → Byte :=
  put mem (base + n / 8) (mem (base + n / 8) ||| bit n)

def clear (mem : Nat → Byte) (base n : Nat) : Nat → Byte :=
  put mem (base + n / 8) (mem (base + n / 8) &&& ~~~ bit n)

theorem getLsbD_bit (n i : Nat) : (bit n).getLsbD i = decide (i = n % 8) := by
  have small : n % 8 < 8 := Nat.mod_lt n (by decide)
  unfold bit
  rw [← BitVec.twoPow_eq, BitVec.getLsbD_twoPow]
  by_cases same : i = n % 8
  · subst same
    simp [small]
  · have other : n % 8 ≠ i := fun h => same h.symm
    simp [same, other]

/-! ## What a store changes -/

theorem set_other (mem : Nat → Byte) (base n : Nat) {x : Nat} (away : x ≠ base + n / 8) :
    set mem base n x = mem x := put_ne _ _ away

theorem clear_other (mem : Nat → Byte) (base n : Nat) {x : Nat} (away : x ≠ base + n / 8) :
    clear mem base n x = mem x := put_ne _ _ away

theorem test_set (mem : Nat → Byte) (base n m : Nat) :
    test (set mem base n) base m = (test mem base m || decide (m = n)) := by
  unfold test
  by_cases sameByte : m / 8 = n / 8
  · rw [sameByte, set, put_same, BitVec.getLsbD_or, getLsbD_bit]
    by_cases same : m = n
    · simp [same]
    · have apart : m % 8 ≠ n % 8 := by omega
      simp [same, apart]
  · have distinct : m ≠ n := by omega
    rw [set_other mem base n (by omega)]
    simp [distinct]

theorem test_clear (mem : Nat → Byte) (base n m : Nat) :
    test (clear mem base n) base m = (test mem base m && decide (m ≠ n)) := by
  have inside : m % 8 < 8 := Nat.mod_lt m (by decide)
  unfold test
  by_cases sameByte : m / 8 = n / 8
  · rw [sameByte, clear, put_same, BitVec.getLsbD_and, BitVec.getLsbD_not, getLsbD_bit]
    by_cases same : m = n
    · simp [same]
    · have apart : m % 8 ≠ n % 8 := by omega
      simp [same, apart, inside]
  · have distinct : m ≠ n := by omega
    rw [clear_other mem base n (by omega)]
    simp [distinct]

/-- A bit table is not touched by stores into another one. -/
theorem test_other {mem mem' : Nat → Byte} {base n : Nat} (same : mem' (base + n / 8) = mem (base + n / 8)) :
    test mem' base n = test mem base n := by
  unfold test
  rw [same]

end Bits
