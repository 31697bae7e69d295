import Mathlib.Tactic.Ring
import Fuzix.Lib.Table

/-!
# Numbers in a memory of bytes

A number of `n` bytes stands at an address with its low or its high byte first.
-/

namespace Store

open Table

abbrev Memory := Nat → UInt8

/-- Where byte `k` of a number of `n` bytes stands, the low byte being byte 0. -/
def place (big : Bool) (n k : Nat) : Nat := if big then n - 1 - k else k

/-- The number in the first `count` of the `n` bytes at `a`. -/
def loadTo (big : Bool) (n : Nat) (m : Memory) (a : Nat) : Nat → Nat
  | 0 => 0
  | count + 1 => loadTo big n m a count + 256 ^ count * (m (a + place big n count)).toNat

def load (big : Bool) (n : Nat) (m : Memory) (a : Nat) : Nat := loadTo big n m a n

/-- The first `count` bytes of `v` are stored. -/
def storeTo (big : Bool) (n : Nat) (m : Memory) (a v : Nat) : Nat → Memory
  | 0 => m
  | count + 1 =>
    put (storeTo big n m a v count) (a + place big n count) (UInt8.ofNat (v / 256 ^ count))

def store (big : Bool) (n : Nat) (m : Memory) (a v : Nat) : Memory := storeTo big n m a v n

variable {big : Bool} {n a b v : Nat} {m m' : Memory}

variable (big) in
theorem place_lt {k : Nat} (less : k < n) : place big n k < n := by
  unfold place
  split <;> omega

variable (big) in
theorem place_ne {j k : Nat} (hj : j < n) (hk : k < n) (other : j ≠ k) : place big n j ≠ place big n k := by
  unfold place
  split <;> omega

theorem loadTo_congr {count : Nat} (within : count ≤ n)
    (same : ∀ k, a ≤ k → k < a + n → m' k = m k) : loadTo big n m' a count = loadTo big n m a count := by
  induction count with
  | zero => rfl
  | succ count ih =>
    have inside := place_lt big within
    rw [loadTo, loadTo, ih (by omega), same _ (by omega) (by omega)]

/-- A number depends on its own bytes. -/
theorem load_congr (same : ∀ k, a ≤ k → k < a + n → m' k = m k) : load big n m' a = load big n m a :=
  loadTo_congr le_rfl same

theorem loadTo_lt (count : Nat) : loadTo big n m a count < 256 ^ count := by
  induction count with
  | zero => exact Nat.one_pos
  | succ count ih =>
    have byte := (m (a + place big n count)).toNat_lt
    have scaled : 256 ^ count * (m (a + place big n count)).toNat ≤ 256 ^ count * 255 :=
      Nat.mul_le_mul_left _ (by omega)
    rw [loadTo, pow_succ]
    omega

theorem load_lt : load big n m a < 256 ^ n := loadTo_lt n

theorem storeTo_outside {count k : Nat} (within : count ≤ n) (outside : k < a ∨ a + n ≤ k) :
    storeTo big n m a v count k = m k := by
  induction count with
  | zero => rfl
  | succ count ih =>
    have inside := place_lt big within
    rw [storeTo, put_ne _ _ (by omega), ih (by omega)]

/-- A store leaves the bytes of all other numbers alone. -/
theorem store_outside {k : Nat} (outside : k < a ∨ a + n ≤ k) : store big n m a v k = m k :=
  storeTo_outside le_rfl outside

theorem load_store_ne (apart : a + n ≤ b ∨ b + n ≤ a) : load big n (store big n m a v) b = load big n m b := by
  apply load_congr
  intro k low high
  exact store_outside (by omega)

theorem storeTo_place {count k : Nat} (within : count ≤ n) (less : k < count) :
    storeTo big n m a v count (a + place big n k) = UInt8.ofNat (v / 256 ^ k) := by
  induction count with
  | zero => exact absurd less (Nat.not_lt_zero k)
  | succ count ih =>
    rw [storeTo]
    by_cases last : k = count
    · rw [last, put_same]
    · have other := place_ne big (n := n) (by omega : k < n) (by omega : count < n) last
      rw [put_ne _ _ (by omega), ih (by omega) (by omega)]

theorem loadTo_storeTo {count : Nat} (within : count ≤ n) :
    loadTo big n (store big n m a v) a count = v % 256 ^ count := by
  induction count with
  | zero => rw [loadTo, pow_zero, Nat.mod_one]
  | succ count ih =>
    have byte : store big n m a v (a + place big n count) = UInt8.ofNat (v / 256 ^ count) :=
      storeTo_place le_rfl within
    have kept : (UInt8.ofNat (v / 256 ^ count)).toNat = v / 256 ^ count % 256 := UInt8.toNat_ofNat'
    rw [loadTo, ih (by omega), byte, kept, pow_succ, Nat.mod_mul]

/-- What was stored is loaded, up to its width. -/
theorem load_store : load big n (store big n m a v) a = v % 256 ^ n := loadTo_storeTo le_rfl

theorem load_store_of_lt (less : v < 256 ^ n) : load big n (store big n m a v) a = v := by
  rw [load_store, Nat.mod_eq_of_lt less]

end Store
