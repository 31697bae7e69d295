import Mathlib.Tactic.Common

/-!
# Timers

`set_timer_duration` and `timer_expired` of timer.c. A timer is the low word of the tick at
which it runs out. The difference of two words is taken as an `int`, and what becomes of its
sign bit is up to the type that a port has for `bool`.
-/

namespace Timer

/-- `_Bool`, or the `unsigned char` of cpu-8086/stdbool.h. -/
inductive BoolType where
  | boolean
  | unsignedChar
deriving DecidableEq

class Port where
  intWidth : Nat
  bool : BoolType
  wide : 16 ≤ intWidth

export Port (intWidth bool)

/-- `ticks.h.low` -/
def low (full : BitVec 32) : BitVec 16 := full.setWidth 16

/-- `ticks.full++` -/
def tick (full : BitVec 32) : BitVec 32 := full + 1

def later (full : BitVec 32) : Nat → BitVec 32
  | 0 => full
  | n + 1 => tick (later full n)

def set_timer_duration (full : BitVec 32) (duration : BitVec 16) : BitVec 16 := duration + low full

/-- An `int` that is returned as a `bool`. -/
def toBool {w : Nat} (type : BoolType) (value : BitVec w) : BitVec 8 :=
  match type with
  | .boolean => if value = 0 then 0 else 1
  | .unsignedChar => value.setWidth 8

def timer_expired [Port] (full : BitVec 32) (timer_val : BitVec 16) : BitVec 8 :=
  toBool bool ((timer_val.setWidth intWidth - (low full).setWidth intWidth) &&& 0x8000)

/-- After `n` ticks the timer has expired if these are more than the duration. -/
def Right [Port] (full : BitVec 32) (duration : BitVec 16) (n : Nat) : Prop :=
  timer_expired (later full n) (set_timer_duration full duration) ≠ 0 ↔ duration.toNat < n

instance [Port] (full : BitVec 32) (duration : BitVec 16) (n : Nat) :
    Decidable (Right full duration n) := by
  unfold Right
  infer_instance

/-! ## Words -/

theorem later_eq (full : BitVec 32) (n : Nat) : later full n = full + BitVec.ofNat 32 n := by
  induction n with
  | zero => exact (BitVec.add_zero full).symm
  | succ n ih =>
    rw [later, tick, ih, BitVec.add_assoc, BitVec.ofNat_add]
    rfl

theorem low_later (full : BitVec 32) (n : Nat) : low (later full n) = low full + BitVec.ofNat 16 n := by
  rw [later_eq, low, low, BitVec.setWidth_add _ _ (by decide), BitVec.setWidth_ofNat_of_le (by decide)]

/-- The low word of a difference is the difference of the words. -/
theorem low_sub {w : Nat} (wide : 16 ≤ w) (a b : BitVec 16) :
    (a.setWidth w - b.setWidth w).setWidth 16 = a - b := by
  have sum := BitVec.setWidth_add (a.setWidth w - b.setWidth w) (b.setWidth w) wide
  rw [BitVec.sub_add_cancel, BitVec.setWidth_setWidth_of_le _ wide, BitVec.setWidth_setWidth_of_le _ wide,
    BitVec.setWidth_eq, BitVec.setWidth_eq] at sum
  calc (a.setWidth w - b.setWidth w).setWidth 16
      = (a.setWidth w - b.setWidth w).setWidth 16 + b - b := (BitVec.add_sub_cancel _ _).symm
    _ = a - b := by rw [← sum]

/-- The sign bit of the difference, in an `int` of any width. -/
theorem sign_bit {w : Nat} (wide : 16 ≤ w) (a b : BitVec 16) :
    (a.setWidth w - b.setWidth w) &&& 0x8000 = if 32768 ≤ (a - b).toNat then BitVec.twoPow w 15 else 0 := by
  have mask : (0x8000 : BitVec w) = BitVec.twoPow w 15 := by
    apply BitVec.eq_of_toNat_eq
    rw [BitVec.toNat_twoPow]
    rfl
  have inside : 15 < 16 := by decide
  have sign : (a.setWidth w - b.setWidth w).getLsbD 15 = decide (32768 ≤ (a - b).toNat) := by
    have low : (a.setWidth w - b.setWidth w).getLsbD 15 = (a - b).getLsbD 15 := by
      rw [← low_sub wide a b, BitVec.getLsbD_setWidth, decide_eq_true inside, Bool.true_and]
    have half : 2 ^ (16 - 1) = 32768 := rfl
    have last : (a - b).getLsbD 15 = (a - b).msb := (BitVec.msb_eq_getLsbD_last (a - b)).symm
    rw [low, last, BitVec.msb_eq_decide, half]
  rw [mask, BitVec.and_twoPow, sign]
  simp only [decide_eq_true_eq]
  rfl

theorem twoPow_ne_zero {w : Nat} (wide : 16 ≤ w) : BitVec.twoPow w 15 ≠ 0 := by
  intro zero
  have value := congrArg BitVec.toNat zero
  have small : 2 ^ 15 < 2 ^ w := Nat.pow_lt_pow_right (by decide) wide
  rw [BitVec.toNat_twoPow, Nat.mod_eq_of_lt small] at value
  cases value

/-- Only a boolean keeps the sign bit. -/
theorem toBool_sign {w : Nat} (wide : 16 ≤ w) (type : BoolType) :
    toBool type (BitVec.twoPow w 15) ≠ 0 ↔ type = .boolean := by
  cases type with
  | boolean =>
    have kept : toBool .boolean (BitVec.twoPow w 15) = 1 := by
      rw [toBool, if_neg (twoPow_ne_zero wide)]
    rw [kept]
    decide
  | unsignedChar =>
    have lost : toBool .unsignedChar (BitVec.twoPow w 15) = 0 := by
      apply BitVec.eq_of_toNat_eq
      have small : 2 ^ 15 < 2 ^ w := Nat.pow_lt_pow_right (by decide) wide
      simp only [toBool, BitVec.toNat_setWidth, BitVec.toNat_twoPow, Nat.mod_eq_of_lt small]
      decide
    rw [lost]
    decide

theorem toBool_zero {w : Nat} (type : BoolType) : toBool type (0 : BitVec w) = 0 := by
  cases type with
  | boolean => simp [toBool]
  | unsignedChar => simp [toBool]

/-! ## Timers -/

/-- The low words differ by what is left of the duration. -/
theorem left_over (full : BitVec 32) (duration : BitVec 16) (n : Nat) :
    set_timer_duration full duration - low (later full n) = duration - BitVec.ofNat 16 n := by
  rw [low_later, set_timer_duration]
  bv_omega

/-- The sign of what is left. -/
theorem past_iff {duration : BitVec 16} {n : Nat} (short : duration.toNat < 32768) (half : n ≤ duration.toNat + 32768) :
    32768 ≤ (duration - BitVec.ofNat 16 n).toNat ↔ duration.toNat < n := by
  rw [BitVec.toNat_sub, BitVec.toNat_ofNat]
  omega

/-- A timer is right, up to half the range after it runs out, where `bool` is a boolean, and
elsewhere until it runs out. -/
theorem timer_right [Port] (full : BitVec 32) (duration : BitVec 16) (n : Nat) (short : duration.toNat < 32768)
    (half : n ≤ duration.toNat + 32768) :
    Right full duration n ↔ bool = .boolean ∨ n ≤ duration.toNat := by
  have past := past_iff short half
  unfold Right timer_expired
  rw [sign_bit Port.wide, left_over]
  by_cases longer : duration.toNat < n
  · rw [if_pos (past.mpr longer), toBool_sign Port.wide, iff_true_right longer,
      or_iff_left (Nat.not_le_of_lt longer)]
  · rw [if_neg fun sign => longer (past.mp sign), toBool_zero]
    exact iff_of_true (iff_of_false (fun no => no rfl) longer) (Or.inr (Nat.le_of_not_lt longer))

/-- A port with the booleans of the language, and cpu-8086. -/
@[reducible] def plain : Port := ⟨16, .boolean, by decide⟩

@[reducible] def ia16 : Port := ⟨16, .unsignedChar, by decide⟩

/-- The counter goes round while the timer runs. -/
theorem timer_right_wrapped : (3 : BitVec 16).toNat < 32768 ∧ @Right plain 0xFFFFFFFE 3 4 :=
  ⟨by decide, (@timer_right plain 0xFFFFFFFE 3 4 (by decide) (by decide)).mpr (Or.inl rfl)⟩

theorem timer_stuck : ¬ ∀ (_ : Port) (full : BitVec 32) (duration : BitVec 16) (n : Nat),
    duration.toNat < 32768 → n < 32768 → Right full duration n := by
  intro right
  exact absurd (right ia16 0 1 2 (by decide) (by decide)) (by decide)

end Timer
