import Fuzix.Lib.Run
import Mathlib.Data.Int.ModEq
import Mathlib.Tactic.Linarith

/-!
# The load average

`load_average` of process.c, with the types that the compiler gives to the terms of the
formula. A compiler with an `int` of 16 bits takes the difference and the product in 16
bits; the sum is a `uint32_t` with both.
-/

namespace Load

open Run

inductive Width where
  | int16
  | int32
  deriving DecidableEq

structure Runload where
  exponent : BitVec 8
  average : BitVec 16
  deriving DecidableEq

structure State where
  utick : BitVec 8
  loadavg : Fin 3 → Runload

def exponents : Fin 3 → BitVec 8
  | 0 => 235
  | 1 => 251
  | 2 => 254

def boot : State := ⟨0, fun i => ⟨exponents i, 0⟩⟩

def Width.bits : Width → Nat
  | Width.int16 => 16
  | Width.int32 => 32

/-- `(r->average - (nr << 8)) * r->exponent` -/
def Runload.product (w : Width) (r : Runload) (nr : BitVec 16) : BitVec w.bits :=
  (r.average.zeroExtend _ - nr.zeroExtend _ <<< 8) * r.exponent.zeroExtend _

def Runload.sample (w : Width) (nr : BitVec 16) (r : Runload) : Runload :=
  { r with average :=
      (((r.product w nr).zeroExtend 32 + nr.zeroExtend 32 <<< 16) >>> 8).truncate 16 }

def load_average (w : Width) (s : State) (nready : BitVec 8) : State :=
  let s := { s with utick := s.utick + 1 }
  if s.utick < 50 then s
  else ⟨0, fun i => (s.loadavg i).sample w (nready.zeroExtend 16)⟩

/-- One call for each ready count. -/
def after (w : Width) (s : State) (counts : List (BitVec 8)) : State :=
  counts.foldl (load_average w) s

/-! ## What a sample should be -/

def Runload.gap (r : Runload) (n : Nat) : Int := r.average.toNat - 256 * n

/-- The new average over the integers, rounded down. -/
def Runload.exact (r : Runload) (n : Nat) : Int := r.gap n * r.exponent.toNat / 256 + 256 * n

/-- `new` is on the way from `old` to `goal`. -/
def Towards (old new goal : Int) : Prop := old ≤ new ∧ new ≤ goal ∨ goal ≤ new ∧ new ≤ old

instance (old new goal : Int) : Decidable (Towards old new goal) := by
  unfold Towards; infer_instance

def Sampled (old new : Runload) (n : Nat) : Prop :=
  new.exponent = old.exponent ∧ new.average.toNat = old.exact n ∧
    Towards old.average.toNat new.average.toNat (256 * n)

instance (old new : Runload) (n : Nat) : Decidable (Sampled old new n) := by
  unfold Sampled; infer_instance

def Due (s : State) : Prop := ¬ s.utick + 1 < 50

instance (s : State) : Decidable (Due s) := by unfold Due; infer_instance

def Right (w : Width) (s : State) (nready : BitVec 8) : Prop :=
  ∀ i, if Due s then Sampled (s.loadavg i) ((load_average w s nready).loadavg i) nready.toNat
    else (load_average w s nready).loadavg i = s.loadavg i

instance (w : Width) (s : State) (nready : BitVec 8) : Decidable (Right w s nready) := by
  unfold Right; infer_instance

/-- The product fits: it is always in range with 32 bits; with 16 bits it may not be
negative, and not reach 65536. -/
def Fits (w : Width) (r : Runload) (n : Nat) : Prop :=
  w = Width.int16 → 0 ≤ r.gap n * r.exponent.toNat ∧ r.gap n * r.exponent.toNat < 65536

def Clean (w : Width) (s : State) (nready : BitVec 8) : Prop :=
  Due s → ∀ i, Fits w (s.loadavg i) nready.toNat

/-! ## What a sample is -/

theorem Width.bits_cases (w : Width) :
    w = Width.int16 ∧ w.bits = 16 ∨ w = Width.int32 ∧ w.bits = 32 := by
  cases w
  · exact Or.inl ⟨rfl, rfl⟩
  · exact Or.inr ⟨rfl, rfl⟩

/-- A word that is extended to an `int`, or to more, keeps its value. -/
theorem extended {k m : Nat} (x : BitVec k) (wide : k ≤ m) : (x.zeroExtend m).toNat = x.toNat := by
  have more : 2 ^ k ≤ 2 ^ m := Nat.pow_le_pow_right (by omega) wide
  have short := x.isLt
  rw [BitVec.zeroExtend, BitVec.toNat_setWidth]
  exact Nat.mod_eq_of_lt (by omega)

theorem product_wraps (w : Width) (r : Runload) (n : BitVec 8) :
    ((r.product w (n.zeroExtend 16)).toNat : Int) =
      r.gap n.toNat * r.exponent.toNat % (2 ^ w.bits : Nat) := by
  have wide : 16 ≤ w.bits := by rcases w.bits_cases with ⟨_, bits⟩ | ⟨_, bits⟩ <;> omega
  have more : 2 ^ 16 ≤ 2 ^ w.bits := Nat.pow_le_pow_right (by omega) wide
  have count := n.isLt
  have short := r.average.isLt
  have byte := extended r.exponent (show 8 ≤ w.bits by omega)
  have average := extended r.average wide
  have shifted : ((n.zeroExtend 16).zeroExtend w.bits <<< 8).toNat = 256 * n.toNat := by
    rw [BitVec.toNat_shiftLeft, Nat.shiftLeft_eq, extended _ wide, extended n (by omega)]
    rw [Nat.mod_eq_of_lt (by omega)]
    omega
  have difference :
      ((r.average.zeroExtend w.bits - (n.zeroExtend 16).zeroExtend w.bits <<< 8).toNat : Int) =
        r.gap n.toNat % (2 ^ w.bits : Nat) := by
    rw [BitVec.toNat_sub, shifted, average, Runload.gap]
    rw [show (r.average.toNat : Int) - 256 * n.toNat =
      (2 ^ w.bits - 256 * n.toNat + r.average.toNat : Nat) - (2 ^ w.bits : Nat) by omega]
    rw [Int.sub_emod_right, Int.natCast_emod]
  rw [Runload.product, BitVec.toNat_mul, byte, Int.natCast_emod, Int.natCast_mul, difference]
  exact (Int.mod_modEq (r.gap n.toNat) (2 ^ w.bits : Nat)).mul_right r.exponent.toNat

theorem gap_bounds (r : Runload) (n : BitVec 8) : -65280 ≤ r.gap n.toNat ∧ r.gap n.toNat ≤ 65535 := by
  have count := n.isLt
  have average := r.average.isLt
  unfold Runload.gap
  omega

theorem product_bounds (r : Runload) (n : BitVec 8) :
    -(65280 * 255) ≤ r.gap n.toNat * r.exponent.toNat ∧
      r.gap n.toNat * r.exponent.toNat ≤ 65535 * 255 := by
  have short := r.exponent.isLt
  have bounds := gap_bounds r n
  constructor <;> nlinarith

/-- The exact average is between the old one and the count, since the exponent is
less than 256. -/
theorem exact_towards (r : Runload) (n : Nat) :
    Towards r.average.toNat (r.exact n) (256 * n) := by
  have short := r.exponent.isLt
  have gap : (r.average.toNat : Int) = r.gap n + 256 * n := by unfold Runload.gap; omega
  unfold Towards Runload.exact
  by_cases rising : r.gap n ≤ 0
  · have low : 256 * r.gap n ≤ r.gap n * r.exponent.toNat := by nlinarith
    have high : r.gap n * r.exponent.toNat ≤ 0 := by nlinarith
    left
    omega
  · have low : 0 ≤ r.gap n * r.exponent.toNat := by nlinarith
    have high : r.gap n * r.exponent.toNat ≤ 256 * r.gap n := by nlinarith
    right
    omega

theorem exact_bounds (r : Runload) (n : BitVec 8) : 0 ≤ r.exact n.toNat ∧ r.exact n.toNat ≤ 65535 := by
  have average := r.average.isLt
  have count := n.isLt
  have between := exact_towards r n.toNat
  unfold Towards at between
  omega

theorem sample_average (w : Width) (r : Runload) (n : BitVec 8) :
    ((r.sample w (n.zeroExtend 16)).average.toNat : Int) =
      (r.gap n.toNat * r.exponent.toNat % (2 ^ w.bits : Nat) + 65536 * n.toNat) %
        4294967296 / 256 % 65536 := by
  have count := n.isLt
  have bits : w.bits ≤ 32 := by rcases w.bits_cases with ⟨_, bits⟩ | ⟨_, bits⟩ <;> omega
  have shifted : ((n.zeroExtend 16).zeroExtend 32 <<< 16).toNat = 65536 * n.toNat := by
    rw [BitVec.toNat_shiftLeft, Nat.shiftLeft_eq, extended _ (by omega), extended n (by omega)]
    omega
  have product := extended (r.product w (n.zeroExtend 16)) bits
  rw [← product_wraps w r n]
  simp only [Runload.sample, BitVec.truncate_eq_setWidth, BitVec.toNat_setWidth, BitVec.toNat_ushiftRight,
    Nat.shiftRight_eq_div_pow, BitVec.toNat_add, shifted, product]
  omega

/-- The stored average is the exact one when the product fits, and only then. -/
theorem sample_exact (w : Width) (r : Runload) (n : BitVec 8) :
    ((r.sample w (n.zeroExtend 16)).average.toNat : Int) = r.exact n.toNat ↔ Fits w r n.toNat := by
  have stored := sample_average w r n
  have bounds := product_bounds r n
  have target := exact_bounds r n
  have count := n.isLt
  rw [stored]
  unfold Runload.exact at target ⊢
  unfold Fits
  generalize r.gap n.toNat * r.exponent.toNat = d at *
  rcases w.bits_cases with ⟨int, bits⟩ | ⟨int, bits⟩
  · rw [bits, int]
    constructor
    · intro same _
      omega
    · intro fits
      have fits := fits rfl
      omega
  · rw [bits, int]
    constructor
    · intro _ short
      cases short
    · intro _
      omega

theorem load_average_due (w : Width) {s : State} (n : BitVec 8) (due : Due s) :
    load_average w s n = ⟨0, fun i => (s.loadavg i).sample w (n.zeroExtend 16)⟩ := by
  exact if_neg due

theorem load_average_idle (w : Width) {s : State} (n : BitVec 8) (idle : ¬ Due s) :
    load_average w s n = { s with utick := s.utick + 1 } := by
  exact if_pos (not_not.mp idle)

theorem right_iff (w : Width) (s : State) (n : BitVec 8) : Right w s n ↔ Clean w s n := by
  by_cases due : Due s
  · simp only [Right, Clean, due, if_true, true_imp_iff, load_average_due w n due]
    constructor
    · intro right i
      exact (sample_exact w (s.loadavg i) n).mp (right i).2.1
    · intro clean i
      have exact := (sample_exact w (s.loadavg i) n).mpr (clean i)
      refine ⟨rfl, exact, ?_⟩
      rw [exact]
      exact exact_towards (s.loadavg i) n.toNat
  · simp [Right, Clean, due, load_average_idle w n due]

/-! ## A constant ready count -/

/-- Rounding down leaves the average where it is: at the count, or below it by so little
that the next step would be less than one. -/
def Settled (r : Runload) (n : Nat) : Prop :=
  r.gap n ≤ 0 ∧ (r.exponent.toNat - 256) * r.gap n < 256

theorem settled_at_count {r : Runload} {n : Nat} (there : r.gap n = 0) : Settled r n := by
  constructor
  · omega
  · rw [there]
    omega

theorem Sampled.gap {old new : Runload} {n : Nat} (sampled : Sampled old new n) :
    new.gap n = old.gap n * old.exponent.toNat / 256 := by
  have exact := sampled.2.1
  unfold Runload.exact at exact
  rw [Runload.gap]
  omega

theorem Settled.stays {old new : Runload} {n : Nat} (settled : Settled old n)
    (sampled : Sampled old new n) : Settled new n := by
  have short := old.exponent.isLt
  have gap := sampled.gap
  have same : new.gap n = old.gap n := by
    have below := settled.1
    have close := settled.2
    have low : 256 * old.gap n ≤ old.gap n * old.exponent.toNat := by nlinarith
    have high : old.gap n * old.exponent.toNat < 256 * old.gap n + 256 := by nlinarith
    omega
  unfold Settled
  rw [sampled.1, same]
  exact settled

theorem Sampled.closer {old new : Runload} {n : Nat} (sampled : Sampled old new n)
    (moving : ¬ Settled old n) : (new.gap n).natAbs < (old.gap n).natAbs := by
  have short := old.exponent.isLt
  have gap := sampled.gap
  by_cases rising : old.gap n ≤ 0
  · have wide : 256 ≤ (old.exponent.toNat - 256) * old.gap n := by
      by_contra close
      exact moving ⟨rising, by omega⟩
    have low : 256 * old.gap n + 256 ≤ old.gap n * old.exponent.toNat := by linarith
    have high : old.gap n * old.exponent.toNat ≤ 0 := by nlinarith
    omega
  · have low : 0 ≤ old.gap n * old.exponent.toNat := by nlinarith
    have high : old.gap n * old.exponent.toNat ≤ 255 * old.gap n := by nlinarith
    omega

/-- More than the calls that are left before average `i` is settled. -/
def rest (s : State) (n : Nat) (i : Fin 3) : Nat :=
  256 * ((s.loadavg i).gap n).natAbs + (305 - s.utick.toNat) % 256

theorem rest_falls {w : Width} {s : State} {n : BitVec 8} {i : Fin 3} (right : Right w s n)
    (moving : ¬ Settled (s.loadavg i) n.toNat) :
    rest (load_average w s n) n.toNat i < rest s n.toNat i := by
  have here := right i
  have tick := s.utick.isLt
  by_cases due : Due s
  · rw [if_pos due] at here
    have closer := here.closer moving
    have reset : (load_average w s n).utick = 0 := by rw [load_average_due w n due]
    have zero : (0 : BitVec 8).toNat = 0 := rfl
    unfold rest
    rw [reset, zero]
    omega
  · rw [if_neg due] at here
    have next : (load_average w s n).utick = s.utick + 1 := by rw [load_average_idle w n due]
    have early : (s.utick.toNat + 1) % 256 < 50 := by
      simpa [Due, BitVec.lt_def] using due
    unfold rest
    rw [here, next, BitVec.toNat_add]
    have one : (1 : BitVec 8).toNat = 1 := rfl
    omega

theorem right_stays {w : Width} {s : State} {n : BitVec 8} {i : Fin 3} (right : Right w s n)
    (settled : Settled (s.loadavg i) n.toNat) :
    Settled ((load_average w s n).loadavg i) n.toNat := by
  have here := right i
  by_cases due : Due s
  · rw [if_pos due] at here
    exact settled.stays here
  · rw [if_neg due] at here
    rw [here]
    exact settled

theorem constant_settles {w : Width} {n : BitVec 8} (i : Fin 3) (k : Nat) {s : State}
    (right : Throughout (load_average w) (Right w) s (List.replicate k n))
    (enough : Settled (s.loadavg i) n.toNat ∨ rest s n.toNat i ≤ k) :
    Settled ((after w s (List.replicate k n)).loadavg i) n.toNat := by
  induction k generalizing s with
  | zero =>
    rcases enough with settled | none
    · exact settled
    · have gap : (s.loadavg i).gap n.toNat = 0 := by unfold rest at none; omega
      exact settled_at_count gap
  | succ k ih =>
    apply ih right.2
    by_cases settled : Settled (s.loadavg i) n.toNat
    · exact Or.inl (right_stays right.1 settled)
    · have falls := rest_falls right.1 settled
      have small := enough.resolve_left settled
      right
      omega

theorem rest_bound (s : State) (n : BitVec 8) (i : Fin 3) : rest s n.toNat i ≤ 16777216 := by
  have bounds := gap_bounds (s.loadavg i) n
  unfold rest
  omega

/-- In every run, each sample is the exact value and on the way to the count as long as
the products fit, and not beyond. A constant count is approached until rounding stops it. -/
theorem averages_follow (w : Width) (s : State) :
    (∀ counts, Throughout (load_average w) (Right w) s counts ↔
      Throughout (load_average w) (Clean w) s counts) ∧
    ∀ n, ∃ enough, ∀ k, enough ≤ k →
      Throughout (load_average w) (Clean w) s (List.replicate k n) →
      ∀ i, Settled ((after w s (List.replicate k n)).loadavg i) n.toNat := by
  have same (counts : List (BitVec 8)) : Throughout (load_average w) (Right w) s counts ↔
      Throughout (load_average w) (Clean w) s counts :=
    throughout_iff (I := fun _ => True) (fun _ _ _ _ => trivial)
      (fun s n _ => right_iff w s n) trivial counts
  constructor
  · exact same
  · intro n
    refine ⟨16777216, ?_⟩
    intro k enough clean i
    have bound := rest_bound s n i
    exact constant_settles i k ((same _).mpr clean) (Or.inr (by omega))

/-- The first sample after boot with one ready process, in an `int` of 16 bits, leaves
an average of 277 in place of 21. -/
theorem first_sample_overshoots :
    ((after Width.int16 boot (List.replicate 50 1)).loadavg 0).average = 277 ∧
      ¬ Throughout (load_average Width.int16) (Right Width.int16) boot (List.replicate 50 1) := by
  decide +kernel

end Load
