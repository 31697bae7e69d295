import Fuzix.Devio

/-!
# Block devices and their partitions

`blkdev_transfer` turns a block number of a partition into a sector of the drive and
asks the driver for sectors until the request is done. The driver is a parameter: it
says how many sectors each call moved, never more than it was asked for.
-/

namespace Blkdev

open Devio (IntWidth)

def EIO : Nat := 5

/-- The number of values of `usize_t`. -/
def usizes : IntWidth → Nat
  | .int16 => 65536
  | .int32 => 4294967296

/-- The counts and the first sectors of partitions 1 to 15 are at 0 to 14. -/
structure Device where
  driveLbaCount : BitVec 32
  lbaFirst : Nat → BitVec 32
  lbaCount : Nat → BitVec 32

structure Udata where
  offset : Nat
  count : Nat
  block : BitVec 16
  nblock : Nat

/-- What the driver finds in `blk_op`: `nblock` sectors from `lba`. -/
structure Ask where
  lba : Nat
  nblock : Nat
deriving DecidableEq

structure Driver where
  transfer : Nat → Ask → Nat
  fits : ∀ call a, transfer call a ≤ a.nblock

/-- The sectors that a call of the driver is asked for, numbered in 32 bits. -/
def Ask.sector (a : Ask) (j : Nat) : Nat := (a.lba + j) % 4294967296

/-- `d_blkoff(9)`: the block number is kept in 16 bits. -/
def dBlkoff (w : IntWidth) (u : Udata) : Except Nat Udata :=
  if u.offset % 512 ≠ 0 then .error EIO
  else .ok { u with
    block := BitVec.ofNat 16 (u.offset / 512)
    nblock := (u.count + 511) % usizes w / 512 }

/-- The request after the first switch; mode 2 is there with `SWAPDEV` only. -/
def setup (w : IntWidth) (swapdev : Bool) (rawflag : Nat) (u : Udata) : Except Nat Udata :=
  if rawflag = 0 then .ok u
  else if rawflag = 1 then dBlkoff w u
  else if rawflag = 2 ∧ swapdev then .ok u
  else .error EIO

/-- The number of sectors that the block number of the request is compared with. -/
def limit (d : Device) (partition : Nat) : Nat :=
  (if partition = 0 then d.driveLbaCount else d.lbaCount (partition - 1)).toNat

def base (d : Device) (partition : Nat) : Nat :=
  if partition = 0 then 0 else (d.lbaFirst (partition - 1)).toNat

/-- The loop over the driver: what it is asked for, and whether all was moved. The
count of sectors bounds the number of rounds. -/
def rounds (drv : Driver) : Nat → Nat → Ask → List Ask × Bool
  | 0, _, _ => ([], true)
  | fuel + 1, call, a =>
    if a.nblock = 0 then ([], true)
    else
      let n := drv.transfer call a
      if n = 0 then ([a], false)
      else
        let rest := rounds drv fuel (call + 1) ⟨(a.lba + n) % 4294967296, a.nblock - n⟩
        (a :: rest.1, rest.2)

/-- The calls of the driver, and what `blkdev_transfer` answers. `nblock` of `blk_op`
has 16 bits. -/
def blkdevTransfer (w : IntWidth) (swapdev : Bool) (d : Device) (drv : Driver)
    (minor rawflag : Nat) (u : Udata) : List Ask × Except Nat Nat :=
  let partition := minor % 16
  match setup w swapdev rawflag u with
  | .error e => ([], .error e)
  | .ok u =>
    let nblock := u.nblock % 65536
    if limit d partition ≤ u.block.toNat then ([], .error EIO)
    else
      let lba := (u.block.toNat + base d partition) % 4294967296
      let r := rounds drv nblock 0 ⟨lba, nblock⟩
      (r.1, if r.2 then .ok (nblock * 512 % usizes w) else .error EIO)

/-! ## The loop -/

section Rounds
variable {drv : Driver} {fuel call : Nat} {a : Ask}

/-- The rounds are never cut short: more fuel changes nothing. -/
theorem rounds_fuel (enough : a.nblock ≤ fuel) (more : Nat) :
    rounds drv (fuel + more) call a = rounds drv fuel call a := by
  induction fuel generalizing call a with
  | zero =>
    cases more with
    | zero => rfl
    | succ more =>
      have none_left : a.nblock = 0 := by omega
      rw [Nat.zero_add, rounds, rounds, if_pos none_left]
  | succ fuel ih =>
    have fits := drv.fits call a
    rw [Nat.succ_add, rounds, rounds]
    by_cases none_left : a.nblock = 0
    · rw [if_pos none_left, if_pos none_left]
    · rw [if_neg none_left, if_neg none_left]
      by_cases failed : drv.transfer call a = 0
      · simp only [failed, if_true]
      · have fewer : a.nblock - drv.transfer call a ≤ fuel := by omega
        simp only [failed, if_false]
        rw [ih (a := ⟨_, a.nblock - drv.transfer call a⟩) fewer]

/-- The first round asks for the whole request. -/
theorem rounds_first (some_left : a.nblock ≠ 0) (enough : a.nblock ≤ fuel) :
    a ∈ (rounds drv fuel call a).1 := by
  cases fuel with
  | zero => omega
  | succ fuel =>
    rw [rounds, if_neg some_left]
    by_cases failed : drv.transfer call a = 0
    · simp [failed]
    · simp [failed]

/-- No round asks for a sector that the request did not have. -/
theorem rounds_sectors {b : Ask} (asked : b ∈ (rounds drv fuel call a).1) :
    ∀ j, j < b.nblock → ∃ i, i < a.nblock ∧ b.sector j = a.sector i := by
  induction fuel generalizing call a with
  | zero =>
    rw [rounds] at asked
    cases asked
  | succ fuel ih =>
    have fits := drv.fits call a
    rw [rounds] at asked
    by_cases none_left : a.nblock = 0
    · rw [if_pos none_left] at asked
      cases asked
    · rw [if_neg none_left] at asked
      have mine : b = a → ∀ j, j < b.nblock → ∃ i, i < a.nblock ∧ b.sector j = a.sector i := by
        intro same j hj
        subst same
        exact ⟨j, hj, rfl⟩
      by_cases failed : drv.transfer call a = 0
      · simp only [failed, if_true, List.mem_singleton] at asked
        exact mine asked
      · simp only [failed, if_false, List.mem_cons] at asked
        rcases asked with first | later
        · exact mine first
        · intro j hj
          obtain ⟨i, hi, same⟩ := ih later j hj
          refine ⟨drv.transfer call a + i, ?_, ?_⟩
          · have hi' : i < a.nblock - drv.transfer call a := hi
            omega
          · rw [same]
            unfold Ask.sector
            show ((a.lba + drv.transfer call a) % 4294967296 + i) % 4294967296 = _
            omega

end Rounds

/-! ## Confinement -/

/-- Every sector the driver is asked for lies in the partition. -/
def Confined (d : Device) (partition : Nat) (asks : List Ask) : Prop :=
  ∀ a ∈ asks, ∀ j, j < a.nblock →
    base d partition ≤ a.sector j ∧ a.sector j < base d partition + limit d partition

/-- The request is refused or empty, or it ends inside the partition and its sectors
have 32-bit numbers. -/
def Inside (d : Device) (partition : Nat) : Except Nat Udata → Prop
  | .error _ => True
  | .ok u => limit d partition ≤ u.block.toNat ∨ u.nblock % 65536 = 0 ∨
      u.block.toNat + u.nblock % 65536 ≤ limit d partition ∧
      base d partition + u.block.toNat + u.nblock % 65536 ≤ 4294967296

theorem base_lt (d : Device) (partition : Nat) : base d partition < 4294967296 := by
  unfold base
  split
  · decide
  · exact (d.lbaFirst (partition - 1)).isLt

/-- The first and the last sector decide where a request lies. -/
theorem ask_inside_iff {first count start n : Nat} (low : first < 4294967296)
    (block : start < 65536) (short : n < 65536) (some_left : n ≠ 0) :
    (∀ j, j < n → first ≤ Ask.sector ⟨(start + first) % 4294967296, n⟩ j ∧
      Ask.sector ⟨(start + first) % 4294967296, n⟩ j < first + count) ↔
    start + n ≤ count ∧ first + start + n ≤ 4294967296 := by
  unfold Ask.sector
  constructor
  · intro inside
    have begins := inside 0 (by omega)
    have ends := inside (n - 1) (by omega)
    simp only [] at begins ends
    omega
  · intro fits j hj
    simp only []
    omega

/-- A request stays in its partition exactly when it is refused, empty, or ends in it. -/
theorem transfer_confined_iff (w : IntWidth) (swapdev : Bool) (d : Device) (drv : Driver)
    (minor rawflag : Nat) (u : Udata) :
    Confined d (minor % 16) (blkdevTransfer w swapdev d drv minor rawflag u).1 ↔
      Inside d (minor % 16) (setup w swapdev rawflag u) := by
  unfold blkdevTransfer
  cases ready : setup w swapdev rawflag u with
  | error e => exact iff_of_true (fun a no => by cases no) trivial
  | ok v =>
    have low := base_lt d (minor % 16)
    have block := v.block.isLt
    have short : v.nblock % 65536 < 65536 := Nat.mod_lt _ (by decide)
    dsimp only
    by_cases beyond : limit d (minor % 16) ≤ v.block.toNat
    · rw [if_pos beyond]
      exact iff_of_true (fun a no => by cases no) (Or.inl beyond)
    · rw [if_neg beyond]
      constructor
      · intro confined
        by_cases empty : v.nblock % 65536 = 0
        · exact Or.inr (Or.inl empty)
        · have first := confined _ (rounds_first empty (Nat.le_refl _))
          exact Or.inr (Or.inr ((ask_inside_iff low block short empty).mp first))
      · intro inside a asked j hj
        obtain ⟨i, hi, same⟩ := rounds_sectors asked j hj
        have some_left : v.nblock % 65536 ≠ 0 := by
          intro empty
          rw [show Ask.nblock ⟨_, v.nblock % 65536⟩ = v.nblock % 65536 from rfl, empty] at hi
          omega
        rcases inside with no | empty | fits
        · exact (beyond no).elim
        · exact (some_left empty).elim
        · rw [same]
          exact (ask_inside_iff low block short some_left).mpr fits i hi

/-- A drive whose first partition is sectors 100 to 109. -/
def oneDrive : Device where
  driveLbaCount := 1000
  lbaFirst := fun _ => 100
  lbaCount := fun k => if k = 0 then 10 else 0

/-- A driver that moves one sector a call. -/
def single : Driver where
  transfer := fun _ a => if a.nblock = 0 then 0 else 1
  fits := by
    intro _ a
    split <;> omega

/-- A raw read of two sectors that begins in the last sector of the partition. -/
theorem transfer_leaves_partition :
    ¬ Confined oneDrive 1 (blkdevTransfer .int16 false oneDrive single 1 1 ⟨9 * 512, 1024, 0, 0⟩).1 := by
  intro confined
  have second := confined ⟨110, 1⟩ (by decide) 0 (by decide)
  revert second
  decide

/-! ## The bytes of a raw transfer -/

/-- The sectors that the driver moved in its calls, the first of them numbered `call`. -/
def moved (drv : Driver) : Nat → List Ask → Nat
  | _, [] => 0
  | call, a :: asks => drv.transfer call a + moved drv (call + 1) asks

/-- The driver answers 0 to one of the calls for the request. -/
inductive Stalls (drv : Driver) : Nat → Ask → Prop where
  | now {call : Nat} {a : Ask} (some_left : a.nblock ≠ 0) (failed : drv.transfer call a = 0) :
      Stalls drv call a
  | later {call : Nat} {a : Ask} (some_left : a.nblock ≠ 0)
      (rest : Stalls drv (call + 1) ⟨(a.lba + drv.transfer call a) % 4294967296,
        a.nblock - drv.transfer call a⟩) : Stalls drv call a

/-- The number as an `int`. -/
def asInt (w : IntWidth) (n : Nat) : Int := if n < usizes w / 2 then n else (n : Int) - usizes w

/-- No more is moved than was asked for, and what a transfer answers was moved. -/
def Honest (w : IntWidth) (drv : Driver) (u : Udata) (out : List Ask × Except Nat Nat) : Prop :=
  512 * moved drv 0 out.1 ≤ u.count ∧
    ∀ v, out.2 = .ok v → asInt w v = 512 * moved drv 0 out.1 ∧ asInt w v ≤ u.count ∧ 0 ≤ asInt w v

/-- The count is made of whole sectors and fits into an `int`, or it is so large that the
number of sectors wraps. -/
def Whole (w : IntWidth) (count : Nat) : Prop :=
  match w with
  | .int16 => count % 512 = 0 ∧ count < 32768 ∨ 65025 ≤ count
  | .int32 => count % 512 = 0 ∨ 33553921 ≤ count

/-- The first call of the driver. -/
def firstAsk (w : IntWidth) (d : Device) (partition : Nat) (u : Udata) : Ask :=
  ⟨((BitVec.ofNat 16 (u.offset / 512)).toNat + base d partition) % 4294967296,
    (u.count + 511) % usizes w / 512 % 65536⟩

/-- A loop that is not stalled moves every sector, and one that is moves fewer. -/
theorem rounds_moved {drv : Driver} {fuel call : Nat} {a : Ask} (enough : a.nblock ≤ fuel) :
    ((rounds drv fuel call a).2 = true ∧ moved drv call (rounds drv fuel call a).1 = a.nblock ∧
      ¬ Stalls drv call a) ∨
    ((rounds drv fuel call a).2 = false ∧ moved drv call (rounds drv fuel call a).1 < a.nblock ∧
      Stalls drv call a) := by
  induction fuel generalizing call a with
  | zero =>
    have none_left : a.nblock = 0 := by omega
    left
    refine ⟨rfl, none_left.symm, ?_⟩
    intro stalls
    cases stalls with
    | now some_left _ => exact some_left none_left
    | later some_left _ => exact some_left none_left
  | succ fuel ih =>
    have fits := drv.fits call a
    rw [rounds]
    by_cases none_left : a.nblock = 0
    · rw [if_pos none_left]
      left
      refine ⟨rfl, none_left.symm, ?_⟩
      intro stalls
      cases stalls with
      | now some_left _ => exact some_left none_left
      | later some_left _ => exact some_left none_left
    · rw [if_neg none_left]
      by_cases failed : drv.transfer call a = 0
      · simp only [failed, if_true]
        right
        refine ⟨trivial, ?_, Stalls.now none_left failed⟩
        rw [moved, moved, failed]
        omega
      · simp only [failed, if_false]
        have rest := @ih (call + 1) ⟨(a.lba + drv.transfer call a) % 4294967296,
          a.nblock - drv.transfer call a⟩ (by simp only []; omega)
        simp only [] at rest
        rcases rest with ⟨done, all, calm⟩ | ⟨stuck, fewer, stalls⟩
        · left
          refine ⟨done, ?_, ?_⟩
          · rw [moved, all]
            omega
          · intro stalls
            cases stalls with
            | now _ no => exact failed no
            | later _ rest => exact calm rest
        · right
          refine ⟨stuck, ?_, Stalls.later none_left stalls⟩
          rw [moved]
          omega

theorem whole_iff {w : IntWidth} {count : Nat} (small : count < usizes w) :
    Whole w count ↔ 512 * ((count + 511) % usizes w / 512 % 65536) ≤ count ∧
      512 * ((count + 511) % usizes w / 512 % 65536) < usizes w / 2 := by
  cases w with
  | int16 =>
    unfold Whole usizes at *
    dsimp only at *
    omega
  | int32 =>
    unfold Whole usizes at *
    dsimp only at *
    omega

theorem asInt_bytes {w : IntWidth} {n : Nat} (short : n < 65536) :
    asInt w (n * 512 % usizes w) = 512 * n ↔ 512 * n < usizes w / 2 := by
  unfold asInt
  by_cases low : n * 512 % usizes w < usizes w / 2
  · rw [if_pos low]
    cases w <;> simp only [usizes] at * <;> omega
  · rw [if_neg low]
    cases w <;> simp only [usizes] at * <;> omega

/-- The loop and what is answered after it. -/
theorem honest_loop {w : IntWidth} {drv : Driver} {u : Udata} {a : Ask} (short : a.nblock < 65536)
    (nearly : 512 * (a.nblock - 1) ≤ u.count) :
    Honest w drv u ((rounds drv a.nblock 0 a).1,
      if (rounds drv a.nblock 0 a).2 then .ok (a.nblock * 512 % usizes w) else .error EIO) ↔
      Stalls drv 0 a ∨ 512 * a.nblock ≤ u.count ∧ 512 * a.nblock < usizes w / 2 := by
  rcases @rounds_moved drv a.nblock 0 a (Nat.le_refl _) with
    ⟨done, all, calm⟩ | ⟨stuck, fewer, stalls⟩
  · unfold Honest
    rw [done, all, if_pos rfl]
    constructor
    · rintro ⟨most, answer⟩
      exact Or.inr ⟨most, (asInt_bytes short).mp (answer _ rfl).1⟩
    · rintro (stalls | ⟨most, fits⟩)
      · exact absurd stalls calm
      · refine ⟨most, ?_⟩
        rintro v same
        injection same with same
        rw [← same, (asInt_bytes short).mpr fits]
        exact ⟨rfl, by omega, by omega⟩
  · have most : 512 * moved drv 0 (rounds drv a.nblock 0 a).1 ≤ u.count := by omega
    refine iff_of_true ⟨most, ?_⟩ (Or.inl stalls)
    intro v no
    rw [stuck] at no
    cases no

/-- A raw transfer is honest if it is refused, if the driver fails, or for a whole count. -/
theorem raw_transfer_exact (w : IntWidth) (swapdev : Bool) (d : Device) (drv : Driver) (minor : Nat)
    (u : Udata) (small : u.count < usizes w) :
    Honest w drv u (blkdevTransfer w swapdev d drv minor 1 u) ↔
      u.offset % 512 ≠ 0 ∨ limit d (minor % 16) ≤ (BitVec.ofNat 16 (u.offset / 512)).toNat ∨
        Stalls drv 0 (firstAsk w d (minor % 16) u) ∨ Whole w u.count := by
  have silent : ∀ e, Honest w drv u ([], .error e) := by
    intro e
    refine ⟨by simp [moved], ?_⟩
    intro v no
    cases no
  unfold blkdevTransfer setup
  rw [if_neg (by decide), if_pos rfl]
  unfold dBlkoff
  by_cases odd : u.offset % 512 ≠ 0
  · rw [if_pos odd]
    exact iff_of_true (silent _) (Or.inl odd)
  · rw [if_neg odd]
    dsimp only
    by_cases beyond : limit d (minor % 16) ≤ (BitVec.ofNat 16 (u.offset / 512)).toNat
    · rw [if_pos beyond]
      exact iff_of_true (silent _) (Or.inr (Or.inl beyond))
    · rw [if_neg beyond]
      have nearly : 512 * ((firstAsk w d (minor % 16) u).nblock - 1) ≤ u.count := by
        unfold firstAsk
        cases w <;> simp only [usizes] at * <;> omega
      have loop := @honest_loop w drv u (firstAsk w d (minor % 16) u)
        (Nat.mod_lt _ (by decide)) nearly
      have total := whole_iff small
      change Whole w u.count ↔ 512 * (firstAsk w d (minor % 16) u).nblock ≤ u.count ∧
        512 * (firstAsk w d (minor % 16) u).nblock < usizes w / 2 at total
      rw [← total] at loop
      refine loop.trans ?_
      constructor
      · exact fun either => Or.inr (Or.inr either)
      · rintro (yes | yes | either)
        · exact absurd yes odd
        · exact absurd yes beyond
        · exact either

/-- Two sectors are read. -/
theorem raw_transfer_whole : ∃ (d : Device) (drv : Driver) (u : Udata),
    Honest .int16 drv u (blkdevTransfer .int16 false d drv 1 1 u) ∧
      (blkdevTransfer .int16 false d drv 1 1 u).2 = .ok 1024 :=
  ⟨oneDrive, single, ⟨0, 1024, 0, 0⟩,
    (raw_transfer_exact .int16 false oneDrive single 1 ⟨0, 1024, 0, 0⟩ (by decide)).mpr
      (Or.inr (Or.inr (Or.inr (Or.inl (by decide))))), rfl⟩

/-- A read of 100 bytes moves 512 of them. -/
theorem raw_transfer_more :
    (blkdevTransfer .int16 false oneDrive single 1 1 ⟨0, 100, 0, 0⟩).2 = .ok 512 ∧
      ¬ Honest .int16 single ⟨0, 100, 0, 0⟩ (blkdevTransfer .int16 false oneDrive single 1 1 ⟨0, 100, 0, 0⟩) := by
  refine ⟨rfl, fun honest => ?_⟩
  have most := honest.1
  revert most
  decide

end Blkdev
