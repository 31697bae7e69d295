import Mathlib.Algebra.Group.Nat.Defs
import Fuzix.Lib.Bits
import Fuzix.Sched

/-!
# The wait maps of select

`selwait_inode` and `selwake_inode` of select.c on the three maps that lie over the last
block pointers of an inode in memory, with the offsets at which `readi` and `writei` walk
through the block pointers of a pipe. The memory is that from `i_addr` on, whatever lies
behind the inode. Which processes have registered is recorded as history.
-/

namespace Selmap

open Table Bits
open Sched (Status)

class Machine where
  PTABSIZE : Nat
  maxproc : Nat
  someProc : 0 < PTABSIZE
  /-- The number of a slot is kept in a byte. -/
  tableBound : PTABSIZE ≤ 256
  procBound : maxproc ≤ PTABSIZE

export Machine (PTABSIZE maxproc)

def BLKSIZE : Nat := 512

/-- `SELECT_IN`, `SELECT_OUT` and `SELECT_EX` -/
inductive Event where
  | input
  | output
  | except
deriving DecidableEq

def Event.index : Event → Nat
  | .input => 0
  | .output => 1
  | .except => 2

def events : List Event := [.input, .output, .except]

theorem Event.listed (e : Event) : e ∈ events := by
  cases e <;> simp [events]

theorem Event.index_inj {e e' : Event} (same : e.index = e'.index) : e = e' := by
  cases e <;> cases e' <;> simp [Event.index] at same ⊢

/-- `mask & SELECT_IN` and the like. -/
def wants {w : Nat} (mask : BitVec w) (e : Event) : Bool := mask.getLsbD e.index

abbrev Memory := Nat → Byte

/-- A byte of the memory is changed. -/
def touch (f : Byte → Byte) (mem : Memory) (x : Nat) : Memory := put mem x (f (mem x))

section
variable [Machine]

def SELMAPSIZE : Nat := (PTABSIZE + 7) / 8

/-- The address of the map: `&i->c_node.i_addr[17]`, and one more map for each `s++`. -/
def base (e : Event) : Nat := 2 * 17 + SELMAPSIZE * e.index

/-- `s->map[p >> 3] |= (1 << (p & 7));` -/
def seladdwait (p : Nat) (mem : Memory) (e : Event) : Memory := Bits.set mem (base e) p

/-- `s->map[p >> 3] &= ~(1 << (p & 7));` -/
def selrmwait (p : Nat) (mem : Memory) (e : Event) : Memory := Bits.clear mem (base e) p

/-- `s->map[mask] &= ~bit; s->map[mask] |= bset;` for the maps of the events. -/
def selwait_inode (p : Nat) (smask : Byte) (setit : Bool) (mem : Memory) : Memory :=
  let bit : Byte := BitVec.ofNat 8 p
  let mask : Byte := Bits.bit p
  let bset : Byte := bit &&& (if setit then 1 else 0)
  let bit := bit >>> 3
  events.foldl (fun mem e =>
    if wants smask e then touch (fun b => (b &&& ~~~ bit) ||| bset) mem (base e + mask.toNat) else mem) mem

def pwake (status : Status) : Status := if status = .sleep then .ready else status

/-- The loop over the processes changes each by itself. -/
def selwake (mem : Memory) (status : Nat → Status) (e : Event) : Nat → Status := fun q =>
  if q < maxproc ∧ Bits.test mem (base e) q then pwake (status q) else status q

def selwake_inode (mask : BitVec 16) (mem : Memory) (status : Nat → Status) : Nat → Status :=
  events.foldl (fun status e => if wants mask e then selwake mem status e else status) status

end

/-! ## The offsets of a pipe -/

/-- They stay below the 18 block pointers that are direct ones. -/
def Offset : Type := { n : Nat // n < 18 * BLKSIZE }

/-- A round of `readi` or `writei` moves at most to the end of a block. -/
def Offset.advance (off : Offset) (amount : Nat) : Offset :=
  let next := off.val + min amount (BLKSIZE - off.val % BLKSIZE)
  if inside : next < 18 * BLKSIZE then ⟨next, inside⟩ else ⟨0, by decide⟩

def Offset.block (off : Offset) : Nat := off.val / BLKSIZE

/-- The direct branch of `bmap`: a block is found for a pointer that is zero. -/
def bmap (k : Nat) (lo hi : Byte) (mem : Memory) : Memory :=
  if mem (2 * k) = 0 ∧ mem (2 * k + 1) = 0 then put (put mem (2 * k) lo) (2 * k + 1) hi else mem

/-! ## Steps -/

/-- `registered` is history. -/
structure State where
  mem : Memory
  roff : Offset
  woff : Offset
  status : Nat → Status
  registered : Event → Nat → Bool

/-- `move` is whatever else a process does. -/
inductive Action [Machine] where
  | selwait (p : Fin PTABSIZE) (smask : Byte) (setit : Bool)
  | selwake (mask : BitVec 16)
  | read (amount : Nat)
  | write (amount : Nat) (lo hi : Byte)
  | move (q : Nat) (status : Status)

section
variable [Machine]

def register (p : Nat) (smask : Byte) (setit : Bool) (registered : Event → Nat → Bool) :
    Event → Nat → Bool := fun e q => if q = p ∧ wants smask e then setit else registered e q

def State.step (s : State) : Action → State
  | .selwait p smask setit => { s with
    mem := selwait_inode p smask setit s.mem
    registered := register p smask setit s.registered }
  | .selwake mask => { s with status := selwake_inode mask s.mem s.status }
  | .read amount => { s with roff := s.roff.advance amount }
  | .write amount lo hi => { s with
    mem := bmap s.woff.block lo hi s.mem
    woff := s.woff.advance amount }
  | .move q status => { s with status := put s.status q status }

/-! ## What is asked of them -/

/-- Each map holds the processes that have registered for its event. -/
def Tracks (s : State) : Prop :=
  ∀ e, ∀ q < PTABSIZE, Bits.test s.mem (base e) q = s.registered e q

/-- What the call is to leave: the bit of the process in the maps, and nothing else. -/
def wanted (p : Nat) (smask : Byte) (setit : Bool) (mem : Memory) : Memory :=
  events.foldl (fun mem e =>
    if wants smask e then (if setit then seladdwait p mem e else selrmwait p mem e) else mem) mem

/-- The field of block pointer `k` has no byte of a map. -/
def Apart (k : Nat) : Prop := ∀ e, ∀ j < SELMAPSIZE, base e + j ≠ 2 * k ∧ base e + j ≠ 2 * k + 1

/-- The process has registered for one of the events. -/
def Called (mask : BitVec 16) (s : State) (q : Nat) : Prop :=
  q < maxproc ∧ ∃ e, wants mask e = true ∧ s.registered e q = true

def Asked (s : State) : Action → Prop
  | .selwait p smask setit => selwait_inode p smask setit s.mem = wanted p smask setit s.mem
  | .selwake mask => ∀ q,
    (Called mask s q → selwake_inode mask s.mem s.status q = pwake (s.status q)) ∧
      (¬ Called mask s q → selwake_inode mask s.mem s.status q = s.status q)
  | .read _ => Apart s.roff.block
  | .write _ _ _ => Apart s.woff.block
  | .move _ _ => True

structure Right (s : State) (a : Action) : Prop where
  asked : Asked s a
  tracks : Tracks (s.step a)

/-- The byte at `x` already is what `selwait_inode` makes of it. -/
def Still (p : Nat) (setit : Bool) (mem : Memory) (x : Nat) : Prop :=
  (mem x &&& ~~~ (BitVec.ofNat 8 p >>> 3)) ||| (BitVec.ofNat 8 p &&& (if setit then 1 else 0)) = mem x

/-- The bits are there already, and so is what the call stores in their place; or the
process is cleared and `1 << (p & 7)` happens to be `p >> 3`. A pipe keeps away from its
last direct block. -/
def Clean (s : State) : Action → Prop
  | .selwait p smask setit => ∀ e, wants smask e = true →
    Bits.test s.mem (base e) p = setit ∧ Still p setit s.mem (base e + 2 ^ (p.val % 8)) ∨
      setit = false ∧ p.val / 8 = 2 ^ (p.val % 8)
  | .read _ => s.roff.block < 17
  | .write _ _ _ => s.woff.block < 17
  | _ => True

/-- Each step of the list is `good` in the state it finds. -/
def Throughout (good : State → Action → Prop) : State → List Action → Prop
  | _, [] => True
  | s, a :: as => good s a ∧ Throughout good (s.step a) as

/-! ## Stores into the three maps -/

theorem selmapsize_pos : 0 < SELMAPSIZE := by
  have := Machine.someProc
  unfold SELMAPSIZE
  omega

theorem base_inj {e e' : Event} {j : Nat} (same : base e + j = base e' + j) : e = e' := by
  have size := selmapsize_pos
  apply Event.index_inj
  unfold base at same
  exact Nat.eq_of_mul_eq_mul_left size (by omega)

/-- A byte of each map is changed. -/
theorem foldl_touch (f : Byte → Byte) (asked : Event → Bool) (j : Nat) {es : List Event}
    (once : es.Nodup) (mem : Memory) (x : Nat) :
    (∀ e ∈ es, asked e = true → x = base e + j →
      es.foldl (fun mem e => if asked e then touch f mem (base e + j) else mem) mem x = f (mem x)) ∧
    ((∀ e ∈ es, asked e = true → x ≠ base e + j) →
      es.foldl (fun mem e => if asked e then touch f mem (base e + j) else mem) mem x = mem x) := by
  induction es generalizing mem with
  | nil => exact ⟨fun _ no => absurd no List.not_mem_nil, fun _ => rfl⟩
  | cons e es ih =>
    obtain ⟨fresh, rest⟩ := List.nodup_cons.mp once
    simp only [List.foldl_cons]
    by_cases here : asked e = true ∧ x = base e + j
    · obtain ⟨ask, rfl⟩ := here
      have away : ∀ d ∈ es, asked d = true → base e + j ≠ base d + j := by
        intro d later _ same
        exact fresh (base_inj same ▸ later)
      rw [if_pos ask, (ih rest _).2 away]
      constructor
      · intro d _ _ _
        exact put_same _ _ _
      · intro none
        exact absurd rfl (none e List.mem_cons_self ask)
    · have kept : (if asked e then touch f mem (base e + j) else mem) x = mem x := by
        by_cases ask : asked e = true
        · rw [if_pos ask]
          exact put_ne _ _ (fun same => here ⟨ask, same⟩)
        · rw [if_neg ask]
      constructor
      · intro d listed ask same
        rcases List.mem_cons.mp listed with rfl | later
        · exact absurd ⟨ask, same⟩ here
        · rw [(ih rest _).1 d later ask same, kept]
      · intro none
        rw [(ih rest _).2 (fun d later => none d (List.mem_cons_of_mem e later)), kept]

omit [Machine] in
theorem events_nodup : events.Nodup := by decide

/-! ## The call as it is and as it is wanted -/

/-- What the call does to the byte it picks. -/
def stored (p : Nat) (setit : Bool) (b : Byte) : Byte :=
  (b &&& ~~~ (BitVec.ofNat 8 p >>> 3)) ||| (BitVec.ofNat 8 p &&& (if setit then 1 else 0))

/-- What it is to do to the byte of the process. -/
def marked (p : Nat) (setit : Bool) (b : Byte) : Byte :=
  if setit then b ||| Bits.bit p else b &&& ~~~ Bits.bit p

omit [Machine] in
theorem bit_toNat (p : Nat) : (Bits.bit p).toNat = 2 ^ (p % 8) := by
  have small : p % 8 < 8 := Nat.mod_lt p (by decide)
  unfold Bits.bit
  rw [← BitVec.twoPow_eq, BitVec.toNat_twoPow, Nat.mod_eq_of_lt]
  exact Nat.pow_lt_pow_right (by decide) small

omit [Machine] in
/-- The bit of the process in the byte that the call stores. -/
theorem stored_bit {p : Nat} (slot : p < 256) (setit : Bool) (b : Byte) :
    (stored p setit b).getLsbD (p % 8) = (b.getLsbD (p % 8) && !(p / 8).testBit (p % 8)) := by
  have small : p % 8 < 8 := Nat.mod_lt p (by decide)
  have shifted : (BitVec.ofNat 8 p >>> 3).getLsbD (p % 8) = (p / 8).testBit (p % 8) := by
    have number : (BitVec.ofNat 8 p >>> 3).toNat = p / 8 := by
      rw [BitVec.toNat_ushiftRight, BitVec.toNat_ofNat, Nat.mod_eq_of_lt slot, Nat.shiftRight_eq_div_pow]
    unfold BitVec.getLsbD
    rw [number]
  have odd : (BitVec.ofNat 8 p &&& (if setit then 1 else 0)).getLsbD (p % 8) = false := by
    cases setit with
    | false => simp
    | true =>
      by_cases zero : p % 8 = 0
      · have even : p.testBit 0 = false := by
          rw [Nat.testBit_zero]
          simp
          omega
        rw [zero, BitVec.getLsbD_and, BitVec.getLsbD_ofNat, even]
        simp
      · simp [zero]
  unfold stored
  rw [BitVec.getLsbD_or, BitVec.getLsbD_and, BitVec.getLsbD_not, shifted, odd]
  simp [small]

omit [Machine] in
theorem marked_bit (p : Nat) (setit : Bool) (b : Byte) : (marked p setit b).getLsbD (p % 8) = setit := by
  have small : p % 8 < 8 := Nat.mod_lt p (by decide)
  unfold marked
  cases setit with
  | false => simp [Bits.getLsbD_bit, small]
  | true => simp [Bits.getLsbD_bit]

omit [Machine] in
theorem marked_other (p : Nat) (setit : Bool) (b : Byte) {i : Nat} (inside : i < 8) (other : i ≠ p % 8) :
    (marked p setit b).getLsbD i = b.getLsbD i := by
  unfold marked
  cases setit with
  | false =>
    rw [if_neg (by decide), BitVec.getLsbD_and, BitVec.getLsbD_not, Bits.getLsbD_bit]
    simp [other, inside]
  | true =>
    rw [if_pos rfl, BitVec.getLsbD_or, Bits.getLsbD_bit]
    simp [other]

omit [Machine] in
theorem marked_self {p : Nat} {setit : Bool} {b : Byte} (there : b.getLsbD (p % 8) = setit) :
    marked p setit b = b := by
  apply BitVec.eq_of_getLsbD_eq
  intro i inside
  by_cases same : i = p % 8
  · subst same
    rw [marked_bit, there]
  · exact marked_other p setit b inside same

omit [Machine] in
theorem stored_accident {p : Nat} (slot : p < 256) (accident : p / 8 = 2 ^ (p % 8)) (b : Byte) :
    stored p false b = marked p false b := by
  have same : BitVec.ofNat 8 p >>> 3 = Bits.bit p := by
    apply BitVec.eq_of_toNat_eq
    rw [bit_toNat, BitVec.toNat_ushiftRight, BitVec.toNat_ofNat, Nat.mod_eq_of_lt slot,
      Nat.shiftRight_eq_div_pow]
    exact accident
  unfold stored marked
  rw [same]
  simp

/-- A byte that one map shares with the wrong place in another one lies below it. -/
theorem cross_less {p : Nat} (slot : p < PTABSIZE) (accident : p / 8 ≠ 2 ^ (p % 8)) {e d : Event}
    (cross : base e + p / 8 = base d + 2 ^ (p % 8)) : p / 8 < 2 ^ (p % 8) := by
  have inside : p / 8 < SELMAPSIZE := by
    unfold SELMAPSIZE
    omega
  unfold base at cross
  generalize 2 ^ (p % 8) = m at accident cross ⊢
  rcases Nat.lt_trichotomy e.index d.index with less | same | more
  · have next := Nat.mul_le_mul_left SELMAPSIZE (Nat.succ_le_of_lt less)
    rw [Nat.succ_eq_add_one, Nat.mul_add, Nat.mul_one] at next
    omega
  · rw [same] at cross
    omega
  · have next := Nat.mul_le_mul_left SELMAPSIZE (Nat.succ_le_of_lt more)
    rw [Nat.succ_eq_add_one, Nat.mul_add, Nat.mul_one] at next
    omega

theorem selwait_hit (p : Nat) (smask : Byte) (setit : Bool) (mem : Memory) {e : Event}
    (ask : wants smask e = true) :
    selwait_inode p smask setit mem (base e + 2 ^ (p % 8)) = stored p setit (mem (base e + 2 ^ (p % 8))) := by
  unfold selwait_inode
  rw [← bit_toNat]
  exact (foldl_touch _ (wants smask) _ events_nodup mem _).1 e e.listed ask rfl

theorem selwait_miss (p : Nat) (smask : Byte) (setit : Bool) (mem : Memory) {x : Nat}
    (away : ∀ e, wants smask e = true → x ≠ base e + 2 ^ (p % 8)) :
    selwait_inode p smask setit mem x = mem x := by
  unfold selwait_inode
  apply (foldl_touch _ (wants smask) _ events_nodup mem _).2
  intro e _ ask
  rw [bit_toNat]
  exact away e ask

theorem wanted_fold (p : Nat) (smask : Byte) (setit : Bool) (mem : Memory) :
    wanted p smask setit mem = events.foldl (fun mem e =>
      if wants smask e then touch (marked p setit) mem (base e + p / 8) else mem) mem := by
  unfold wanted
  cases setit
  · rfl
  · rfl

theorem wanted_hit (p : Nat) (smask : Byte) (setit : Bool) (mem : Memory) {e : Event}
    (ask : wants smask e = true) :
    wanted p smask setit mem (base e + p / 8) = marked p setit (mem (base e + p / 8)) := by
  rw [wanted_fold]
  exact (foldl_touch _ (wants smask) _ events_nodup mem _).1 e e.listed ask rfl

theorem wanted_miss (p : Nat) (smask : Byte) (setit : Bool) (mem : Memory) {x : Nat}
    (away : ∀ e, wants smask e = true → x ≠ base e + p / 8) : wanted p smask setit mem x = mem x := by
  rw [wanted_fold]
  exact (foldl_touch _ (wants smask) _ events_nodup mem _).2 (fun e _ => away e)

theorem selwait_still (p : Nat) (smask : Byte) (setit : Bool) (mem : Memory)
    (still : ∀ e, wants smask e = true → Still p setit mem (base e + 2 ^ (p % 8))) :
    selwait_inode p smask setit mem = mem := by
  funext x
  by_cases hit : ∃ e, wants smask e = true ∧ x = base e + 2 ^ (p % 8)
  · obtain ⟨e, ask, rfl⟩ := hit
    rw [selwait_hit p smask setit mem ask]
    exact still e ask
  · exact selwait_miss p smask setit mem (fun e ask same => hit ⟨e, ask, same⟩)

theorem wanted_still (p : Nat) (smask : Byte) (setit : Bool) (mem : Memory)
    (there : ∀ e, wants smask e = true → Bits.test mem (base e) p = setit) :
    wanted p smask setit mem = mem := by
  funext x
  by_cases hit : ∃ e, wants smask e = true ∧ x = base e + p / 8
  · obtain ⟨e, ask, rfl⟩ := hit
    rw [wanted_hit p smask setit mem ask]
    exact marked_self (there e ask)
  · exact wanted_miss p smask setit mem (fun e ask same => hit ⟨e, ask, same⟩)

/-- A slot that the wrong index hits by accident is cleared rightly and never set. -/
theorem accident_iff {p : Nat} (slot : p < 256) (accident : p / 8 = 2 ^ (p % 8)) (smask : Byte)
    (setit : Bool) (mem : Memory) :
    selwait_inode p smask setit mem = wanted p smask setit mem ↔
      ∀ e, wants smask e = true → setit = false := by
  constructor
  · intro same e ask
    have here := congrFun same (base e + p / 8)
    have hit := selwait_hit p smask setit mem ask
    rw [← accident] at hit
    rw [hit, wanted_hit p smask setit mem ask] at here
    have bits := congrArg (fun b : Byte => b.getLsbD (p % 8)) here
    simp only [stored_bit slot, marked_bit, accident, Nat.testBit_two_pow_self] at bits
    simpa using bits.symm
  · intro none
    funext x
    by_cases hit : ∃ e, wants smask e = true ∧ x = base e + p / 8
    · obtain ⟨e, ask, rfl⟩ := hit
      have found := selwait_hit p smask setit mem ask
      rw [← accident] at found
      rw [found, wanted_hit p smask setit mem ask, none e ask, stored_accident slot accident]
    · have away : ∀ e, wants smask e = true → x ≠ base e + p / 8 := fun e ask same => hit ⟨e, ask, same⟩
      rw [wanted_miss p smask setit mem away]
      exact selwait_miss p smask setit mem (fun e ask => accident ▸ away e ask)

theorem selwait_iff {p : Nat} (slot : p < PTABSIZE) (smask : Byte) (setit : Bool) (mem : Memory) :
    selwait_inode p smask setit mem = wanted p smask setit mem ↔
      ∀ e, wants smask e = true →
        Bits.test mem (base e) p = setit ∧ Still p setit mem (base e + 2 ^ (p % 8)) ∨
          setit = false ∧ p / 8 = 2 ^ (p % 8) := by
  have table := Machine.tableBound
  have byte : p < 256 := by omega
  by_cases accident : p / 8 = 2 ^ (p % 8)
  · rw [accident_iff byte accident]
    constructor
    · intro none e ask
      exact Or.inr ⟨none e ask, accident⟩
    · intro clean e ask
      rcases clean e ask with ⟨there, still⟩ | ⟨none, _⟩
      · have same : stored p setit (mem (base e + 2 ^ (p % 8))) = mem (base e + 2 ^ (p % 8)) := still
        have bits := congrArg (fun b : Byte => b.getLsbD (p % 8)) same
        simp only [stored_bit byte, accident, Nat.testBit_two_pow_self] at bits
        unfold Bits.test at there
        rw [accident, ← bits] at there
        simpa using there.symm
      · exact none
  · constructor
    · intro same
      have there : ∀ e, wants smask e = true → Bits.test mem (base e) p = setit := by
        intro e ask
        have here := congrFun same (base e + p / 8)
        rw [wanted_hit p smask setit mem ask] at here
        have bits := congrArg (fun b : Byte => b.getLsbD (p % 8)) here
        rw [marked_bit] at bits
        rw [← bits]
        by_cases other : ∃ d, wants smask d = true ∧ base e + p / 8 = base d + 2 ^ (p % 8)
        · obtain ⟨d, asked, cross⟩ := other
          have less := cross_less slot accident cross
          rw [cross, selwait_hit p smask setit mem asked, stored_bit byte, Nat.testBit_lt_two_pow less, ← cross]
          simp [Bits.test]
        · rw [selwait_miss p smask setit mem (fun d asked cross => other ⟨d, asked, cross⟩)]
          rfl
      have kept := wanted_still p smask setit mem there
      intro e ask
      refine Or.inl ⟨there e ask, ?_⟩
      have here := congrFun (same.trans kept) (base e + 2 ^ (p % 8))
      rw [selwait_hit p smask setit mem ask] at here
      exact here
    · intro clean
      have both : ∀ e, wants smask e = true →
          Bits.test mem (base e) p = setit ∧ Still p setit mem (base e + 2 ^ (p % 8)) := by
        intro e ask
        rcases clean e ask with both | ⟨_, no⟩
        · exact both
        · exact absurd no accident
      rw [selwait_still p smask setit mem (fun e ask => (both e ask).2),
        wanted_still p smask setit mem (fun e ask => (both e ask).1)]

/-! ## One step -/

/-- Bytes of maps are the same byte only in one map. -/
theorem base_apart {e d : Event} {j k : Nat} (insideJ : j < SELMAPSIZE) (insideK : k < SELMAPSIZE)
    (same : base e + j = base d + k) : e = d ∧ j = k := by
  unfold base at same
  rcases Nat.lt_trichotomy e.index d.index with less | equal | more
  · have next := Nat.mul_le_mul_left SELMAPSIZE (Nat.succ_le_of_lt less)
    rw [Nat.succ_eq_add_one, Nat.mul_add, Nat.mul_one] at next
    omega
  · rw [equal] at same
    exact ⟨Event.index_inj equal, by omega⟩
  · have next := Nat.mul_le_mul_left SELMAPSIZE (Nat.succ_le_of_lt more)
    rw [Nat.succ_eq_add_one, Nat.mul_add, Nat.mul_one] at next
    omega

theorem byte_inside {q : Nat} (slot : q < PTABSIZE) : q / 8 < SELMAPSIZE := by
  unfold SELMAPSIZE
  omega

/-- The wanted stores change the bits of the process in the maps that are asked for. -/
theorem test_wanted {p q : Nat} (slot : p < PTABSIZE) (slot' : q < PTABSIZE) (smask : Byte) (setit : Bool)
    (mem : Memory) (e : Event) :
    Bits.test (wanted p smask setit mem) (base e) q =
      if q = p ∧ wants smask e then setit else Bits.test mem (base e) q := by
  unfold Bits.test
  by_cases hit : wants smask e = true ∧ q / 8 = p / 8
  · obtain ⟨ask, sameByte⟩ := hit
    rw [sameByte, wanted_hit p smask setit mem ask]
    by_cases same : q = p
    · subst same
      rw [marked_bit, if_pos ⟨rfl, ask⟩]
    · have apart : q % 8 ≠ p % 8 := by omega
      rw [marked_other p setit _ (Nat.mod_lt q (by decide)) apart, if_neg (fun both => same both.1)]
  · have away : ∀ d, wants smask d = true → base e + q / 8 ≠ base d + p / 8 := by
      intro d ask same
      obtain ⟨rfl, sameByte⟩ := base_apart (byte_inside slot') (byte_inside slot) same
      exact hit ⟨ask, sameByte⟩
    have other : ¬ (q = p ∧ wants smask e = true) := by
      rintro ⟨rfl, ask⟩
      exact hit ⟨ask, rfl⟩
    rw [wanted_miss p smask setit mem away, if_neg other]

theorem tracks_selwait {s : State} {p : Fin PTABSIZE} {smask : Byte} {setit : Bool} (tracks : Tracks s)
    (exact' : selwait_inode p smask setit s.mem = wanted p smask setit s.mem) :
    Tracks (s.step (.selwait p smask setit)) := by
  intro e q slot
  have stored : (s.step (.selwait p smask setit)).mem = wanted p smask setit s.mem := exact'
  rw [stored, test_wanted p.isLt slot, tracks e q slot]
  rfl

/-- A block pointer below the maps is stored. -/
theorem test_bmap {k : Nat} (below : k < 17) (lo hi : Byte) (mem : Memory) (e : Event) (q : Nat) :
    Bits.test (bmap k lo hi mem) (base e) q = Bits.test mem (base e) q := by
  apply Bits.test_other
  have above : 34 ≤ base e := by
    unfold base
    omega
  unfold bmap
  by_cases free : mem (2 * k) = 0 ∧ mem (2 * k + 1) = 0
  · rw [if_pos free, put_ne _ _ (by omega), put_ne _ _ (by omega)]
  · rw [if_neg free]

omit [Machine] in
theorem pwake_pwake (status : Status) : pwake (pwake status) = pwake status := by
  unfold pwake
  by_cases asleep : status = .sleep
  · simp [asleep]
  · simp [asleep]

theorem selwake_calls (mask : BitVec 16) (mem : Memory) (status : Nat → Status) (q : Nat) (es : List Event) :
    es.foldl (fun status e => if wants mask e then selwake mem status e else status) status q =
      if q < maxproc ∧ (∃ e ∈ es, wants mask e = true ∧ Bits.test mem (base e) q = true)
      then pwake (status q) else status q := by
  induction es generalizing status with
  | nil => simp
  | cons e es ih =>
    rw [List.foldl_cons, ih]
    unfold selwake
    by_cases inside : q < maxproc
    · by_cases ask : wants mask e = true
      · by_cases here : Bits.test mem (base e) q = true
        · simp [inside, ask, here, pwake_pwake]
        · simp [inside, ask, here]
      · simp [ask]
    · by_cases ask : wants mask e = true
      · simp [inside, ask]
      · simp [inside, ask]

theorem apart_iff (off : Offset) : Apart off.block ↔ off.block < 17 := by
  have bound : off.block < 18 := by
    have := off.property
    unfold Offset.block BLKSIZE at *
    omega
  constructor
  · intro apart
    by_contra last
    have here : off.block = 17 := by omega
    have first := (apart .input 0 selmapsize_pos).1
    rw [here] at first
    exact first rfl
  · intro below e j inside
    unfold base
    omega

theorem selwake_asked {s : State} (tracks : Tracks s) (mask : BitVec 16) : Asked s (.selwake mask) := by
  intro q
  have status := selwake_calls mask s.mem s.status q events
  have called : (q < maxproc ∧ ∃ e ∈ events, wants mask e = true ∧ Bits.test s.mem (base e) q = true) ↔
      Called mask s q := by
    constructor
    · rintro ⟨inside, e, _, ask, here⟩
      have slot := Nat.lt_of_lt_of_le inside Machine.procBound
      exact ⟨inside, e, ask, (tracks e q slot).symm.trans here⟩
    · rintro ⟨inside, e, ask, here⟩
      have slot := Nat.lt_of_lt_of_le inside Machine.procBound
      exact ⟨inside, e, e.listed, ask, (tracks e q slot).trans here⟩
  constructor
  · intro yes
    exact status.trans (if_pos (called.mpr yes))
  · intro no
    exact status.trans (if_neg (fun yes => no (called.mp yes)))

theorem right_iff {s : State} (tracks : Tracks s) (a : Action) : Right s a ↔ Clean s a := by
  cases a with
  | selwait p smask setit =>
    constructor
    · intro right
      exact (selwait_iff p.isLt smask setit s.mem).mp right.asked
    · intro clean
      have same := (selwait_iff p.isLt smask setit s.mem).mpr clean
      exact ⟨same, tracks_selwait tracks same⟩
  | selwake mask =>
    exact ⟨fun _ => True.intro, fun _ => ⟨selwake_asked tracks mask, tracks⟩⟩
  | read amount =>
    constructor
    · intro right
      exact (apart_iff s.roff).mp right.asked
    · intro clean
      exact ⟨(apart_iff s.roff).mpr clean, tracks⟩
  | write amount lo hi =>
    constructor
    · intro right
      exact (apart_iff s.woff).mp right.asked
    · intro clean
      refine ⟨(apart_iff s.woff).mpr clean, fun e q slot => ?_⟩
      exact (test_bmap clean lo hi s.mem e q).trans (tracks e q slot)
  | move q status =>
    exact ⟨fun _ => True.intro, fun _ => ⟨True.intro, tracks⟩⟩

/-- From maps that hold the registered processes, every step of a run does what is asked
just when every step is clean. -/
theorem maps_track {s : State} (tracks : Tracks s) (as : List Action) :
    Throughout Right s as ↔ Throughout Clean s as := by
  induction as generalizing s with
  | nil => exact Iff.rfl
  | cons a as ih =>
    constructor
    · rintro ⟨right, rest⟩
      exact ⟨(right_iff tracks a).mp right, (ih right.tracks).mp rest⟩
    · rintro ⟨clean, rest⟩
      have right := (right_iff tracks a).mpr clean
      exact ⟨right, (ih right.tracks).mpr rest⟩

end

/-- The 15 processes of the default configuration. -/
instance standard : Machine := ⟨15, 15, by decide, by decide, by decide⟩

/-- An inode with empty maps, and processes that run. -/
def fresh : State := ⟨fun _ => 0, ⟨0, by decide⟩, ⟨0, by decide⟩, fun _ => .running, fun _ _ => false⟩

theorem fresh_tracks : Tracks fresh := by
  intro e q _
  unfold Bits.test fresh
  exact BitVec.getLsbD_zero

/-- Slot 3 is cleared for input, a pipe is written, and nobody is woken. -/
theorem maps_track_clear : Throughout Right fresh
    [.selwait 3 1 false, .write 100 7 0, .selwake 1] := by
  refine (maps_track fresh_tracks _).mpr ⟨?_, ?_, True.intro, True.intro⟩
  · intro e ask
    have still : (0 &&& ~~~ (BitVec.ofNat 8 3 >>> 3)) ||| (BitVec.ofNat 8 3 &&& 0) = (0 : Byte) := by decide
    exact Or.inl ⟨fresh_tracks e 3 (by decide), still⟩
  · show 0 / 512 < 17
    decide

/-- Slot 1 registers for input; its bit stays off, and a bit for output of slot 0 is set. -/
theorem registered_elsewhere : ¬ ∀ [Machine] (s : State) (as : List Action), Tracks s → Throughout Right s as := by
  intro always
  have right := (always fresh [.selwait 1 1 true] fresh_tracks).1
  have bit := right.tracks .input 1 (by decide)
  revert bit
  decide

end Selmap
