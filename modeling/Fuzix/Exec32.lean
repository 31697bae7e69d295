import Fuzix.Lib.Region
import Mathlib.Algebra.Group.Nat.Hom

/-!
# The 32-bit program loader

`_execve` checks the header of a flat binary, takes memory for all of it, copies the
header and the file there, relocates the words that the table names and clears what
lies behind the data. Addresses are 32 bits wide. Every access to the memory of the new
process is recorded. `pagemap_realloc` is an input.
-/

set_option linter.unusedSectionVars false

namespace Exec32

open Cyclic

def ENOEXEC : Nat := 8
def ENOMEM : Nat := 12

/-- What differs between processors and platforms. -/
class Loader where
  littleEndian : Bool
  /-- `pagemap_realloc` and then `pagemap_base`. -/
  realloc : BitVec 32 → Option (BitVec 32)
  /-- The memory does not run past the last address. -/
  room : ∀ size base, realloc size = some base → base.toNat + size.toNat < 4294967296

export Loader (littleEndian realloc)

section Loader
variable [Loader]

/-! ## Memory -/

def byteOf (w : BitVec 32) (k : Nat) : UInt8 :=
  UInt8.ofNat (w.toNat / 256 ^ (if littleEndian then k else 3 - k))

def wordOf (f : Nat → UInt8) : BitVec 32 :=
  let sum := fun a b c d => (f a).toNat + 256 * ((f b).toNat + 256 * ((f c).toNat + 256 * (f d).toNat))
  BitVec.ofNat 32 (if littleEndian then sum 0 1 2 3 else sum 3 2 1 0)

/-- The bytes, and the regions that were read or written. -/
structure Memory where
  bytes : BitVec 32 → UInt8
  touched : List Region

def Memory.word (m : Memory) (addr : BitVec 32) : BitVec 32 :=
  wordOf fun k => m.bytes (addr + BitVec.ofNat 32 k)

def Memory.touch (m : Memory) (addr : BitVec 32) (len : Nat) : Memory :=
  { m with touched := ⟨addr.toNat, len⟩ :: m.touched }

def Memory.fill (m : Memory) (addr : BitVec 32) (len : Nat) (f : Nat → UInt8) : Memory where
  bytes := fun a => if (a - addr).toNat < len then f (a - addr).toNat else m.bytes a
  touched := ⟨addr.toNat, len⟩ :: m.touched

def Memory.put (m : Memory) (addr w : BitVec 32) : Memory := m.fill addr 4 (byteOf w)

/-! ## The header -/

/-- `struct binfmt_flat` -/
structure Binflat where
  magic : BitVec 32
  rev : BitVec 32
  entry : BitVec 32
  data_start : BitVec 32
  data_end : BitVec 32
  bss_end : BitVec 32
  stack_size : BitVec 32
  reloc_start : BitVec 32
  reloc_count : BitVec 32
  flags : BitVec 32
  filler : List (BitVec 32)
deriving DecidableEq

/-- The header as the bytes of a file have it. -/
def headerOf (file : Nat → UInt8) : Binflat :=
  let w := fun i => wordOf fun k => file (4 * i + k)
  ⟨w 0, w 1, w 2, w 3, w 4, w 5, w 6, w 7, w 8, w 9, (List.range 6).map fun i => w (10 + i)⟩

def Binflat.words (bf : Binflat) : List (BitVec 32) :=
  [bf.magic, bf.rev, bf.entry, bf.data_start, bf.data_end, bf.bss_end, bf.stack_size,
    bf.reloc_start, bf.reloc_count, bf.flags] ++ bf.filler

def Binflat.bytes (bf : Binflat) (k : Nat) : UInt8 := byteOf (bf.words.getD (k / 4) 0) (k % 4)

/-- `memcmp(binflat.magic, "bFLT", 4)` finds no difference. -/
def magicOk (file : Nat → UInt8) : Prop :=
  file 0 = 98 ∧ file 1 = 70 ∧ file 2 = 76 ∧ file 3 = 84

instance (file : Nat → UInt8) : Decidable (magicOk file) := by unfold magicOk; infer_instance

/-- The stack that `valid_hdr` provides. -/
def Binflat.raiseStack (bf : Binflat) : Binflat :=
  if bf.stack_size < 32768 then { bf with stack_size := 32768 } else bf

/-- The fix-up of the BSS, "so that it's big enough to hold the relocations". -/
def Binflat.fixBss (bf : Binflat) : Binflat :=
  if bf.bss_end - bf.data_end < 4 * bf.reloc_count then
    { bf with bss_end := bf.data_end + 4 * bf.reloc_count }
  else bf

/-- `valid_hdr`, with the header as it leaves it. -/
def valid_hdr (i_size : BitVec 32) (bf : Binflat) : Option Binflat :=
  let bf := bf.raiseStack
  if bf.rev ≠ 4 then none
  else if bf.entry ≥ bf.data_start then none
  else if bf.data_start > bf.data_end then none
  else if bf.data_end > bf.bss_end then none
  else if bf.bss_end + bf.stack_size < bf.bss_end then none
  else if bf.data_end > i_size then none
  else if (bf.data_start ||| bf.data_end ||| bf.bss_end ||| bf.entry) &&& 1 ≠ 0 then none
  else
    let bf := bf.fixBss
    if bf.reloc_start + bf.reloc_count * 4 > i_size ∨
        bf.reloc_start + bf.reloc_count * 4 < bf.reloc_start then none
    else if bf.flags ≠ 1 then none
    else some bf

/-! ## Loading -/

/-- One turn of the loop of `relocate`, for the entry at `rp`. -/
def relocateOne (progbase size : BitVec 32) (m : Memory) (rp : BitVec 32) : Memory :=
  let v := m.word rp
  let m := m.touch rp 4
  if v < size ∧ v &&& 1 = 0 then
    m.put (progbase + 64 + v) (m.word (progbase + 64 + v) + (progbase + 64))
  else m

def relocate (progbase size : BitVec 32) : Nat → BitVec 32 → Memory → Memory
  | 0, _, m => m
  | n + 1, rp, m => relocate progbase size n (rp + 4) (relocateOne progbase size m rp)

/-- The end of the relocations, and of what is read of the file. -/
def Binflat.loadEnd (bf : Binflat) : BitVec 32 := bf.reloc_start + 4 * bf.reloc_count

/-- `bin_size` at the call of `relocate`. -/
def Binflat.relocSize (bf : Binflat) : BitVec 32 :=
  if bf.loadEnd > 64 then bf.loadEnd - 64 else bf.loadEnd

/-- The memory that is asked for. -/
def Binflat.binSize (bf : Binflat) : BitVec 32 := bf.bss_end + bf.stack_size

structure Process where
  bf : Binflat
  progbase : BitVec 32
  /-- The bytes of the header and the file in memory. -/
  loaded : Nat
  memory : Memory

/-- `uput` of the header and `readi` of the rest of the file, and how many bytes of the
file were read. -/
def load (bf : Binflat) (progbase : BitVec 32) (file : Nat → UInt8) (i_size : BitVec 32)
    (m : Memory) : Memory × Nat :=
  let m := m.fill progbase 64 bf.bytes
  if bf.loadEnd > 64 then
    let done := min bf.relocSize.toNat (i_size.toNat - 64)
    (m.fill (progbase + 64) done fun k => file (64 + k), done)
  else (m, 0)

/-- `uzero` of the BSS and the stack. -/
def clear (bf : Binflat) (progbase : BitVec 32) (m : Memory) : Memory :=
  m.fill (progbase + bf.data_end) (bf.bss_end - bf.data_end + bf.stack_size).toNat fun _ => 0

/-- `_execve` of a file that may be executed, between the permissions and the arguments.
`old` is what the memory held before. -/
def execve (file : Nat → UInt8) (i_size : BitVec 32) (old : BitVec 32 → UInt8) :
    Except Nat Process :=
  if min 64 i_size.toNat ≠ 64 then .error ENOEXEC
  else if ¬ magicOk file then .error ENOEXEC
  else match valid_hdr i_size (headerOf file) with
    | none => .error ENOEXEC
    | some bf =>
      if bf.binSize < bf.bss_end then .error ENOEXEC
      else match realloc bf.binSize with
        | none => .error ENOMEM
        | some progbase =>
          let (m, done) := load bf progbase file i_size ⟨old, []⟩
          if bf.loadEnd > 64 ∧ done ≠ bf.relocSize.toNat then .error ENOEXEC
          else
            let m := relocate progbase bf.relocSize bf.reloc_count.toNat
              (progbase + bf.reloc_start) m
            .ok ⟨bf, progbase, 64 + done, clear bf progbase m⟩

/-! ## What is touched -/

/-- Everything that was read or written lies in `size` bytes from `progbase`. -/
def Inside (progbase size : BitVec 32) (m : Memory) : Prop :=
  ∀ r ∈ m.touched, r.inside 4294967296 progbase.toNat (progbase.toNat + size.toNat)

section Touched
variable {progbase size room : BitVec 32} {m : Memory}

theorem inside_cons (bytes : BitVec 32 → UInt8) (r : Region) (rs : List Region) :
    Inside progbase room ⟨bytes, r :: rs⟩ ↔
      r.inside 4294967296 progbase.toNat (progbase.toNat + room.toNat) ∧
        Inside progbase room ⟨bytes, rs⟩ := by
  unfold Inside
  exact List.forall_mem_cons

theorem offset_toNat (addr : BitVec 32) : (progbase + addr).toNat =
    (progbase.toNat + addr.toNat) % 4294967296 := BitVec.toNat_add _ _

/-- An access at an offset. -/
theorem inside_access {offset : BitVec 32} {n : Nat} (some_left : 0 < n)
    (top : progbase.toNat + room.toNat < 4294967296) :
    Region.inside 4294967296 ⟨(progbase + offset).toNat, n⟩ progbase.toNat
      (progbase.toNat + room.toNat) ↔ offset.toNat + n ≤ room.toNat := by
  rw [offset_toNat]
  exact inside_from_iff some_left offset.isLt top

theorem inside_fill {offset : BitVec 32} {n : Nat} {f : Nat → UInt8} (some_left : 0 < n)
    (top : progbase.toNat + room.toNat < 4294967296) :
    Inside progbase room (m.fill (progbase + offset) n f) ↔
      offset.toNat + n ≤ room.toNat ∧ Inside progbase room m := by
  rw [← inside_access some_left top]
  exact inside_cons _ _ _

/-- The entry `v` does not send `relocate` past the room. -/
def EntryFits (size room v : BitVec 32) : Prop :=
  v < size → v &&& 1 = 0 → 68 + v.toNat ≤ room.toNat

theorem inside_relocateOne {offset : BitVec 32} (small : size.toNat + 64 < 4294967296)
    (top : progbase.toNat + room.toNat < 4294967296) :
    Inside progbase room (relocateOne progbase size m (progbase + offset)) ↔
      (offset.toNat + 4 ≤ room.toNat ∧ EntryFits size room (m.word (progbase + offset))) ∧
        Inside progbase room m := by
  have read : Inside progbase room (m.touch (progbase + offset) 4) ↔
      offset.toNat + 4 ≤ room.toNat ∧ Inside progbase room m := by
    rw [← inside_access (by omega) top]
    exact inside_cons _ _ _
  unfold relocateOne EntryFits
  dsimp only
  generalize m.word (progbase + offset) = v
  split
  · rename_i applies
    have low : v.toNat < size.toNat := applies.1
    have sum : (64 + v).toNat = 64 + v.toNat := by
      rw [BitVec.toNat_add]
      exact Nat.mod_eq_of_lt (by show 64 + v.toNat < 4294967296; omega)
    unfold Memory.put
    rw [BitVec.add_assoc, inside_fill (by omega) top, read, sum]
    constructor
    · rintro ⟨write, entry, rest⟩
      exact ⟨⟨entry, fun _ _ => by omega⟩, rest⟩
    · rintro ⟨⟨entry, write⟩, rest⟩
      have fits := write applies.1 applies.2
      exact ⟨by omega, entry, rest⟩
  · rename_i passes
    rw [read]
    constructor
    · rintro ⟨entry, rest⟩
      exact ⟨⟨entry, fun low even => absurd ⟨low, even⟩ passes⟩, rest⟩
    · rintro ⟨⟨entry, _⟩, rest⟩
      exact ⟨entry, rest⟩

theorem relocate_last (n : Nat) (rp : BitVec 32) (m : Memory) :
    relocate progbase size (n + 1) rp m =
      relocateOne progbase size (relocate progbase size n rp m) (rp + BitVec.ofNat 32 (4 * n)) := by
  induction n generalizing rp m with
  | zero =>
    have here : rp + BitVec.ofNat 32 (4 * 0) = rp := BitVec.add_zero rp
    rw [here]
    rfl
  | succ n ih =>
    have next : rp + 4 + BitVec.ofNat 32 (4 * n) = rp + BitVec.ofNat 32 (4 * (n + 1)) := by
      rw [BitVec.add_assoc]
      congr 1
      have four : (4 : BitVec 32) = BitVec.ofNat 32 4 := rfl
      rw [four, ← BitVec.ofNat_add]
      congr 1
      omega
    have rest := ih (rp + 4) (relocateOne progbase size m rp)
    rw [next] at rest
    exact rest

/-- The entry of turn `k`, with what the turns before it wrote. -/
def entryAt (progbase size start : BitVec 32) (m : Memory) (k : Nat) : BitVec 32 :=
  (relocate progbase size k (progbase + start) m).word (progbase + start + BitVec.ofNat 32 (4 * k))

/-- The whole walk over a table that does not wrap. -/
theorem inside_relocate {start : BitVec 32} (n : Nat) (small : size.toNat + 64 < 4294967296)
    (table : start.toNat + 4 * n < 4294967296)
    (top : progbase.toNat + room.toNat < 4294967296) :
    Inside progbase room (relocate progbase size n (progbase + start) m) ↔
      (∀ k, k < n → start.toNat + 4 * k + 4 ≤ room.toNat ∧
        EntryFits size room (entryAt progbase size start m k)) ∧ Inside progbase room m := by
  induction n with
  | zero =>
    constructor
    · intro rest
      exact ⟨fun k hk => absurd hk (Nat.not_lt_zero k), rest⟩
    · rintro ⟨_, rest⟩
      exact rest
  | succ n ih =>
    have offset : (start + BitVec.ofNat 32 (4 * n)).toNat = start.toNat + 4 * n := by
      rw [BitVec.toNat_add, BitVec.toNat_ofNat]
      omega
    rw [relocate_last, BitVec.add_assoc, inside_relocateOne small top, ih (by omega), offset,
      ← BitVec.add_assoc]
    constructor
    · rintro ⟨last, before, rest⟩
      refine ⟨fun k hk => ?_, rest⟩
      by_cases final : k = n
      · subst k
        exact last
      · exact before k (by omega)
    · rintro ⟨all, rest⟩
      exact ⟨all n (by omega), fun k hk => all k (by omega), rest⟩

end Touched

/-! ## What the header promises -/

section Header
variable {i_size : BitVec 32} {bf : Binflat}

theorem raiseStack_stack (h : Binflat) : 32768 ≤ h.raiseStack.stack_size.toNat := by
  unfold Binflat.raiseStack
  split
  · exact Nat.le_refl 32768
  · rename_i large
    exact Nat.le_of_not_lt large

theorem fixBss_stack (h : Binflat) : h.fixBss.stack_size = h.stack_size := by
  unfold Binflat.fixBss
  split <;> rfl

/-- The checks of `valid_hdr` that matter to the accesses. -/
theorem valid_hdr_facts {h : Binflat} (valid : valid_hdr i_size h = some bf) :
    32768 ≤ bf.stack_size.toNat ∧ bf.loadEnd.toNat ≤ i_size.toNat ∧
      bf.reloc_start.toNat ≤ bf.loadEnd.toNat := by
  unfold valid_hdr at valid
  dsimp only at valid
  repeat (split at valid; · cases valid)
  rename_i table _
  injection valid with same
  have stack : 32768 ≤ bf.stack_size.toNat := by
    rw [← same, fixBss_stack]
    exact raiseStack_stack h
  rw [same] at table
  have commuted : bf.reloc_start + bf.reloc_count * 4 = bf.loadEnd := by
    unfold Binflat.loadEnd
    rw [BitVec.mul_comm]
  rw [commuted] at table
  have bounds := not_or.mp table
  exact ⟨stack, Nat.le_of_not_lt bounds.1, Nat.le_of_not_lt bounds.2⟩

/-- With fewer than 2^30 entries nothing of the table's size is lost. -/
theorem loadEnd_toNat (few : bf.reloc_count.toNat < 1073741824)
    (order : bf.reloc_start.toNat ≤ bf.loadEnd.toNat) :
    bf.loadEnd.toNat = bf.reloc_start.toNat + 4 * bf.reloc_count.toNat := by
  have count : (4 * bf.reloc_count).toNat = 4 * bf.reloc_count.toNat := by
    rw [BitVec.toNat_mul]
    exact Nat.mod_eq_of_lt (by show 4 * bf.reloc_count.toNat < 4294967296; omega)
  have sum : bf.loadEnd.toNat =
      (bf.reloc_start.toNat + 4 * bf.reloc_count.toNat) % 4294967296 := by
    unfold Binflat.loadEnd
    rw [BitVec.toNat_add, count]
  have low := bf.reloc_start.isLt
  omega

theorem relocSize_toNat : bf.relocSize.toNat =
    if 64 < bf.loadEnd.toNat then bf.loadEnd.toNat - 64 else bf.loadEnd.toNat := by
  unfold Binflat.relocSize
  by_cases long : 64 < bf.loadEnd.toNat
  · have long' : bf.loadEnd > 64 := long
    rw [if_pos long', if_pos long, BitVec.toNat_sub]
    have bound := bf.loadEnd.isLt
    show (4294967296 - 64 + bf.loadEnd.toNat) % 4294967296 = _
    omega
  · have short : ¬ bf.loadEnd > 64 := long
    rw [if_neg short, if_neg long]

end Header

/-! ## The new process -/

/-- Loading, relocation and clearing keep to the memory of the process, and the table
lies in what was loaded. -/
def Confined (p : Process) : Prop :=
  Inside p.progbase p.bf.binSize p.memory ∧
    p.bf.reloc_start.toNat + 4 * p.bf.reloc_count.toNat ≤ p.loaded

/-- The table has fewer than 2^30 entries, the file up to its end and the data fit the
memory, and no entry, with what the turns before it wrote there, names a word that
reaches past the memory. `m` is the memory after loading. -/
def Fits (bf : Binflat) (progbase : BitVec 32) (m : Memory) : Prop :=
  bf.reloc_count.toNat < 1073741824 ∧ bf.loadEnd.toNat ≤ bf.binSize.toNat ∧
    bf.data_end.toNat ≤ bf.binSize.toNat ∧
    ∀ k, k < bf.reloc_count.toNat →
      EntryFits bf.relocSize bf.binSize (entryAt progbase bf.relocSize bf.reloc_start m k)

section Accepted
variable {i_size : BitVec 32} {bf : Binflat} {progbase : BitVec 32} {file : Nat → UInt8}
  {old : BitVec 32 → UInt8}

/-- All of the file that is wanted is there. -/
theorem load_done (table : bf.loadEnd.toNat ≤ i_size.toNat) (m : Memory) :
    64 + (load bf progbase file i_size m).2 = max 64 bf.loadEnd.toNat := by
  unfold load
  dsimp only
  by_cases long : 64 < bf.loadEnd.toNat
  · have long' : bf.loadEnd > 64 := long
    rw [if_pos long', relocSize_toNat, if_pos long]
    dsimp only
    omega
  · have short : ¬ bf.loadEnd > 64 := long
    rw [if_neg short]
    dsimp only
    omega

theorem inside_load (table : bf.loadEnd.toNat ≤ i_size.toNat) (least : 64 ≤ bf.binSize.toNat)
    (top : progbase.toNat + bf.binSize.toNat < 4294967296) :
    Inside progbase bf.binSize (load bf progbase file i_size ⟨old, []⟩).1 ↔
      bf.loadEnd.toNat ≤ bf.binSize.toNat := by
  have nothing : Inside progbase bf.binSize ⟨old, []⟩ := fun r member => by cases member
  have header : Inside progbase bf.binSize (Memory.fill ⟨old, []⟩ progbase 64 bf.bytes) := by
    have zero : progbase + 0 = progbase := BitVec.add_zero progbase
    have begins : (0 : BitVec 32).toNat + 64 ≤ bf.binSize.toNat := by
      show 0 + 64 ≤ bf.binSize.toNat
      omega
    have filled := (inside_fill (f := bf.bytes) (show 0 < 64 by omega) top).mpr ⟨begins, nothing⟩
    rw [zero] at filled
    exact filled
  unfold load
  dsimp only
  by_cases long : 64 < bf.loadEnd.toNat
  · have long' : bf.loadEnd > 64 := long
    have rest : min bf.relocSize.toNat (i_size.toNat - 64) = bf.loadEnd.toNat - 64 := by
      rw [relocSize_toNat, if_pos long]
      omega
    rw [if_pos long', rest]
    dsimp only
    rw [inside_fill (by omega) top]
    constructor
    · rintro ⟨fits, _⟩
      have fits' : 64 + (bf.loadEnd.toNat - 64) ≤ bf.binSize.toNat := fits
      omega
    · intro fits
      exact ⟨by show 64 + (bf.loadEnd.toNat - 64) ≤ _; omega, header⟩
  · have short : ¬ bf.loadEnd > 64 := long
    have bounded : bf.loadEnd.toNat ≤ bf.binSize.toNat := Nat.le_trans (Nat.le_of_not_lt long) least
    rw [if_neg short]
    exact ⟨fun _ => bounded, fun _ => header⟩

/-- The cleared part ends where the memory does, unless it starts behind it. -/
theorem inside_clear (m : Memory) (top : progbase.toNat + bf.binSize.toNat < 4294967296) :
    Inside progbase bf.binSize (clear bf progbase m) ↔
      bf.data_end.toNat ≤ bf.binSize.toNat ∧ Inside progbase bf.binSize m := by
  have length : bf.bss_end - bf.data_end + bf.stack_size = bf.binSize - bf.data_end := by
    unfold Binflat.binSize
    rw [BitVec.sub_eq_add_neg, BitVec.sub_eq_add_neg, BitVec.add_assoc,
      BitVec.add_comm _ bf.stack_size, BitVec.add_assoc]
  have low := bf.data_end.isLt
  have high := bf.binSize.isLt
  unfold clear
  rw [length, BitVec.toNat_sub]
  by_cases empty : (4294967296 - bf.data_end.toNat + bf.binSize.toNat) % 4294967296 = 0
  · have same : bf.data_end.toNat ≤ bf.binSize.toNat := by omega
    have zero : (2 ^ 32 - bf.data_end.toNat + bf.binSize.toNat) % 2 ^ 32 = 0 := empty
    rw [zero]
    constructor
    · intro inside
      exact ⟨same, ((inside_cons _ _ _).mp inside).2⟩
    · rintro ⟨_, rest⟩
      exact (inside_cons _ _ _).mpr ⟨inside_empty, rest⟩
  · rw [inside_fill (Nat.pos_of_ne_zero empty) top]
    constructor
    · rintro ⟨fits, rest⟩
      exact ⟨by omega, rest⟩
    · rintro ⟨before, rest⟩
      refine ⟨?_, rest⟩
      show bf.data_end.toNat + (4294967296 - bf.data_end.toNat + bf.binSize.toNat) % 4294967296 ≤ _
      omega

/-- The process that `_execve` builds from a valid header. -/
def build (bf : Binflat) (progbase : BitVec 32) (file : Nat → UInt8) (i_size : BitVec 32)
    (old : BitVec 32 → UInt8) : Process :=
  let m := load bf progbase file i_size ⟨old, []⟩
  ⟨bf, progbase, 64 + m.2, clear bf progbase
    (relocate progbase bf.relocSize bf.reloc_count.toNat (progbase + bf.reloc_start) m.1)⟩

theorem build_confined_iff {h : Binflat} (valid : valid_hdr i_size h = some bf)
    (sum : bf.bss_end.toNat ≤ bf.binSize.toNat) (room : realloc bf.binSize = some progbase) :
    Confined (build bf progbase file i_size old) ↔
      Fits bf progbase (load bf progbase file i_size ⟨old, []⟩).1 := by
  obtain ⟨stack, table, order⟩ := valid_hdr_facts valid
  have top := Loader.room _ _ room
  have least : 64 ≤ bf.binSize.toNat := by
    have total : bf.binSize.toNat = (bf.bss_end.toNat + bf.stack_size.toNat) % 4294967296 :=
      BitVec.toNat_add _ _
    have low := bf.bss_end.isLt
    have high := bf.stack_size.isLt
    omega
  have bound := bf.loadEnd.isLt
  have small : bf.relocSize.toNat + 64 < 4294967296 := by
    rw [relocSize_toNat]
    split <;> omega
  unfold Confined Fits build
  dsimp only
  rw [load_done table, inside_clear _ top]
  constructor
  · rintro ⟨⟨data, walked⟩, inLoaded⟩
    have few : bf.reloc_count.toNat < 1073741824 := by omega
    have ends := loadEnd_toNat few order
    obtain ⟨turns, loaded⟩ := (inside_relocate _ small (by omega) top).mp walked
    exact ⟨few, (inside_load table least top).mp loaded, data, fun k hk => (turns k hk).2⟩
  · rintro ⟨few, fits, data, entries⟩
    have ends := loadEnd_toNat few order
    refine ⟨⟨data, (inside_relocate _ small (by omega) top).mpr ⟨fun k hk => ?_, ?_⟩⟩, by omega⟩
    · exact ⟨by omega, entries k hk⟩
    · exact (inside_load table least top).mpr fits

/-- Where the file ends three bytes before the memory does, or earlier, no entry can do
harm. -/
theorem entry_fits (v : BitVec 32) (least : 135 ≤ bf.binSize.toNat)
    (short : bf.loadEnd.toNat + 3 ≤ bf.binSize.toNat) : EntryFits bf.relocSize bf.binSize v := by
  intro low _
  have low' : v.toNat < bf.relocSize.toNat := low
  rw [relocSize_toNat] at low'
  split at low'
  · omega
  · omega

theorem execve_ok (size : min 64 i_size.toNat = 64) (magic : magicOk file)
    (valid : valid_hdr i_size (headerOf file) = some bf) (sum : ¬ bf.binSize < bf.bss_end)
    (room : realloc bf.binSize = some progbase) :
    execve file i_size old = .ok (build bf progbase file i_size old) := by
  obtain ⟨_, table, _⟩ := valid_hdr_facts valid
  have done : 64 + (load bf progbase file i_size ⟨old, []⟩).2 = max 64 bf.loadEnd.toNat :=
    load_done table ⟨old, []⟩
  have complete : ¬ (bf.loadEnd > 64 ∧
      (load bf progbase file i_size ⟨old, []⟩).2 ≠ bf.relocSize.toNat) := by
    rintro ⟨long, short⟩
    have long' : 64 < bf.loadEnd.toNat := long
    rw [relocSize_toNat, if_pos long'] at short
    omega
  unfold execve
  rw [if_neg (not_not.mpr size), if_neg (not_not.mpr magic), valid]
  dsimp only
  rw [if_neg sum, room]
  dsimp only
  rw [if_neg complete]
  rfl

/-- Of every program that is accepted: it is loaded, relocated and cleared inside its own
memory exactly when it fits. -/
theorem exec_confined_iff {p : Process} (accepted : execve file i_size old = .ok p) :
    ∃ bf progbase, valid_hdr i_size (headerOf file) = some bf ∧
      realloc bf.binSize = some progbase ∧
      (Confined p ↔ Fits bf progbase (load bf progbase file i_size ⟨old, []⟩).1) := by
  by_cases size : min 64 i_size.toNat = 64
  · by_cases magic : magicOk file
    · cases valid : valid_hdr i_size (headerOf file) with
      | none =>
        unfold execve at accepted
        rw [if_neg (not_not.mpr size), if_neg (not_not.mpr magic), valid] at accepted
        cases accepted
      | some bf =>
        by_cases sum : bf.binSize < bf.bss_end
        · unfold execve at accepted
          rw [if_neg (not_not.mpr size), if_neg (not_not.mpr magic), valid] at accepted
          dsimp only at accepted
          rw [if_pos sum] at accepted
          cases accepted
        · cases room : realloc bf.binSize with
          | none =>
            unfold execve at accepted
            rw [if_neg (not_not.mpr size), if_neg (not_not.mpr magic), valid] at accepted
            dsimp only at accepted
            rw [if_neg sum, room] at accepted
            cases accepted
          | some progbase =>
            rw [execve_ok size magic valid sum room] at accepted
            injection accepted with same
            subst same
            exact ⟨bf, progbase, rfl, room,
              build_confined_iff valid (Nat.le_of_not_lt sum) room⟩
    · unfold execve at accepted
      rw [if_neg (not_not.mpr size), if_pos magic] at accepted
      cases accepted
  · unfold execve at accepted
    rw [if_pos size] at accepted
    cases accepted

end Accepted

end Loader

/-! ## Two programs -/

/-- A 68000 with a megabyte from 0x10000. -/
@[reducible] def m68k : Loader where
  littleEndian := false
  realloc := fun size => if size ≤ 0x100000 then some 0x10000 else none
  room := by
    intro size base found
    split at found
    · rename_i small
      injection found with same
      have small' : size.toNat ≤ 0x100000 := small
      have base' : base.toNat = 0x10000 := by rw [← same]; rfl
      omega
    · cases found

/-- Code up to 64, no data, and a table of `count` entries at `start`. -/
def image (start count : BitVec 32) : Binflat :=
  ⟨0x62464C54, 4, 0, 64, 64, 64, 32768, start, count, 1, [0, 0, 0, 0, 0, 0]⟩

/-- The header and zeroes. -/
def fileOf [Loader] (bf : Binflat) (k : Nat) : UInt8 := if k < 64 then bf.bytes k else 0

/-- A program of 68 bytes with a table of one entry, which is zero. -/
theorem exec_confined_small : ∃ (m : Loader) (p : Process),
    @execve m (@fileOf m (image 64 1)) 68 (fun _ => 0) = .ok p ∧ Confined p := by
  let m := m68k
  have valid : valid_hdr 68 (headerOf (fileOf (image 64 1))) =
      some { image 64 1 with bss_end := 68 } := by decide +kernel
  have accepted := @execve_ok _ _ _ _ _ (fun _ => 0) (by decide +kernel) (by decide +kernel) valid (by decide +kernel)
    (show realloc _ = some (0x10000 : BitVec 32) from by decide +kernel)
  obtain ⟨bf, progbase, valid', room, confined⟩ := exec_confined_iff accepted
  rw [valid] at valid'
  injection valid' with same
  subst same
  refine ⟨m68k, _, accepted, confined.mpr ⟨by decide, by decide +kernel, by decide +kernel, ?_⟩⟩
  intro k _
  exact entry_fits _ (by decide +kernel) (by decide +kernel)

/-- A program of 40000 bytes with an empty table at its end, and memory for 32832. -/
theorem exec_leaves_memory : ∃ (m : Loader) (p : Process),
    @execve m (@fileOf m (image 40000 0)) 40000 (fun _ => 0) = .ok p ∧ ¬ Confined p := by
  let m := m68k
  have valid : valid_hdr 40000 (headerOf (fileOf (image 40000 0))) = some (image 40000 0) := by
    decide +kernel
  have room : realloc (image 40000 0).binSize = some (0x10000 : BitVec 32) := by decide +kernel
  refine ⟨m68k, _, execve_ok (by decide +kernel) (by decide +kernel) valid (by decide +kernel) room, fun confined => ?_⟩
  have fits := (build_confined_iff valid (by decide +kernel) room).mp confined
  exact absurd fits.2.1 (by decide +kernel)

end Exec32
