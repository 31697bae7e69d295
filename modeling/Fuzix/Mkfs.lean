import Fuzix.Ckdir
import Mathlib.Tactic.IntervalCases

/-!
# File systems that mkfs makes

The image is a file. Every write is one block long and goes to the position of the file, which
stays where it is when `lseek` fails. The position of each write is recorded as history. Writes
do not fail. The memory after the superblock is whatever lies there.
-/

namespace Mkfs

open Table Chain Image
open Fuzix (FILESYS_TABSIZE SMOUNTED F_DIR ROOTINODE fmt)
open Devio (IntWidth)
open Fsck (inode Dinode.i_mode Dinode.i_nlink Dinode.i_size Dinode.i_addr)

structure File where
  blocks : Disk
  /-- The position in bytes, a multiple of 512. -/
  pos : Nat
  /-- The block that was meant and the position it was written at. -/
  log : List (Nat × Nat)

/-- The argument of `lseek` in `dwrite`, an `int`. A negative one is refused. -/
def seek (width : IntWidth) (blk pos : Nat) : Nat :=
  match width with
  | .int16 => if blk * 512 % 65536 < 32768 then blk * 512 % 65536 else pos
  | .int32 => blk * 512

def dwrite (width : IntWidth) (blk : Nat) (words : Nat → Nat) (f : File) : File :=
  let pos := seek width blk f.pos
  ⟨put f.blocks (pos / 512) words, pos + 512, f.log ++ [(blk, pos)]⟩

/-- `for (j = 0; j < fsize; ++j) dwrite(j, zero512)` -/
def zeros (width : IntWidth) : Nat → File → File
  | 0, f => f
  | n + 1, f => dwrite width n (fun _ => 0) (zeros width n f)

/-- `8 * (isize - 2) - 2` as it is passed on: an `unsigned` of 16 bits, or an `int`. -/
def tinode (width : IntWidth) (isize : Nat) : Nat :=
  match width with
  | .int16 => (8 * (isize - 2) + 65536 - 2) % 65536
  | .int32 => (8 * (isize - 2) + 4294967296 - 2) % 4294967296

/-- The loop that frees the blocks, from block `j` on. -/
def frees (width : IntWidth) (sw : Bool) (isize : Nat) : Nat → Superblock × File → Option (Superblock × File)
  | 0, st => some st
  | j + 1, st =>
    if isize + 1 ≤ j + 1 then (free_block width sw (dwrite width) (j + 1) st).bind (frees width sw isize j)
    else some st

/-- The block of `inode[8]`. -/
def inodeWords (sw : Bool) (isize k : Nat) : Nat :=
  match k with
  | 0 => 0xFFFF
  | 1 => swap16 sw 1
  | 32 => swap16 sw (F_DIR + 0o777)
  | 33 => swap16 sw 3
  | 36 => swizzle32 sw 64 % 65536
  | 37 => swizzle32 sw 64 / 65536
  | 44 => swap16 sw isize
  | _ => 0

/-- The first 16 entries of `dirbuf`. -/
def dirWords (sw : Bool) (k : Nat) : Nat :=
  match k with
  | 0 => swap16 sw ROOTINODE
  | 1 => 0x2E
  | 16 => swap16 sw ROOTINODE
  | 17 => 0x2E2E
  | _ => 0

/-- The superblock before the blocks are freed, if `s_tinode` is one. -/
def fs_super (sw : Bool) (isize fsize s_tinode : Nat) (rest : Nat → Nat) : Superblock where
  s_mounted := swap16 sw SMOUNTED
  s_isize := swap16 sw isize
  s_fsize := swap16 sw fsize
  s_nfree := swap16 sw 1
  s_free _ := 0
  s_ninode := 0
  s_tfree := 0
  s_tinode := s_tinode
  rest := rest

def mkfs (width : IntWidth) (sw : Bool) (isize fsize : Nat) (rest : Nat → Nat) (f : File) : Option File :=
  (swizzle16 width sw (tinode width isize)).bind fun s_tinode =>
    (frees width sw isize (fsize - 1) (fs_super sw isize fsize s_tinode rest, zeros width fsize f)).map fun st =>
      dwrite width 1 st.1.word (dwrite width isize (dirWords sw) (dwrite width 2 (inodeWords sw isize) st.2))

/-- The sizes that `main` lets through. -/
def accepts (isize fsize : Nat) : Prop := 3 ≤ fsize ∧ 2 ≤ isize ∧ isize < fsize ∧ fsize < 65536

/-- `open` of a file that may be there already. -/
def opened (blocks : Disk) : File := ⟨blocks, 0, []⟩

/-! ## What the image should be -/

/-- The live entries of a directory with their names. -/
def entries (sw : Bool) (disk : Disk) (ino : Fsck.Dinode) : List (Nat × List Nat) :=
  (List.range (swizzle32 sw ino.i_size / 32)).filterMap fun j =>
    let e := Fsck.entryAt (disk (Fsck.getblkno sw disk ino (j / 16))) j
    if e.d_ino = 0 then none else some (swap16 sw e.d_ino, (List.range e.namelen).map e.d_name)

/-- An inode that the kernel would allocate. -/
def isFree (disk : Disk) (n : Nat) : Prop := (inode disk n).i_mode = 0 ∧ (inode disk n).i_nlink = 0

instance (disk : Disk) (n : Nat) : Decidable (isFree disk n) := inferInstanceAs (Decidable (_ ∧ _))

/-- The blocks after the one of the root directory. -/
def freeBlocks (isize fsize : Nat) : List Nat := List.range' (isize + 1) (fsize - 1 - isize)

structure Good (width : IntWidth) (sw : Bool) (isize fsize : Nat) (f : File) : Prop where
  placed : ∀ w ∈ f.log, w.2 = 512 * w.1
  chained : Chained sw f.blocks isize fsize (freeBlocks isize fsize)
  tinode : swap16 sw (f.blocks 1 109) = (List.range (8 * (isize - 2))).countP fun n => isFree f.blocks n
  reserved : ¬ isFree f.blocks 0
  root : fmt (swap16 sw (inode f.blocks ROOTINODE).i_mode) = F_DIR
  entries : entries sw f.blocks (inode f.blocks ROOTINODE) = [(ROOTINODE, [46]), (ROOTINODE, [46, 46])]
  apart : ∀ b ∈ Fsck.getblkno sw f.blocks (inode f.blocks ROOTINODE) 0 :: freeBlocks isize fsize,
    b ≠ ROOTINODE / 8 + 2 ∧ ∀ n < 8 * (isize - 2), b ≠ n / 8 + 2
  links : ∀ answers (s : Fsck.State), s.disk = f.blocks →
    Wp.wp (fun _ => False) (Fsck.pass4 width sw isize answers)
      (fun _ t => t.linkmap ROOTINODE = swap16 sw (inode f.blocks ROOTINODE).i_nlink ∧ t.asked = s.asked) s

/-! ## The root directory -/

section Root
open Wp Fsck
variable {width : IntWidth} {sw : Bool} {isize b : Nat} {disk : Disk} {answers : Nat → Bool}

/-- The blocks that describe the root directory. -/
structure Fresh (sw : Bool) (isize : Nat) (disk : Disk) : Prop where
  root : disk 2 = inodeWords sw isize
  dir : disk isize = dirWords sw
  real : 0 < isize
  small : isize < 65536

theorem Fresh.mode (fresh : Fresh sw isize disk) : fmt (swap16 sw (inode disk ROOTINODE).i_mode) = F_DIR := by
  have word : (inode disk ROOTINODE).i_mode = swap16 sw (F_DIR + 0o777) := congrFun fresh.root 32
  rw [word, swap16_back (by decide)]
  rfl

theorem Fresh.nlink (fresh : Fresh sw isize disk) : swap16 sw (inode disk ROOTINODE).i_nlink = 3 := by
  have word : (inode disk ROOTINODE).i_nlink = swap16 sw 3 := congrFun fresh.root 33
  rw [word, swap16_back (by decide)]

theorem Fresh.size (fresh : Fresh sw isize disk) : swizzle32 sw (inode disk ROOTINODE).i_size = 64 := by
  have low : inode disk ROOTINODE 4 = swizzle32 sw 64 % 65536 := congrFun fresh.root 36
  have high : inode disk ROOTINODE 5 = swizzle32 sw 64 / 65536 := congrFun fresh.root 37
  unfold Dinode.i_size
  rw [low, high]
  cases sw <;> rfl

theorem Fresh.block (fresh : Fresh sw isize disk) : getblkno sw disk (inode disk ROOTINODE) 0 = isize := by
  have word : (inode disk ROOTINODE).i_addr 0 = swap16 sw isize := congrFun fresh.root 44
  unfold getblkno
  rw [if_pos (by decide), word, swap16_back fresh.small]

/-- The entry `.` or `..`, with a name of one byte or two. -/
def dot (sw : Bool) (n : Nat) : Direct := ⟨swap16 sw ROOTINODE, fun i => if i < n then 46 else 0⟩

theorem entry_zero : (entryAt (dirWords sw) 0).clean = dot sw 1 := by
  have length : (entryAt (dirWords sw) 0).namelen = 1 := by cases sw <;> rfl
  unfold Direct.clean dot
  rw [length]
  congr 1
  funext i
  by_cases first : i < 1
  · rw [if_pos first, if_pos first, Nat.lt_one_iff.mp first]
    rfl
  · rw [if_neg first, if_neg first]

theorem entry_one : (entryAt (dirWords sw) 1).clean = dot sw 2 := by
  have length : (entryAt (dirWords sw) 1).namelen = 2 := by cases sw <;> rfl
  unfold Direct.clean dot
  rw [length]
  congr 1
  funext i
  by_cases inside : i < 2
  · rw [if_pos inside, if_pos inside]
    interval_cases i <;> simp [entryAt, dirWords]
  · rw [if_neg inside, if_neg inside]

/-- Both entries are stored as they were. -/
theorem store_zero : storeEntry (dirWords sw) 0 (dot sw 1) = dirWords sw := by
  funext k
  unfold storeEntry
  by_cases inside : 16 * (0 % 16) ≤ k ∧ k < 16 * (0 % 16) + 16
  · rw [if_pos inside]
    obtain ⟨_, less⟩ := inside
    interval_cases k <;> simp [Direct.word, dot, dirWords]
  · rw [if_neg inside]

theorem store_one : storeEntry (dirWords sw) 1 (dot sw 2) = dirWords sw := by
  funext k
  unfold storeEntry
  by_cases inside : 16 * (1 % 16) ≤ k ∧ k < 16 * (1 % 16) + 16
  · rw [if_pos inside]
    obtain ⟨more, less⟩ := inside
    interval_cases k <;> simp [Direct.word, dot, dirWords]
  · rw [if_neg inside]

theorem slashes_none {stop : Exit → Prop} {ino : Fsck.Dinode} {j n c : Nat} {e : Direct} {s : State}
    {Q : Direct → State → Prop} (none_there : ∀ c, e.d_name c ≠ 47) (post : Q e s) :
    wp stop (slashes sw answers ino j n c e) Q s := by
  induction n generalizing c with
  | zero => exact post
  | succ n ih =>
    unfold slashes
    rw [wp_ite]
    refine ⟨fun _ => post, fun _ => ?_⟩
    rw [wp_ite]
    exact ⟨fun no => absurd no (none_there c), fun _ => ih⟩

theorem dot_name (n c : Nat) : (dot sw n).d_name c ≠ 47 := by
  show (if c < n then 46 else 0) ≠ 47
  split <;> decide

theorem dot_ino (n : Nat) : swap16 sw (dot sw n).d_ino = ROOTINODE := swap16_back (by decide)

theorem dot_real (n : Nat) : (dot sw n).d_ino ≠ 0 := by
  cases sw <;> exact of_decide_eq_true rfl

/-- An entry of the root directory that names it is counted and left as it is. -/
theorem Fresh.ckentry {stop : Exit → Prop} {down : Option (Nat → F Unit)} {j n : Nat} {s : State}
    {Q : Unit → State → Prop} (fresh : Fresh sw isize s.disk) (many : 1 < inodes width isize) (inside : j < 16)
    (read : (entryAt (dirWords sw) j).clean = dot sw n) (store : storeEntry (dirWords sw) j (dot sw n) = dirWords sw)
    (linked : s.linkmap ROOTINODE ≠ -1)
    (post : Q () { s with linkmap := put s.linkmap ROOTINODE (s.linkmap ROOTINODE + 1) }) :
    wp stop (ckentry width sw isize answers down ROOTINODE ROOTINODE (inode s.disk ROOTINODE) j) Q s := by
  have block : getblkno sw s.disk (inode s.disk ROOTINODE) (j / 16) = isize := by
    rw [Nat.div_eq_of_lt inside]
    exact fresh.block
  have real : ¬ isize = 0 := Nat.pos_iff_ne_zero.mp fresh.real
  have same : put s.disk isize (dirWords sw) = s.disk := by
    rw [← fresh.dir, put_self]
  unfold Fsck.ckentry dirread
  rw [wp_bind, wp_bind, wp_get, block, if_neg real, wp_pure, fresh.dir, read, wp_bind]
  unfold dirwrite
  rw [wp_bind, wp_get, block, if_neg real, wp_modify, fresh.dir, store, same, wp_ite]
  refine ⟨fun no => absurd no (dot_real n), fun _ => ?_⟩
  rw [wp_bind, dot_ino]
  have fine : ¬ (ROOTINODE < ROOTINODE ∨ inodes width isize ≤ ROOTINODE) := by
    rintro (no | no)
    · exact absurd no (by decide)
    · exact absurd many (Nat.not_lt.mpr no)
  unfold zap
  rw [if_neg fine, wp_pure, if_neg (by decide), wp_bind, wp_get, wp_bind]
  dsimp only
  rw [if_neg linked, wp_pure, if_neg (by decide)]
  unfold keep
  rw [wp_bind, wp_modify, wp_bind, dot_ino]
  refine slashes_none (dot_name n) ?_
  rw [wp_bind]
  unfold point
  rw [dot_ino, if_neg (fun no => no.2 rfl), wp_pure, wp_bind, dot_ino, if_neg (fun no => no.2 rfl), wp_pure, dot_ino]
  cases down with
  | none => exact post
  | some down =>
    rw [wp_ite]
    exact ⟨fun no => absurd rfl no.1, fun _ => post⟩

/-- The walk of fsck finds three links to the root directory and asks nothing. -/
theorem Fresh.pass4 {stop : Exit → Prop} {s : State} (fresh : Fresh sw isize s.disk)
    (many : 1 < inodes width isize) :
    wp stop (pass4 width sw isize answers) (fun _ t => t.linkmap ROOTINODE = 3 ∧ t.asked = s.asked) s := by
  unfold Fsck.pass4
  rw [wp_bind, wp_modify]
  show wp stop (ckdir width sw isize answers (19 + 1) ROOTINODE ROOTINODE) _ _
  unfold ckdir iread
  rw [wp_bind, wp_bind, wp_get, wp_pure, fresh.mode, if_neg (by decide), wp_bind]
  unfold fixSize
  rw [fresh.size, if_neg (by decide), wp_pure, wp_bind]
  have two : wp stop (nentries width sw (inode s.disk ROOTINODE)) (fun n t => n = 2 ∧
      t = { s with linkmap := put s.linkmap ROOTINODE 1 }) { s with linkmap := put s.linkmap ROOTINODE 1 } := by
    unfold nentries
    rw [fresh.size]
    cases width <;> exact ⟨rfl, rfl⟩
  refine wp_mono two ?_
  rintro n t ⟨n_two, same⟩
  rw [n_two, same]
  unfold ckentries
  rw [wp_bind]
  unfold ckentries
  rw [wp_bind]
  unfold ckentries
  rw [wp_pure]
  refine Fresh.ckentry (s := { s with linkmap := put s.linkmap ROOTINODE 1 }) fresh many (by decide) entry_zero
    store_zero ?_ ?_
  · dsimp only
    rw [put_same]
    decide
  · dsimp only
    rw [put_same, put_put]
    refine Fresh.ckentry (s := { s with linkmap := put s.linkmap ROOTINODE (1 + 1) }) fresh many (by decide)
      entry_one store_one ?_ ?_
    · dsimp only
      rw [put_same]
      decide
    · dsimp only
      rw [put_same]
      exact ⟨rfl, rfl⟩

end Root

/-! ## The writes -/

section Writes
variable {width : IntWidth} {sw : Bool} {isize fsize blk n : Nat} {words : Nat → Nat} {blocks : Disk} {f : File}

theorem seek_low {pos : Nat} (low : width = .int16 → blk < 64) : seek width blk pos = 512 * blk := by
  unfold seek
  cases width with
  | int16 =>
    have less := low rfl
    dsimp only
    rw [if_pos (by omega)]
    omega
  | int32 => exact Nat.mul_comm blk 512

/-- A write that goes to its place. -/
theorem dwrite_placed (placed : seek width blk f.pos = 512 * blk) :
    dwrite width blk words f = ⟨put f.blocks blk words, 512 * blk + 512, f.log ++ [(blk, 512 * blk)]⟩ := by
  unfold dwrite
  dsimp only
  rw [placed, Nat.mul_div_cancel_left blk (by decide)]

/-- The log of writes that all went to their places. -/
def Placed (f : File) : Prop := ∀ w ∈ f.log, w.2 = 512 * w.1

theorem Placed.dwrite (placed : Placed f) (here : seek width blk f.pos = 512 * blk) :
    Placed (dwrite width blk words f) := by
  rw [dwrite_placed here]
  intro w member
  rcases List.mem_append.mp member with old | new
  · exact placed w old
  · rw [List.mem_singleton.mp new]

/-- After the first loop. -/
structure Zeroed (n : Nat) (f : File) : Prop where
  pos : f.pos = 512 * n
  zero : ∀ b < n, f.blocks b = fun _ => 0
  placed : Placed f

theorem zeros_zeroed (fits : width = .int16 → n ≤ 128) : Zeroed n (zeros width n (opened blocks)) := by
  induction n with
  | zero => exact ⟨rfl, fun b no => (by omega), fun w no => (by cases no)⟩
  | succ n ih =>
    have before := ih fun narrow => (by have less := fits narrow; omega)
    have here : seek width n (zeros width n (opened blocks)).pos = 512 * n := by
      rw [before.pos]
      unfold seek
      cases width with
      | int16 =>
        have less := fits rfl
        dsimp only
        split_ifs <;> omega
      | int32 => exact Nat.mul_comm n 512
    refine ⟨?_, ?_, before.placed.dwrite here⟩
    · show (dwrite width n (fun _ => 0) (zeros width n (opened blocks))).pos = 512 * (n + 1)
      rw [dwrite_placed here]
      rfl
    · intro b less
      show (dwrite width n (fun _ => 0) (zeros width n (opened blocks))).blocks b = _
      rw [dwrite_placed here]
      by_cases last : b = n
      · rw [last]
        exact put_same _ _ _
      · exact (put_ne _ _ last).trans (before.zero b (by omega))

theorem log_grows {w : Nat × Nat} (member : w ∈ f.log) : w ∈ (dwrite width blk words f).log :=
  List.mem_append_left _ member

end Writes

/-! ## The free list -/

section Freeing
variable {width : IntWidth} {sw : Bool} {isize fsize j : Nat} {st : Superblock × File}

def fileLinks (sw : Bool) (f : File) : Nat → Batch Nat := links sw f.blocks

/-- The blocks above `j` are on the free list, and those up to the root directory are zero. -/
structure Freed (sw : Bool) (isize fsize j : Nat) (st : Superblock × File) : Prop where
  built : Built sw st.1 (fileLinks sw st.2) (List.range' (j + 1) (fsize - 1 - j))
  placed : Placed st.2
  zero : ∀ b ≤ isize, st.2.blocks b = fun _ => 0

def Kept (sb sb' : Superblock) : Prop :=
  sb'.s_mounted = sb.s_mounted ∧ sb'.s_isize = sb.s_isize ∧ sb'.s_fsize = sb.s_fsize ∧ sb'.s_tinode = sb.s_tinode

theorem frees_ends (high : isize ≤ j) (less : j < fsize) (small : fsize < 65536)
    (fits : width = .int16 → fsize ≤ 113) (freed : Freed sw isize fsize j st) :
    ∃ st', frees width sw isize j st = some st' ∧ Kept st.1 st'.1 ∧ Freed sw isize fsize isize st' := by
  induction j generalizing st with
  | zero =>
    have none_left : isize = 0 := Nat.le_zero.mp high
    exact ⟨st, rfl, ⟨rfl, rfl, rfl, rfl⟩, by rw [none_left] at freed ⊢; exact freed⟩
  | succ j ih =>
    unfold frees
    by_cases last : isize + 1 ≤ j + 1
    · rw [if_pos last]
      have built := freed.built
      have count : swap16 sw st.1.s_nfree = (List.range' (j + 1 + 1) (fsize - 1 - (j + 1))).length %
          FILESYS_TABSIZE + 1 := built.count
      rw [List.length_range'] at count
      have place : swap16 sw st.1.s_nfree = 50 → ∀ pos, seek width (j + 1) pos = 512 * (j + 1) := by
        intro full pos
        refine seek_low fun narrow => ?_
        have bound := fits narrow
        have size : FILESYS_TABSIZE = 50 := rfl
        rw [full, size] at count
        omega
      have there : swap16 sw st.1.s_nfree = 50 → ∀ words, fileLinks sw (dwrite width (j + 1) words st.2) =
          put (fileLinks sw st.2) (j + 1) (batch sw words) := by
        intro full words
        rw [dwrite_placed (place full st.2.pos)]
        exact links_put _
      have new : j + 1 ∉ List.range' (j + 1 + 1) (fsize - 1 - (j + 1)) := by
        intro member
        have inside := List.mem_range'_1.mp member
        omega
      obtain ⟨st', done, built', disk, kept⟩ := built.push width (dwrite width) there (by omega) (by omega) new
        (by rw [List.length_range']; omega)
      have next : (j + 1) :: List.range' (j + 1 + 1) (fsize - 1 - (j + 1)) = List.range' (j + 1) (fsize - 1 - j) := by
        rw [← List.range'_succ]
        congr 1
        omega
      rw [next] at built'
      have after : Freed sw isize fsize j st' := by
        refine ⟨built', ?_, ?_⟩
        all_goals rw [disk]
        all_goals split_ifs with full
        · exact freed.placed.dwrite (place full st.2.pos)
        · exact freed.placed
        · intro b low
          rw [dwrite_placed (place full st.2.pos)]
          exact (put_ne _ _ (by omega)).trans (freed.zero b low)
        · exact freed.zero
      obtain ⟨st'', ends, kept', final⟩ := ih (by omega) (by omega) after
      rw [done, Option.bind_some]
      exact ⟨st'', ends, ⟨kept'.1.trans kept.1, kept'.2.1.trans kept.2.1, kept'.2.2.1.trans kept.2.2.1,
        kept'.2.2.2.trans kept.2.2.2⟩, final⟩
    · have here : j + 1 = isize := by omega
      rw [if_neg last]
      exact ⟨st, rfl, ⟨rfl, rfl, rfl, rfl⟩, here ▸ freed⟩

end Freeing

/-! ## The finished image -/

section Finish
variable {width : IntWidth} {sw : Bool} {isize fsize : Nat} {disk : Disk}

theorem countP_two (n : Nat) : (List.range (n + 2)).countP (fun k => 2 ≤ k) = n := by
  induction n with
  | zero => rfl
  | succ n ih =>
    have last : 2 ≤ n + 2 := Nat.le_add_left 2 n
    rw [List.range_succ, List.countP_append, ih]
    simp [last]

theorem inodeWords_zero {k : Nat} (high : 64 ≤ k) : inodeWords sw isize k = 0 := by
  unfold inodeWords
  split <;> omega

/-- Only the first two inodes are in use. -/
theorem isFree_iff {n : Nat} (root : disk 2 = inodeWords sw isize) (zero : ∀ b < isize, 2 < b → disk b = fun _ => 0)
    (inside : n < 8 * (isize - 2)) : isFree disk n ↔ 2 ≤ n := by
  by_cases first : n / 8 = 0
  · have block : ∀ k, inode disk n k = inodeWords sw isize (32 * (n % 8) + k) := by
      intro k
      unfold inode
      rw [first]
      exact congrFun root _
    have mode : (inode disk n).i_mode = inodeWords sw isize (32 * (n % 8) + 0) := block 0
    have nlink : (inode disk n).i_nlink = inodeWords sw isize (32 * (n % 8) + 1) := block 1
    unfold isFree
    rw [mode, nlink]
    by_cases two : 2 ≤ n
    · rw [inodeWords_zero (by omega), inodeWords_zero (by omega)]
      exact ⟨fun _ => two, fun _ => ⟨rfl, rfl⟩⟩
    · refine ⟨fun free => ?_, fun no => absurd no two⟩
      interval_cases n
      · have reserved : 0xFFFF = 0 := free.1
        omega
      · have mode : swap16 sw (F_DIR + 0o777) = 0 := free.1
        exact absurd mode (by cases sw <;> decide)
  · have block : inode disk n = fun _ => 0 := by
      funext k
      exact congrFun (zero (n / 8 + 2) (by omega) (by omega)) _
    unfold isFree
    rw [block]
    exact ⟨fun _ => by omega, fun _ => ⟨rfl, rfl⟩⟩

theorem free_count (root : disk 2 = inodeWords sw isize) (zero : ∀ b < isize, 2 < b → disk b = fun _ => 0)
    (three : 3 ≤ isize) : (List.range (8 * (isize - 2))).countP (fun n => isFree disk n) = 8 * (isize - 2) - 2 := by
  have same : (List.range (8 * (isize - 2))).countP (fun n => isFree disk n) =
      (List.range (8 * (isize - 2))).countP fun n => 2 ≤ n := by
    refine List.countP_congr fun n member => ?_
    rw [decide_eq_true_iff, decide_eq_true_iff]
    exact isFree_iff root zero (List.mem_range.mp member)
  have size : 8 * (isize - 2) = 8 * (isize - 2) - 2 + 2 := by omega
  rw [same, size, countP_two]
  rfl

/-- The sizes for which the image comes out right. -/
def sensible (width : IntWidth) (isize fsize : Nat) : Prop :=
  3 ≤ isize ∧
    match width with
    | .int16 => isize < 64 ∧ fsize < 114
    | .int32 => isize ≤ 8194

theorem sensible.narrow (fine : sensible width isize fsize) (narrow : width = .int16) : isize < 64 ∧ fsize < 114 := by
  rw [narrow] at fine
  exact fine.2

theorem sensible.tinode (fine : sensible width isize fsize) : Mkfs.tinode width isize = 8 * (isize - 2) - 2 ∧
    8 * (isize - 2) - 2 < 65536 := by
  obtain ⟨three, fine⟩ := fine
  unfold Mkfs.tinode
  cases width with
  | int16 =>
    have bound : isize < 64 := fine.1
    dsimp only
    omega
  | int32 =>
    have bound : isize ≤ 8194 := fine
    dsimp only
    omega

/-- The root directory has the entries it should have. -/
theorem Fresh.entries (fresh : Fresh sw isize disk) :
    entries sw disk (inode disk ROOTINODE) = [(ROOTINODE, [46]), (ROOTINODE, [46, 46])] := by
  have real : Fsck.getblkno sw disk (inode disk ROOTINODE) 0 = isize := fresh.block
  unfold Mkfs.entries
  rw [fresh.size]
  have two : List.range (64 / 32) = [0, 1] := rfl
  rw [two]
  simp only [List.filterMap_cons, List.filterMap_nil, Nat.zero_div, real, fresh.dir]
  cases sw <;> rfl

end Finish

/-! ## The sizes that work -/

section Sizes
variable {width : IntWidth} {sw : Bool} {isize fsize s_tinode : Nat} {rest : Nat → Nat} {blocks : Disk}
  {st : Superblock × File} {f : File}

theorem start_freed (small : isize < fsize) (fits : width = .int16 → fsize ≤ 128) :
    Freed sw isize fsize (fsize - 1) (fs_super sw isize fsize s_tinode rest, zeros width fsize (opened blocks)) := by
  have zeroed : Zeroed fsize (zeros width fsize (opened blocks)) := zeros_zeroed fits
  refine ⟨?_, zeroed.placed, fun b le => zeroed.zero b (by omega)⟩
  rw [Nat.sub_self]
  exact built_nil rfl rfl rfl

/-- The last three writes. -/
def finish (width : IntWidth) (sw : Bool) (isize : Nat) (st : Superblock × File) : File :=
  dwrite width 1 st.1.word (dwrite width isize (dirWords sw) (dwrite width 2 (inodeWords sw isize) st.2))

theorem finish_placed (placed : Placed st.2) (low : width = .int16 → isize < 64) : Placed (finish width sw isize st) :=
  ((placed.dwrite (seek_low fun _ => by decide)).dwrite (seek_low low)).dwrite (seek_low fun _ => by decide)

theorem finish_blocks (low : width = .int16 → isize < 64) : (finish width sw isize st).blocks =
    put (put (put st.2.blocks 2 (inodeWords sw isize)) isize (dirWords sw)) 1 st.1.word := by
  unfold finish
  rw [dwrite_placed (seek_low fun _ => by decide), dwrite_placed (seek_low low),
    dwrite_placed (seek_low fun _ => by decide)]

theorem finish_chained (low : width = .int16 → isize < 64) (three : 3 ≤ isize) (less : isize < fsize)
    (small : fsize < 65536) (freed : Freed sw isize fsize isize st)
    (kept : Kept (fs_super sw isize fsize s_tinode rest) st.1) :
    Chained sw (finish width sw isize st).blocks isize fsize (freeBlocks isize fsize) := by
  have super : (finish width sw isize st).blocks 1 = st.1.word := by
    rw [finish_blocks low]
    exact put_same _ _ _
  have chain : Yields FILESYS_TABSIZE 0 (links sw (finish width sw isize st).blocks) (st.1.top sw)
      (freeBlocks isize fsize) := by
    refine freed.built.chain.congr rfl (fun _ _ => rfl) fun b member => .of_eq ?_
    have inside := List.mem_range'_1.mp member
    show batch sw ((finish width sw isize st).blocks b) = batch sw (st.2.blocks b)
    rw [finish_blocks low, put_ne _ _ (by omega), put_ne _ _ (by omega), put_ne _ _ (by omega)]
  have same : (batch sw st.1.chain).Same FILESYS_TABSIZE (st.1.top sw) := chain_same
  refine ⟨?_, ?_, ?_, ?_, ?_⟩
  all_goals rw [super]
  · show swap16 sw st.1.s_mounted = SMOUNTED
    rw [kept.1]
    exact swap16_back (by decide)
  · show swap16 sw st.1.s_isize = isize
    rw [kept.2.1]
    exact swap16_back (by omega)
  · show swap16 sw st.1.s_fsize = fsize
    rw [kept.2.2.1]
    exact swap16_back small
  · exact chain.congr same.1 (fun i under => same.2 i (Nat.lt_of_lt_of_le under chain.count_le)) (fun _ _ => .refl)
  · exact freed.built.tfree

theorem finish_fresh (low : width = .int16 → isize < 64) (three : 3 ≤ isize) (small : isize < 65536) :
    Fresh sw isize (finish width sw isize st).blocks := by
  refine ⟨?_, ?_, by omega, small⟩
  all_goals rw [finish_blocks low]
  · rw [put_ne _ _ (by decide), put_ne _ _ (by omega), put_same]
  · rw [put_ne _ _ (by omega), put_same]

theorem finish_zero (low : width = .int16 → isize < 64) (freed : Freed sw isize fsize isize st) :
    ∀ b < isize, 2 < b → (finish width sw isize st).blocks b = fun _ => 0 := by
  intro b less high
  rw [finish_blocks low, put_ne _ _ (by omega), put_ne _ _ (by omega), put_ne _ _ (by omega)]
  exact freed.zero b (Nat.le_of_lt less)

/-- With sensible sizes the image is good. -/
theorem mkfs_good (accepted : accepts isize fsize) (fine : sensible width isize fsize) :
    ∃ f, mkfs width sw isize fsize rest (opened blocks) = some f ∧ Good width sw isize fsize f := by
  obtain ⟨_, _, less, small⟩ := accepted
  have three := fine.1
  have low : width = .int16 → isize < 64 := fun narrow => (fine.narrow narrow).1
  have high : width = .int16 → fsize ≤ 113 := fun narrow => Nat.le_of_lt_succ (fine.narrow narrow).2
  obtain ⟨count, bound⟩ := fine.tinode
  have start : Freed sw isize fsize (fsize - 1)
      (fs_super sw isize fsize (swap16 sw (8 * (isize - 2) - 2)) rest, zeros width fsize (opened blocks)) := by
    refine start_freed less fun narrow => ?_
    have bound := high narrow
    omega
  obtain ⟨st, done, kept, freed⟩ := frees_ends (by omega) (by omega) small high start
  have fresh : Fresh sw isize (finish width sw isize st).blocks := finish_fresh low three (by omega)
  have zero := finish_zero low freed
  refine ⟨finish width sw isize st, ?_, ?_⟩
  · unfold mkfs
    rw [count, swizzle16_small bound, Option.bind_some, done]
    rfl
  refine ⟨finish_placed freed.placed low, finish_chained low three less small freed kept, ?_, ?_, fresh.mode,
    fresh.entries, ?_, ?_⟩
  · rw [free_count fresh.root zero three, finish_blocks low, put_same]
    show swap16 sw st.1.s_tinode = _
    rw [kept.2.2.2]
    exact swap16_back bound
  · intro free
    have two := (isFree_iff fresh.root zero (by omega)).mp free
    omega
  · rw [fresh.block]
    intro b member
    have above : isize ≤ b := by
      rcases List.mem_cons.mp member with root | free
      · exact Nat.le_of_eq root.symm
      · have inside := List.mem_range'_1.mp free
        omega
    refine ⟨?_, fun n inside => by omega⟩
    show b ≠ 2
    omega
  · intro answers s same
    rw [fresh.nlink]
    refine Fresh.pass4 (same ▸ fresh) ?_
    unfold Fsck.inodes
    cases width with
    | int16 =>
      have bound := low rfl
      dsimp only
      omega
    | int32 =>
      dsimp only
      omega

/-- What the first loop and the loop after it have written stays written. -/
theorem free_block_disk {j : Nat} {st' : Superblock × File} {dwrite : Nat → (Nat → Nat) → File → File}
    (done : free_block width sw dwrite j st = some st') :
    st'.2 = if swap16 sw st.1.s_nfree = 50 then dwrite j st.1.chain st.2 else st.2 := by
  unfold free_block at done
  by_cases full : swap16 sw st.1.s_nfree = 50
  · rw [if_pos full] at done ⊢
    obtain ⟨tfree, _, same⟩ := Option.map_eq_some_iff.mp done
    rw [← same]
  · rw [if_neg full] at done ⊢
    obtain ⟨tfree, _, same⟩ := Option.map_eq_some_iff.mp done
    rw [← same]

theorem frees_log {j : Nat} {st' : Superblock × File} {w : Nat × Nat} (done : frees width sw isize j st = some st')
    (member : w ∈ st.2.log) : w ∈ st'.2.log := by
  induction j generalizing st with
  | zero =>
    injection done with same
    rw [← same]
    exact member
  | succ j ih =>
    unfold frees at done
    split_ifs at done with more
    · obtain ⟨mid, step, rest⟩ := Option.bind_eq_some_iff.mp done
      refine ih rest ?_
      rw [free_block_disk step]
      split_ifs
      · exact log_grows member
      · exact member
    · injection done with same
      rw [← same]
      exact member

/-- The parts of a run of `mkfs`. -/
theorem mkfs_parts (done : mkfs width sw isize fsize rest (opened blocks) = some f) :
    ∃ s_tinode st, swizzle16 width sw (tinode width isize) = some s_tinode ∧
      frees width sw isize (fsize - 1) (fs_super sw isize fsize s_tinode rest, zeros width fsize (opened blocks)) =
        some st ∧ f = finish width sw isize st := by
  obtain ⟨s_tinode, count, rest'⟩ := Option.bind_eq_some_iff.mp done
  obtain ⟨st, freed, same⟩ := Option.map_eq_some_iff.mp rest'
  exact ⟨s_tinode, st, count, freed, same.symm⟩

theorem finish_log {w : Nat × Nat} (member : w ∈ st.2.log) : w ∈ (finish width sw isize st).log :=
  log_grows (log_grows (log_grows member))

/-- With two inode blocks the root directory is written over its inode. -/
theorem two_bad (good : Good width sw 2 fsize (finish width sw 2 st)) : False := by
  have blocks : (finish width sw 2 st).blocks 2 = dirWords sw := by
    rw [finish_blocks fun _ => by decide, put_ne _ _ (by decide), put_same]
  have mode : (inode (finish width sw 2 st).blocks ROOTINODE).i_mode = dirWords sw 32 := congrFun blocks 32
  have root := good.root
  rw [mode] at root
  exact absurd root (by cases sw <;> decide)

/-- With too many inodes the program stops before it writes the superblock. -/
theorem many_bad (many : 8194 < isize) (small : isize < 65536) : swizzle16 .int32 sw (tinode .int32 isize) = none := by
  unfold swizzle16 tinode
  refine if_pos ⟨rfl, ?_, ?_⟩ <;> dsimp only <;> omega

/-- With an `int` of 16 bits, the root directory above block 63 goes elsewhere. -/
theorem far_bad (far : 64 ≤ isize) : ¬ Placed (finish .int16 sw isize st) := by
  intro placed
  have member : (isize, seek .int16 isize (dwrite .int16 2 (inodeWords sw isize) st.2).pos) ∈
      (finish .int16 sw isize st).log := log_grows (List.mem_append_right _ (List.mem_singleton_self _))
  have here : (dwrite .int16 2 (inodeWords sw isize) st.2).pos = 1536 := rfl
  have right := placed _ member
  rw [here] at right
  unfold seek at right
  dsimp only at right
  split_ifs at right <;> omega

/-- A file of more than 128 blocks is cleared from the start again. -/
theorem zeros_bad {n : Nat} (long : 128 < n) : (128, 0) ∈ (zeros .int16 n (opened blocks)).log := by
  induction n with
  | zero => omega
  | succ n ih =>
    by_cases last : n = 128
    · rw [last]
      exact List.mem_append_right _ (List.mem_singleton_self _)
    · exact log_grows (ih (by omega))

/-- The first 49 blocks are freed without a write. -/
theorem frees_quiet {n j : Nat} {st' : Superblock × File} (high : isize + n ≤ j) (less : j < fsize)
    (small : fsize < 65536) (done : frees width sw isize j st = some st')
    (built : Built sw st.1 (fileLinks sw st.2) (List.range' (j + 1) (fsize - 1 - j))) (few : fsize - 1 - j + n ≤ 49) :
    ∃ mid, frees width sw isize (j - n) mid = some st' ∧ mid.2 = st.2 ∧
      Built sw mid.1 (fileLinks sw mid.2) (List.range' (j - n + 1) (fsize - 1 - (j - n))) := by
  induction n generalizing j st with
  | zero => exact ⟨st, done, rfl, built⟩
  | succ n ih =>
    obtain ⟨k, same⟩ : ∃ k, j = k + 1 := ⟨j - 1, by omega⟩
    rw [same] at done built high less few ⊢
    have count : swap16 sw st.1.s_nfree = (List.range' (k + 1 + 1) (fsize - 1 - (k + 1))).length %
        FILESYS_TABSIZE + 1 := built.count
    have size : FILESYS_TABSIZE = 50 := rfl
    rw [List.length_range', size] at count
    have short : swap16 sw st.1.s_nfree ≠ 50 := by omega
    have new : k + 1 ∉ List.range' (k + 1 + 1) (fsize - 1 - (k + 1)) := by
      intro member
      have inside := List.mem_range'_1.mp member
      omega
    obtain ⟨mid, step, built', disk, _⟩ := built.push width (dwrite width) (fun no => absurd no short) (by omega)
      (by omega) new (by rw [List.length_range']; omega)
    have next : (k + 1) :: List.range' (k + 1 + 1) (fsize - 1 - (k + 1)) = List.range' (k + 1) (fsize - 1 - k) := by
      rw [← List.range'_succ]
      congr 1
      omega
    rw [next] at built'
    rw [if_neg short] at disk
    unfold frees at done
    rw [if_pos (by omega), step, Option.bind_some] at done
    obtain ⟨last, rest, disk', final⟩ := ih (by omega) (by omega) done built' (by omega)
    rw [Nat.add_sub_add_right]
    exact ⟨last, rest, disk'.trans disk, final⟩

/-- With an `int` of 16 bits, the first batch above block 63 goes behind the end. -/
theorem batch_bad {f : File} (near : isize < 64) (long : 114 ≤ fsize) (short : fsize ≤ 128)
    (done : mkfs .int16 sw isize fsize rest (opened blocks) = some f) : ¬ Placed f := by
  intro placed
  obtain ⟨s_tinode, st, _, freed, same⟩ := mkfs_parts done
  have start : Freed sw isize fsize (fsize - 1) (fs_super sw isize fsize s_tinode rest,
      zeros .int16 fsize (opened blocks)) := start_freed (by omega) fun _ => short
  have zeroed : Zeroed fsize (zeros .int16 fsize (opened blocks)) := zeros_zeroed fun _ => short
  obtain ⟨mid, later, disk, built⟩ := frees_quiet (n := 49) (by omega) (by omega) (by omega) freed start.built (by omega)
  obtain ⟨k, block⟩ : ∃ k, fsize - 1 - 49 = k + 1 := ⟨fsize - 51, by omega⟩
  rw [block] at later built
  have count : swap16 sw mid.1.s_nfree = (List.range' (k + 1 + 1) (fsize - 1 - (k + 1))).length %
      FILESYS_TABSIZE + 1 := built.count
  have size : FILESYS_TABSIZE = 50 := rfl
  rw [List.length_range', size] at count
  have full : swap16 sw mid.1.s_nfree = 50 := by omega
  unfold frees at later
  rw [if_pos (by omega)] at later
  obtain ⟨next, step, rest'⟩ := Option.bind_eq_some_iff.mp later
  have spilled := free_block_disk step
  rw [if_pos full, disk] at spilled
  have member : (k + 1, seek .int16 (k + 1) (zeros .int16 fsize (opened blocks)).pos) ∈ next.2.log := by
    rw [spilled]
    exact List.mem_append_right _ (List.mem_singleton_self _)
  have right := placed _ (same ▸ finish_log (frees_log rest' member))
  rw [zeroed.pos] at right
  unfold seek at right
  dsimp only at right
  split_ifs at right <;> omega

/-- mkfs writes a good file system just for sensible sizes. -/
theorem mkfs_good_iff (accepted : accepts isize fsize) :
    (∃ f, mkfs width sw isize fsize rest (opened blocks) = some f ∧ Good width sw isize fsize f) ↔
      sensible width isize fsize := by
  refine ⟨?_, mkfs_good accepted⟩
  rintro ⟨f, done, good⟩
  obtain ⟨_, two, less, small⟩ := accepted
  obtain ⟨s_tinode, st, count, freed, same⟩ := mkfs_parts done
  have three : 3 ≤ isize := by
    by_cases both : isize = 2
    · rw [same, both] at good
      exact (two_bad good).elim
    · omega
  refine ⟨three, ?_⟩
  cases width with
  | int16 =>
    have near : isize < 64 := by
      by_cases far : 64 ≤ isize
      · exact absurd (same ▸ good.placed) (far_bad far)
      · omega
    refine ⟨near, ?_⟩
    by_cases long : 128 < fsize
    · have right := good.placed _ (same ▸ finish_log (frees_log freed (zeros_bad long)))
      cases right
    · by_cases short : fsize < 114
      · exact short
      · exact absurd good.placed (batch_bad near (by omega) (by omega) done)
  | int32 =>
    dsimp only
    by_cases many : 8194 < isize
    · rw [many_bad many (by omega)] at count
      cases count
    · omega

/-- For sizes that mkfs accepts, it writes a good file system if and only if they are sensible,
and a kernel that mounts a good one hands out the blocks after the root directory, each once. -/
theorem mkfs_makes (width : IntWidth) (sw : Bool) (rest : Nat → Nat) (blocks : Disk)
    (accepted : accepts isize fsize) :
    ((∃ f, mkfs width sw isize fsize rest (opened blocks) = some f ∧ Good width sw isize fsize f) ↔
      sensible width isize fsize) ∧
    ∀ f, Good width sw isize fsize f → ∀ [Fuzix.Build] (s : Fuzix.Kernel) (devno m : Nat),
      Mounts s devno m sw f.blocks →
        Wp.wp (fun _ => False) (Fuzix.blkAllocs devno ((freeBlocks isize fsize).length + 1))
          (fun bs t => bs = freeBlocks isize fsize ++ [0] ∧ Fuzix.FreeList t devno m [] ∧
            t.u.error = Fuzix.ENOSPC) s := by
  refine ⟨mkfs_good_iff accepted, ?_⟩
  intro f good _ s devno m mounts
  refine (mounts.freeList good.chained ?_ List.nodup_range').drain
  intro b member
  have inside := List.mem_range'_1.mp member
  obtain ⟨_, _, less, _⟩ := accepted
  omega

/-- A small file system from a kernel with an `int` of 16 bits. -/
theorem mkfs_makes_small : ∃ f, mkfs .int16 false 3 100 (fun _ => 0) (opened fun _ _ => 0) = some f ∧
    Good .int16 false 3 100 f :=
  (mkfs_makes .int16 false (fun _ => 0) (fun _ _ => 0) (by unfold accepts; decide)).1.mpr
    ⟨by decide, by decide, by decide⟩

/-- The sizes of the example in its own comment, where `int` has 16 bits. -/
theorem example_sizes : ¬ ∃ f, mkfs .int16 false 64 4096 (fun _ => 0) (opened fun _ _ => 0) = some f ∧
    Good .int16 false 64 4096 f := by
  intro made
  have fine := (mkfs_good_iff (by unfold accepts; decide)).mp made
  exact absurd (fine.narrow rfl).1 (by decide)

end Sizes

end Mkfs
