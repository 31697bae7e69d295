import Fuzix.Image

/-!
# The free list that fsck builds

Pass 2 of fsck goes down through the blocks and frees those that are not marked in the bitmap.
Writes to the image do not fail. The counts it prints and the exit code are left out.
-/

namespace Fsck

open Table Chain Image
open Fuzix (FILESYS_TABSIZE SMOUNTED)
open Devio (IntWidth)

/-- The bitmap of pass 1 has `bytes` bytes. A test outside has no result. -/
structure Bitmap where
  bytes : Nat
  bits : Nat → UInt8

def Bitmap.bittest (bitmap : Bitmap) (b : Nat) : Option Bool :=
  if b / 8 < bitmap.bytes then some ((bitmap.bits (b / 8)).toNat >>> (b % 8) % 2 = 1) else none

/-- `calloc` of the bitmap in `main`, and the bits that pass 1 sets. -/
def bitmap (sw : Bool) (sb : Superblock) (bits : Nat → UInt8) : Bitmap := ⟨(swap16 sw sb.s_fsize + 7) / 8, bits⟩

section Pass
variable (width : IntWidth) (sw : Bool) (bitmap : Bitmap)

def dwrite (j : Nat) (words : Nat → Nat) (disk : Disk) : Disk := put disk j words

/-- The loop of pass 2 from block `j` on, for at most so many rounds. -/
def rebuild (isize : Nat) : Nat → Superblock × Disk → Nat → Option (Superblock × Disk)
  | 0, _, _ => none
  | rounds + 1, st, j =>
    if isize ≤ j then
      (bitmap.bittest j).bind fun used =>
        (if used then some st else free_block width sw dwrite j st).bind fun st =>
          rebuild isize rounds st ((j + 65535) % 65536)
    else some st

/-- The superblock that the loop starts from. -/
def cleared (sb : Superblock) : Superblock :=
  { sb with s_ninode := 0, s_nfree := swap16 sw 1, s_free := put sb.s_free 0 0, s_tfree := 0 }

/-- `yes` is the answer to the question whether to rebuild the list. -/
def pass2 (yes : Bool) (rounds : Nat) (sb : Superblock) (disk : Disk) : Option (Superblock × Disk) :=
  if yes then
    (rebuild width sw bitmap (swap16 sw sb.s_isize) rounds (cleared sw sb, disk)
      ((swap16 sw sb.s_fsize + 65535) % 65536)).map fun st => (st.1, dwrite 1 st.1.word st.2)
  else some (sb, disk)

end Pass

/-- The bit of `b` is set. -/
def Bitmap.marks (bitmap : Bitmap) (b : Nat) : Bool := (bitmap.bits (b / 8)).toNat >>> (b % 8) % 2 = 1

/-- The `n` blocks from `b` on that no inode uses. -/
def Bitmap.unused (bitmap : Bitmap) (b n : Nat) : List Nat := (List.range' b n).filter fun j => !bitmap.marks j

section Unused
variable {bitmap : Bitmap} {b n : Nat}

theorem unused_used (used : bitmap.marks b = true) : bitmap.unused b (n + 1) = bitmap.unused (b + 1) n := by
  unfold Bitmap.unused
  rw [List.range'_succ, List.filter_cons_of_neg (by rw [used]; decide)]

theorem unused_free (free : bitmap.marks b = false) : bitmap.unused b (n + 1) = b :: bitmap.unused (b + 1) n := by
  unfold Bitmap.unused
  rw [List.range'_succ, List.filter_cons_of_pos (by rw [free]; decide)]

theorem unused_inside {j : Nat} (member : j ∈ bitmap.unused b n) : b ≤ j ∧ j < b + n := by
  have inside := List.mem_range'_1.mp (List.mem_filter.mp member).1
  omega

theorem unused_distinct : (bitmap.unused b n).Nodup := List.Nodup.sublist List.filter_sublist List.nodup_range'

theorem unused_length : (bitmap.unused b n).length ≤ n := by
  have less := List.length_filter_le (fun j => !bitmap.marks j) (List.range' b n)
  rw [List.length_range'] at less
  exact less

theorem unused_sorted : (bitmap.unused b n).Pairwise (· < ·) :=
  List.Pairwise.sublist List.filter_sublist List.pairwise_lt_range'

/-- Block 1 can only be the first. -/
theorem unused_tail (low : 0 < b) : ∀ j ∈ (bitmap.unused b n).tail, j ≠ 1 := by
  have sorted : (bitmap.unused b n).Pairwise (· < ·) := unused_sorted
  have above : ∀ j ∈ bitmap.unused b n, b ≤ j := fun j member => (unused_inside member).1
  intro j member
  cases list : bitmap.unused b n with
  | nil =>
    rw [list] at member
    cases member
  | cons a rest =>
    rw [list] at sorted above member
    have later := (List.pairwise_cons.mp sorted).1 j member
    have first := above a List.mem_cons_self
    omega

theorem bittest_inside (inside : b < 8 * bitmap.bytes) : bitmap.bittest b = some (bitmap.marks b) :=
  if_pos (by omega)

end Unused

/-! ## The loop -/

section Loop
variable {width : IntWidth} {sw : Bool} {bitmap : Bitmap} {isize fsize rounds : Nat} {st : Superblock × Disk}

/-- The superblock keeps what the pass does not set. -/
def Kept (sb sb' : Superblock) : Prop :=
  sb'.s_mounted = sb.s_mounted ∧ sb'.s_isize = sb.s_isize ∧ sb'.s_fsize = sb.s_fsize

theorem rebuild_ends {k : Nat} (low : 0 < isize) (high : isize + k ≤ fsize) (small : fsize < 65536)
    (covers : fsize ≤ 8 * bitmap.bytes) (enough : k < rounds)
    (built : Built sw st.1 (links sw st.2) (bitmap.unused (isize + k) (fsize - (isize + k)))) :
    ∃ st', rebuild width sw bitmap isize rounds st (isize + k - 1) = some st' ∧ Kept st.1 st'.1 ∧
      Built sw st'.1 (links sw st'.2) (bitmap.unused isize (fsize - isize)) := by
  induction k generalizing rounds st with
  | zero =>
    obtain ⟨more, same⟩ : ∃ more, rounds = more + 1 := ⟨rounds - 1, by omega⟩
    rw [same]
    unfold rebuild
    rw [if_neg (by omega)]
    exact ⟨st, rfl, ⟨rfl, rfl, rfl⟩, built⟩
  | succ k ih =>
    obtain ⟨more, same⟩ : ∃ more, rounds = more + 1 := ⟨rounds - 1, by omega⟩
    have before : (isize + k + 65535) % 65536 = isize + k - 1 := by omega
    have split : fsize - (isize + k) = fsize - (isize + (k + 1)) + 1 := by omega
    have next : isize + k + 1 = isize + (k + 1) := rfl
    rw [same]
    show ∃ st', rebuild width sw bitmap isize (more + 1) st (isize + k) = some st' ∧ _
    unfold rebuild
    rw [if_pos (by omega), bittest_inside (by omega)]
    by_cases used : bitmap.marks (isize + k) = true
    · have rest : bitmap.unused (isize + k) (fsize - (isize + k)) =
          bitmap.unused (isize + (k + 1)) (fsize - (isize + (k + 1))) := by
        rw [split, unused_used used, next]
      rw [used, Option.bind_some, if_pos rfl, Option.bind_some, before]
      exact ih (by omega) (by omega) (rest ▸ built)
    · have free : bitmap.marks (isize + k) = false := by simpa using used
      have rest : bitmap.unused (isize + k) (fsize - (isize + k)) =
          (isize + k) :: bitmap.unused (isize + (k + 1)) (fsize - (isize + (k + 1))) := by
        rw [split, unused_free free, next]
      have few : (bitmap.unused (isize + (k + 1)) (fsize - (isize + (k + 1)))).length ≤
          fsize - (isize + (k + 1)) := unused_length
      have new : isize + k ∉ bitmap.unused (isize + (k + 1)) (fsize - (isize + (k + 1))) := by
        intro member
        have inside := unused_inside member
        omega
      obtain ⟨st', done, built', _, mounted, isize', fsize', _⟩ := built.push width dwrite (fun _ => links_put)
        (by omega) (by omega) new (by omega)
      obtain ⟨st'', ends, kept, final⟩ := @ih more st' (by omega) (by omega) (rest ▸ built')
      rw [free, Option.bind_some, if_neg (by decide), done, Option.bind_some, before]
      exact ⟨st'', ends, ⟨kept.1.trans mounted, kept.2.1.trans isize', kept.2.2.trans fsize'⟩, final⟩

/-- More rounds end in the same state. -/
theorem rebuild_more {st' : Superblock × Disk} {more j : Nat}
    (ends : rebuild width sw bitmap isize rounds st j = some st') (le : rounds ≤ more) :
    rebuild width sw bitmap isize more st j = some st' := by
  induction rounds generalizing more st j with
  | zero => cases ends
  | succ rounds ih =>
    obtain ⟨less, same⟩ : ∃ less, more = less + 1 := ⟨more - 1, by omega⟩
    rw [same]
    unfold rebuild at ends ⊢
    by_cases inside : isize ≤ j
    · rw [if_pos inside] at ends ⊢
      obtain ⟨used, tested, rest⟩ := Option.bind_eq_some_iff.mp ends
      obtain ⟨st₁, done, rest⟩ := Option.bind_eq_some_iff.mp rest
      refine Option.bind_eq_some_iff.mpr ⟨used, tested, Option.bind_eq_some_iff.mpr ⟨st₁, done, ?_⟩⟩
      exact ih rest (by omega)
    · rw [if_neg inside] at ends ⊢
      exact ends

/-- With no inode blocks the loop does not end. -/
theorem rebuild_endless {j : Nat} : rebuild width sw bitmap 0 rounds st j = none := by
  induction rounds generalizing st j with
  | zero => rfl
  | succ rounds ih =>
    unfold rebuild
    rw [if_pos (Nat.zero_le j)]
    simp only [ih, Option.bind_fun_none]

end Loop

/-! ## The list on the image -/

section Result
variable {sw : Bool} {isize fsize : Nat} {free : List Nat} {sb : Superblock} {disk : Disk}

theorem chain_words : (fun k => dwrite 1 sb.word disk 1 (k + 3)) = sb.chain := by
  funext k
  unfold dwrite
  rw [put_same]
  rfl

theorem links_apart {b : Nat} (other : b ≠ 1) : links sw (dwrite 1 sb.word disk) b = links sw disk b := by
  unfold dwrite
  rw [links_put, put_ne _ _ other]

/-- The superblock is written last, over block 1. -/
theorem built_written (built : Built sw sb (links sw disk) free) (mounted : swap16 sw sb.s_mounted = SMOUNTED)
    (distinct : free.Nodup) (low : ∀ b ∈ free.tail, b ≠ 1)
    (first : free.head? = some 1 → free.length % FILESYS_TABSIZE ≠ 0) :
    Chained sw (dwrite 1 sb.word disk) (swap16 sw sb.s_isize) (swap16 sw sb.s_fsize) free := by
  have here : dwrite 1 sb.word disk 1 = sb.word := put_same _ _ _
  refine ⟨?_, ?_, ?_, ?_, ?_⟩
  · rw [here]
    exact mounted
  · rw [here]
    rfl
  · rw [here]
    rfl
  · rw [chain_words]
    have same : (batch sw sb.chain).Same FILESYS_TABSIZE (sb.top sw) := chain_same
    have kept : Yields FILESYS_TABSIZE 0 (links sw (dwrite 1 sb.word disk)) (sb.top sw) free := by
      have chain := built.chain
      cases free with
      | nil => exact chain.congr rfl (fun _ _ => rfl) fun b no => (by cases no)
      | cons a rest =>
        by_cases super : a = 1
        · have more : (sb.top sw).count ≠ 1 := by
            rw [built.count]
            have positive := first (by rw [super]; rfl)
            omega
          exact chain.congr_below more fun b member => .of_eq (links_apart (low b member))
        · refine chain.congr rfl (fun _ _ => rfl) ?_
          intro b member
          rcases List.mem_cons.mp member with head | tail
          · exact .of_eq (links_apart (head ▸ super))
          · exact .of_eq (links_apart (low b tail))
    refine kept.congr same.1 (fun i less => ?_) (fun _ _ => .refl)
    exact same.2 i (Nat.lt_of_lt_of_le less kept.count_le)
  · rw [here]
    exact built.tfree

/-- A chain that leads through block 1 ends in the superblock. -/
theorem built_lost {rest : List Nat} (built : Built sw sb (links sw disk) (1 :: rest))
    (mounted : swap16 sw sb.s_mounted = SMOUNTED) (full : (1 :: rest).length % FILESYS_TABSIZE = 0) :
    ¬ Chained sw (dwrite 1 sb.word disk) isize fsize (1 :: rest) := by
  intro chained
  have one : swap16 sw sb.s_nfree = 1 := built.count.trans (by rw [full])
  have chain := chained.chain
  rw [chain_words] at chain
  cases chain with
  | next _ _ here _ below =>
    have top : (batch sw sb.chain).entry 0 = 1 := by
      have count : (batch sw sb.chain).count = 1 := one
      rw [count] at here
      exact here
    have down : (batch sw sb.chain).pop (links sw (dwrite 1 sb.word disk)) = batch sw sb.word := by
      have count : (batch sw sb.chain).count = 1 := one
      unfold Batch.pop dwrite
      rw [if_pos count, top, links_put, put_same]
    rw [down] at below
    have small : swap16 sw sb.s_mounted ≤ FILESYS_TABSIZE := below.count_le
    rw [mounted] at small
    exact absurd small (by decide)

end Result

section Agreement
open Fuzix Wp
variable (width : IntWidth) (sw : Bool) (bits : Nat → UInt8) (sb : Superblock) (disk : Disk)

/-- The blocks that pass 2 should free. -/
def toFree (sw : Bool) (bits : Nat → UInt8) (sb : Superblock) : List Nat :=
  (bitmap sw sb bits).unused (swap16 sw sb.s_isize) (swap16 sw sb.s_fsize - swap16 sw sb.s_isize)

/-- There are blocks, the first inode block is not block 0, and if block 1 is free its batch
has others. -/
def sensible (sw : Bool) (bits : Nat → UInt8) (sb : Superblock) : Prop :=
  0 < swap16 sw sb.s_isize ∧ 0 < swap16 sw sb.s_fsize ∧
    (1 ∈ toFree sw bits sb → (toFree sw bits sb).length % FILESYS_TABSIZE ≠ 0)

theorem cleared_built : Built sw (cleared sw sb) (links sw disk) [] :=
  built_nil rfl (put_same sb.s_free 0 0) rfl

variable {width sw bits sb disk}

theorem toFree_low (low : 0 < swap16 sw sb.s_isize) : ∀ b ∈ (toFree sw bits sb).tail, b ≠ 1 := unused_tail low

/-- The loop ends, with the list of the blocks to free. -/
theorem loop_ends (width : IntWidth) (bits : Nat → UInt8) (disk : Disk) (low : 0 < swap16 sw sb.s_isize) (high : 0 < swap16 sw sb.s_fsize) :
    ∃ rounds st, rebuild width sw (bitmap sw sb bits) (swap16 sw sb.s_isize) rounds (cleared sw sb, disk)
      ((swap16 sw sb.s_fsize + 65535) % 65536) = some st ∧ Kept sb st.1 ∧
      Built sw st.1 (links sw st.2) (toFree sw bits sb) := by
  have small : swap16 sw sb.s_fsize < 65536 := swap16_lt
  have last : (swap16 sw sb.s_fsize + 65535) % 65536 = swap16 sw sb.s_fsize - 1 := by omega
  rw [last]
  by_cases some_blocks : swap16 sw sb.s_isize ≤ swap16 sw sb.s_fsize
  · have covers : swap16 sw sb.s_fsize ≤ 8 * (bitmap sw sb bits).bytes := by
      show swap16 sw sb.s_fsize ≤ 8 * ((swap16 sw sb.s_fsize + 7) / 8)
      omega
    have all : swap16 sw sb.s_isize + (swap16 sw sb.s_fsize - swap16 sw sb.s_isize) = swap16 sw sb.s_fsize :=
      Nat.add_sub_cancel' some_blocks
    have none_yet : Built sw (cleared sw sb) (links sw disk) ((bitmap sw sb bits).unused
        (swap16 sw sb.s_isize + (swap16 sw sb.s_fsize - swap16 sw sb.s_isize))
        (swap16 sw sb.s_fsize - (swap16 sw sb.s_isize + (swap16 sw sb.s_fsize - swap16 sw sb.s_isize)))) := by
      rw [all, Nat.sub_self]
      exact cleared_built sw sb disk
    obtain ⟨st, done, kept, built⟩ := @rebuild_ends width sw _ _ _ (swap16 sw sb.s_fsize + 1)
      (cleared sw sb, disk) _ low (by omega) small covers (by omega) none_yet
    rw [all] at done
    exact ⟨_, st, done, kept, built⟩
  · refine ⟨1, (cleared sw sb, disk), if_neg (by omega), ⟨rfl, rfl, rfl⟩, ?_⟩
    unfold toFree
    rw [Nat.sub_eq_zero_of_le (by omega)]
    exact cleared_built sw sb disk

theorem toFree_first (low : 0 < swap16 sw sb.s_isize) (super : 1 ∈ toFree sw bits sb) :
    ∃ rest, toFree sw bits sb = 1 :: rest := by
  have tail : ∀ b ∈ (toFree sw bits sb).tail, b ≠ 1 := toFree_low low
  cases list : toFree sw bits sb with
  | nil =>
    rw [list] at super
    cases super
  | cons a rest =>
    rw [list] at super tail
    rcases List.mem_cons.mp super with first | later
    · exact ⟨rest, by rw [first]⟩
    · exact absurd rfl (tail 1 later)

/-- What pass 2 leaves behind is right just if the sizes and the place of block 1 allow it. -/
theorem pass2_right (mounted : swap16 sw sb.s_mounted = SMOUNTED) :
    (∃ rounds st, pass2 width sw (bitmap sw sb bits) true rounds sb disk = some st ∧
      Chained sw st.2 (swap16 sw sb.s_isize) (swap16 sw sb.s_fsize) (toFree sw bits sb)) ↔
    sensible sw bits sb := by
  constructor
  · rintro ⟨rounds, st, done, chained⟩
    obtain ⟨st', ends, same⟩ := Option.map_eq_some_iff.mp done
    change rebuild width sw (bitmap sw sb bits) (swap16 sw sb.s_isize) rounds (cleared sw sb, disk) _ = some st' at ends
    have low : 0 < swap16 sw sb.s_isize := by
      by_cases zero : swap16 sw sb.s_isize = 0
      · rw [zero, rebuild_endless] at ends
        cases ends
      · omega
    have high : 0 < swap16 sw sb.s_fsize := by
      by_cases zero : swap16 sw sb.s_fsize = 0
      · cases rounds with
        | zero => cases ends
        | succ rounds =>
          have limit : swap16 sw sb.s_isize < 65536 := swap16_lt
          have outside : (bitmap sw sb bits).bittest ((swap16 sw sb.s_fsize + 65535) % 65536) = none := by
            refine if_neg ?_
            show ¬ (swap16 sw sb.s_fsize + 65535) % 65536 / 8 < (swap16 sw sb.s_fsize + 7) / 8
            omega
          change (if swap16 sw sb.s_isize ≤ _ then _ else _) = _ at ends
          rw [if_pos (by omega), outside] at ends
          cases ends
      · omega
    refine ⟨low, high, fun super full => ?_⟩
    obtain ⟨rest, list⟩ := toFree_first low super
    obtain ⟨rounds', st'', ends', kept, built⟩ := loop_ends width bits disk low high
    have one : st' = st'' := by
      have long := rebuild_more ends (Nat.le_max_left rounds rounds')
      rw [rebuild_more ends' (Nat.le_max_right rounds rounds')] at long
      exact (Option.some.inj long).symm
    rw [list] at built full chained
    rw [← same, one] at chained
    exact built_lost built (by rw [kept.1]; exact mounted) full chained
  · rintro ⟨low, high, super⟩
    obtain ⟨rounds, st, ends, kept, built⟩ := loop_ends width bits disk low high
    refine ⟨rounds, _, Option.map_eq_some_iff.mpr ⟨st, ends, rfl⟩, ?_⟩
    rw [← kept.2.1, ← kept.2.2]
    refine built_written built (by rw [kept.1]; exact mounted) unused_distinct (toFree_low low) ?_
    intro first
    exact super (List.mem_of_mem_head? first)

/-- Pass 2 leaves a free list of just the unused blocks if and only if the sizes and the place
of block 1 allow it, and a kernel that mounts an image with such a list hands out these blocks,
each once, and then reports the end. -/
theorem free_list_agrees (width : IntWidth) (bits : Nat → UInt8) (disk : Disk)
    (mounted : swap16 sw sb.s_mounted = SMOUNTED) :
    ((∃ rounds st, pass2 width sw (bitmap sw sb bits) true rounds sb disk = some st ∧
      Chained sw st.2 (swap16 sw sb.s_isize) (swap16 sw sb.s_fsize) (toFree sw bits sb)) ↔
      sensible sw bits sb) ∧
    ∀ image, Chained sw image (swap16 sw sb.s_isize) (swap16 sw sb.s_fsize) (toFree sw bits sb) →
      ∀ [Build] (s : Kernel) (devno m : Nat), Mounts s devno m sw image →
        wp (fun _ => False) (blkAllocs devno ((toFree sw bits sb).length + 1))
          (fun bs t => bs = toFree sw bits sb ++ [0] ∧ FreeList t devno m [] ∧ t.u.error = ENOSPC) s := by
  refine ⟨pass2_right mounted, ?_⟩
  intro image chained _ s devno m mounts
  refine (mounts.freeList chained ?_ unused_distinct).drain
  intro b member
  have inside := unused_inside member
  omega

/-- A file system of six blocks with three free ones. -/
def six : Superblock := ⟨SMOUNTED, 3, 6, 0, fun _ => 0, 0, 0, 6, fun _ => 0⟩

theorem free_list_agrees_six : ∃ rounds st, pass2 .int16 false (bitmap false six fun _ => 16) true rounds six
    (fun _ _ => 0) = some st ∧ Chained false st.2 3 6 [3, 5] :=
  (free_list_agrees .int16 (fun _ => 16) (fun _ _ => 0) (by decide)).1.mpr (by unfold sensible; decide)

/-- With `s_isize` zero the loop counts down past block 0 and goes on. -/
theorem no_inode_blocks : ¬ ∃ rounds st, pass2 .int16 false (bitmap false { six with s_isize := 0 } fun _ => 0) true
    rounds { six with s_isize := 0 } (fun _ _ => 0) = some st ∧ Chained false st.2 0 6 [0, 1, 2, 3, 4, 5] := by
  rintro ⟨rounds, st, done, _⟩
  obtain ⟨st', ends, _⟩ := Option.map_eq_some_iff.mp done
  change rebuild _ _ _ 0 rounds _ _ = some st' at ends
  rw [rebuild_endless] at ends
  cases ends

end Agreement

end Fsck
