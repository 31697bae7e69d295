import Fuzix.Freelist

/-!
# Images of file systems

The host tools see an image as blocks of 16-bit words, in the byte order of the host or in
the other one. A superblock in memory is followed by whatever lies there, and is written with
it. The kernel that mounts an image has its byte order.
-/

namespace Image

open Table Chain
open Fuzix (FILESYS_TABSIZE SMOUNTED)
open Devio (IntWidth)

/-- `swizzle16` of a value of 16 bits. -/
def swap16 (swizzling : Bool) (v : Nat) : Nat :=
  if swizzling then v % 256 * 256 + v / 256 % 256 else v % 65536

/-- `swizzle16`, with nothing for an exit. An `int` of 16 bits has no top half to check. -/
def swizzle16 (width : IntWidth) (swizzling : Bool) (v : Nat) : Option Nat :=
  if width = .int32 ∧ v / 65536 % 65536 ≠ 0 ∧ v / 65536 % 65536 ≠ 0xFFFF then none
  else some (swap16 swizzling v)

def swizzle32 (swizzling : Bool) (v : Nat) : Nat :=
  if swizzling then
    v % 256 * 16777216 + v / 256 % 256 * 65536 + v / 65536 % 256 * 256 + v / 16777216 % 256
  else v % 4294967296

/-- The words of a block that are 32 bits wide come low half first in the order of the host. -/
abbrev Disk := Nat → Nat → Nat

/-- The fields are as they lie in memory. `rest` has the other words. -/
structure Superblock where
  s_mounted : Nat
  s_isize : Nat
  s_fsize : Nat
  s_nfree : Nat
  s_free : Nat → Nat
  s_ninode : Nat
  s_tfree : Nat
  s_tinode : Nat
  rest : Nat → Nat

def Superblock.word (sb : Superblock) (k : Nat) : Nat :=
  match k with
  | 0 => sb.s_mounted
  | 1 => sb.s_isize
  | 2 => sb.s_fsize
  | 3 => sb.s_nfree
  | 54 => sb.s_ninode
  | 108 => sb.s_tfree
  | 109 => sb.s_tinode
  | k => if k < 54 then sb.s_free (k - 4) else sb.rest k

/-- The 512 bytes from `s_nfree` on. -/
def Superblock.chain (sb : Superblock) (k : Nat) : Nat := sb.word (k + 3)

/-- The step that both tools repeat: the block `j` goes on the free list. -/
def free_block {δ : Type} (width : IntWidth) (swizzling : Bool) (dwrite : Nat → (Nat → Nat) → δ → δ) (j : Nat)
    (st : Superblock × δ) : Option (Superblock × δ) :=
  let (sb, disk) :=
    if swap16 swizzling st.1.s_nfree = 50 then ({ st.1 with s_nfree := 0 }, dwrite j st.1.chain st.2) else st
  (swizzle16 width swizzling (swap16 swizzling sb.s_tfree + 1)).map fun tfree =>
    let n := swap16 swizzling sb.s_nfree
    ({ sb with
      s_tfree := tfree
      s_free := put sb.s_free n (swap16 swizzling j)
      s_nfree := swap16 swizzling (n + 1) }, disk)

/-! ## Words -/

section Swapping
variable {width : IntWidth} {sw : Bool} {v : Nat}

theorem swap16_lt : swap16 sw v < 65536 := by
  unfold swap16
  split <;> omega

theorem swap16_swap16 : swap16 sw (swap16 sw v) = v % 65536 := by
  unfold swap16
  split
  · have low : (v % 256 * 256 + v / 256 % 256) % 256 = v / 256 % 256 := by omega
    have high : (v % 256 * 256 + v / 256 % 256) / 256 = v % 256 := by omega
    rw [low, high]
    omega
  · omega

theorem swap16_back (small : v < 65536) : swap16 sw (swap16 sw v) = v :=
  swap16_swap16.trans (Nat.mod_eq_of_lt small)

@[simp] theorem swap16_zero : swap16 sw 0 = 0 := by
  unfold swap16
  split <;> rfl

theorem swizzle16_small (small : v < 65536) : swizzle16 width sw v = some (swap16 sw v) := by
  unfold swizzle16
  exact if_neg fun no => no.2.1 (by omega)

end Swapping

/-! ## The free list of an image -/

/-- The count and the entries in the words of a block of the chain. -/
def batch (sw : Bool) (words : Nat → Nat) : Batch Nat := ⟨swap16 sw (words 0), fun i => swap16 sw (words (i + 1))⟩

/-- The batches in the blocks of an image. -/
def links (sw : Bool) (disk : Disk) (j : Nat) : Batch Nat := batch sw (disk j)

def Superblock.top (sb : Superblock) (sw : Bool) : Batch Nat :=
  ⟨swap16 sw sb.s_nfree, fun i => swap16 sw (sb.s_free i)⟩

theorem links_put {sw : Bool} {j : Nat} {disk : Disk} (words : Nat → Nat) :
    links sw (put disk j words) = put (links sw disk) j (batch sw words) := by
  funext i
  unfold links
  rw [put_apply, put_apply]
  split <;> rfl

/-- The superblock on the image, and the blocks that its free list leads to. -/
structure Chained (sw : Bool) (disk : Disk) (isize fsize : Nat) (free : List Nat) : Prop where
  mounted : swap16 sw (disk 1 0) = SMOUNTED
  isize : swap16 sw (disk 1 1) = isize
  fsize : swap16 sw (disk 1 2) = fsize
  chain : Yields FILESYS_TABSIZE 0 (links sw disk) (batch sw fun k => disk 1 (k + 3)) free
  tfree : swap16 sw (disk 1 108) = free.length

/-- The free list of a superblock in memory, with the batches that were written out. -/
structure Built (sw : Bool) (sb : Superblock) (link : Nat → Batch Nat) (free : List Nat) : Prop where
  chain : Yields FILESYS_TABSIZE 0 link (sb.top sw) free
  count : (sb.top sw).count = free.length % FILESYS_TABSIZE + 1
  tfree : swap16 sw sb.s_tfree = free.length

section Building
variable {δ : Type} {sw : Bool} {j : Nat}
  {sb : Superblock} {disk : δ} {free : List Nat} {link : δ → Nat → Batch Nat}

theorem chain_same : (batch sw sb.chain).Same FILESYS_TABSIZE (sb.top sw) := by
  have size : FILESYS_TABSIZE = 50 := rfl
  refine ⟨rfl, fun i less => ?_⟩
  have entry : sb.chain (i + 1) = sb.s_free i := by
    show sb.word (i + 4) = sb.s_free i
    unfold Superblock.word
    split <;> first | omega | skip
    rw [if_pos (by omega), Nat.add_sub_cancel]
  exact congrArg (swap16 sw) entry

theorem Built.push (width : IntWidth) (dwrite : Nat → (Nat → Nat) → δ → δ)
    (built : Built sw sb (link disk) free)
    (there : swap16 sw sb.s_nfree = 50 → ∀ words, link (dwrite j words disk) = put (link disk) j (batch sw words))
    (real : 0 < j) (small : j < 65536) (new : j ∉ free) (few : free.length + 1 < 65536) :
    ∃ st, free_block width sw dwrite j (sb, disk) = some st ∧ Built sw st.1 (link st.2) (j :: free) ∧
      st.2 = (if swap16 sw sb.s_nfree = 50 then dwrite j sb.chain disk else disk) ∧
      st.1.s_mounted = sb.s_mounted ∧ st.1.s_isize = sb.s_isize ∧ st.1.s_fsize = sb.s_fsize ∧
      st.1.s_tinode = sb.s_tinode := by
  have size : FILESYS_TABSIZE = 50 := rfl
  have pushed := push_yields (s := ⟨sb.top sw, link disk⟩) (by decide) built.chain (by omega) new
  have counted := push_count (s := ⟨sb.top sw, link disk⟩) (a := j) (by decide) built.count
  have fits : swap16 sw sb.s_nfree ≤ FILESYS_TABSIZE := built.chain.count_le
  have entry : swap16 sw (swap16 sw j) = j := swap16_back small
  have tfree : swizzle16 width sw (swap16 sw sb.s_tfree + 1) = some (swap16 sw (free.length + 1)) := by
    rw [built.tfree]
    exact swizzle16_small few
  unfold free_block
  by_cases full : swap16 sw sb.s_nfree = 50
  · have spilled : Stack.push FILESYS_TABSIZE ⟨sb.top sw, link disk⟩ j =
        ⟨⟨1, put (sb.top sw).entry 0 j⟩, put (link disk) j (sb.top sw)⟩ := if_pos full
    rw [spilled] at pushed counted
    rw [if_pos full]
    dsimp only
    rw [tfree, swap16_zero]
    refine ⟨_, rfl, ⟨?_, ?_, ?_⟩, (if_pos full).symm, rfl, rfl, rfl, rfl⟩
    · refine pushed.congr (swap16_back (by decide)) ?_ ?_
      · intro i less
        have first : i = 0 := Nat.lt_one_iff.mp less
        rw [first]
        show swap16 sw (put sb.s_free 0 (swap16 sw j) 0) = put (sb.top sw).entry 0 j 0
        rw [put_same, put_same]
        exact entry
      · intro b _
        dsimp only
        rw [there full, put_apply, put_apply]
        by_cases same : b = j
        · rw [if_pos same, if_pos same]
          exact chain_same
        · rw [if_neg same, if_neg same]
          exact .refl
    · exact (swap16_back (by decide)).trans counted
    · exact swap16_back few
  · have stays : Stack.push FILESYS_TABSIZE ⟨sb.top sw, link disk⟩ j =
        ⟨⟨swap16 sw sb.s_nfree + 1, put (sb.top sw).entry (swap16 sw sb.s_nfree) j⟩, link disk⟩ := if_neg full
    have raised : swap16 sw (swap16 sw (swap16 sw sb.s_nfree + 1)) = swap16 sw sb.s_nfree + 1 :=
      swap16_back (by omega)
    rw [stays] at pushed counted
    rw [if_neg full]
    dsimp only
    rw [tfree]
    refine ⟨_, rfl, ⟨?_, ?_, ?_⟩, (if_neg full).symm, rfl, rfl, rfl, rfl⟩
    · refine pushed.congr raised ?_ (fun _ _ => .refl)
      intro i _
      show swap16 sw (put sb.s_free (swap16 sw sb.s_nfree) (swap16 sw j) i) =
        put (sb.top sw).entry (swap16 sw sb.s_nfree) j i
      rw [put_apply, put_apply]
      by_cases last : i = swap16 sw sb.s_nfree
      · rw [if_pos last, if_pos last]
        exact entry
      · rw [if_neg last, if_neg last]
        rfl
    · exact raised.trans counted
    · exact swap16_back few

/-- The list before any block is freed. -/
theorem built_nil {sb : Superblock} {link : Nat → Batch Nat} (nfree : sb.s_nfree = swap16 sw 1)
    (last : sb.s_free 0 = 0) (tfree : sb.s_tfree = 0) : Built sw sb link [] := by
  have one : swap16 sw sb.s_nfree = 1 := by
    rw [nfree]
    exact swap16_back (by decide)
  refine ⟨.done ?_ ?_ ?_, one, ?_⟩
  · show 0 < swap16 sw sb.s_nfree
    omega
  · show swap16 sw sb.s_nfree ≤ FILESYS_TABSIZE
    rw [one]
    decide
  · show swap16 sw (sb.s_free (swap16 sw sb.s_nfree - 1)) = 0
    rw [one, last, swap16_zero]
  · rw [tfree, swap16_zero]
    rfl

end Building

/-! ## Mounting an image -/

section Mounting
open Fuzix Words Wp
variable [Build] {s : Kernel} {devno m : Nat} {sw : Bool} {disk : Disk} {isize fsize : Nat} {free : List Nat}

/-- The kernel has mounted the image: the superblock is as `fmount` loads it. -/
structure Mounts (s : Kernel) (devno m : Nat) (sw : Bool) (disk : Disk) : Prop where
  sure : NoFaults s
  found : fsTabGet s devno = some m
  words : ∀ j, ∀ k < 256, word (s.disk devno j) k = swap16 sw (disk j k)
  loaded : ∃ fmod mntpt, (s.fstab m).fs = { Filesys.load (s.disk devno 1) with fmod := fmod, mntpt := mntpt }

theorem Mounts.batch_same (mounts : Mounts s devno m sw disk) (j n : Nat) (less : n < 200) :
    (⟨word (s.disk devno j) n, fun i => word (s.disk devno j) (i + n + 1)⟩ : Batch Nat).Same FILESYS_TABSIZE
      (batch sw fun k => disk j (k + n)) := by
  have size : FILESYS_TABSIZE = 50 := rfl
  constructor
  · show word (s.disk devno j) n = swap16 sw (disk j (0 + n))
    rw [Nat.zero_add]
    exact mounts.words j n (by omega)
  · intro i inside
    show word (s.disk devno j) (i + n + 1) = swap16 sw (disk j (i + 1 + n))
    rw [Nat.add_right_comm i 1 n]
    exact mounts.words j (i + n + 1) (by omega)

/-- The kernel finds the free list of the image. -/
theorem Mounts.freeList (mounts : Mounts s devno m sw disk) (chained : Chained sw disk isize fsize free)
    (inside : ∀ b ∈ free, isize ≤ b ∧ b < fsize) (distinct : free.Nodup) : FreeList s devno m free := by
  obtain ⟨fmod, mntpt, loaded⟩ := mounts.loaded
  have top := mounts.batch_same 1 3 (by decide)
  refine ⟨mounts.sure, mounts.found, ?_, ?_, ?_, distinct, ?_⟩
  all_goals rw [loaded]
  · exact (mounts.words 1 0 (by decide)).trans chained.mounted
  · refine chained.chain.congr top.1 ?_ ?_
    · intro i less
      have small := Nat.lt_of_lt_of_le less chained.chain.count_le
      show word (s.disk devno 1) (4 + i) = _
      rw [Nat.add_comm 4 i]
      exact top.2 i small
    · intro b _
      exact mounts.batch_same b 0 (by decide)
  · intro b member
    have low : word (s.disk devno 1) 1 = isize := (mounts.words 1 1 (by decide)).trans chained.isize
    have high : word (s.disk devno 1) 2 = fsize := (mounts.words 1 2 (by decide)).trans chained.fsize
    show word (s.disk devno 1) 1 ≤ b ∧ b < word (s.disk devno 1) 2
    rw [low, high]
    exact inside b member
  · exact (mounts.words 1 108 (by decide)).trans chained.tfree

end Mounting

end Image
