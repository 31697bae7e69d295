import Fuzix.FreelistRuns
import Fuzix.BmapCalls

/-!
# Truncation

`freeblk` frees a tree of blocks from the leaves up, while the free list is rewritten in blocks
that it has freed. `f_trunc` frees the trees in the slots of an inode.
-/

namespace Fuzix

open Wp Table Words

/-- The blocks of a tree with index blocks of this many levels, each before its entries. -/
def treeBlocks (disk : Nat → Block) : Nat → Nat → List Nat
  | 0, blk => if blk = 0 then [] else [blk]
  | level + 1, blk =>
    if blk = 0 then [] else blk :: (List.range 256).flatMap fun j => treeBlocks disk level (word (disk blk) j)

/-- The data and index blocks of an inode: slot 18 has one level of index blocks, slot 19 two. -/
def fileBlocks (disk : Nat → Block) (d : Dinode) : List Nat :=
  (List.range 20).flatMap fun slot => treeBlocks disk (slot - 17) (d.addr slot)

theorem treeBlocks_null (disk : Nat → Block) (level : Nat) : treeBlocks disk level 0 = [] := by
  cases level <;> exact if_pos rfl

theorem treeBlocks_congr {disk disk' : Nat → Block} (level blk : Nat)
    (same : ∀ b ∈ treeBlocks disk level blk, disk' b = disk b) :
    treeBlocks disk' level blk = treeBlocks disk level blk := by
  induction level generalizing blk with
  | zero => rfl
  | succ level ih =>
    unfold treeBlocks at same ⊢
    by_cases null : blk = 0
    · rw [if_pos null, if_pos null]
    · rw [if_neg null] at same
      rw [if_neg null, if_neg null, same blk List.mem_cons_self]
      refine congrArg (blk :: ·) (List.flatMap_congr ?_)
      intro j member
      refine ih _ fun b inside => same b (List.mem_cons_of_mem blk ?_)
      exact List.mem_flatMap.mpr ⟨j, member, inside⟩

variable [Build]

/-- What freeing the blocks `xs` leaves. -/
structure Freed (s t : Kernel) (devno m : Nat) (xs : List Nat) : Prop where
  itab : t.itab = s.itab
  ptab : t.ptab = s.ptab
  io : t.io = s.io
  others : ∀ b, b ∉ xs → t.disk devno b = s.disk devno b
  devices : ∀ d, d ≠ devno → t.disk d = s.disk d
  kept : Kept s t m

section Freeing
variable {s t u : Kernel} {devno m blk : Nat} {bs xs ys : List Nat} {stop : Stop → Prop}

omit [Build] in
theorem Freed.nil : Freed s s devno m [] :=
  ⟨rfl, rfl, rfl, fun _ _ => rfl, fun _ _ => rfl, .refl⟩

omit [Build] in
theorem Freed.trans (first : Freed s t devno m xs) (second : Freed t u devno m ys) (zs : List Nat)
    (sub : ∀ b, b ∉ zs → b ∉ xs ∧ b ∉ ys) : Freed s u devno m zs where
  itab := second.itab.trans first.itab
  ptab := second.ptab.trans first.ptab
  io := second.io.trans first.io
  others b off := (second.others b (sub b off).2).trans (first.others b (sub b off).1)
  devices d other := (second.devices d other).trans (first.devices d other)
  kept := first.kept.trans second.kept

theorem Banked.blkFree (banked : Banked s devno m bs) (sure : NoFaults s) (real : blk ≠ 0)
    (inside : (s.fstab m).fs.isize ≤ blk ∧ blk < (s.fstab m).fs.fsize) (new : blk ∉ bs) :
    wp stop (blkFree devno blk) (fun _ t => Banked t devno m (blk :: bs) ∧ Freed s t devno m [blk]) s := by
  refine wp_mono (banked.pool.blkFree banked.found real inside (sure.evicts _)) ?_
  rintro _ t gave
  obtain ⟨banked', kept⟩ := banked.gave inside new gave
  obtain ⟨fs, _, disk, here, elsewhere, after⟩ := gave
  refine ⟨banked', ?_, ?_, ?_, ?_, ?_, kept⟩
  all_goals try rw [after]; rfl
  · intro b off
    rw [after]
    show disk devno b = s.disk devno b
    rw [here]
    unfold Filesys.spilled
    split
    · exact put_ne _ _ fun same => off (same ▸ List.mem_singleton.mpr rfl)
    · rfl
  · intro d other
    rw [after]
    exact elsewhere d other

/-- A loop that frees one tree after the other. -/
theorem Banked.forDown {level : Nat} {roots : Nat → Nat}
    (one : ∀ {s bs} (j : Nat), Banked s devno m bs → NoFaults s →
      (treeBlocks (s.disk devno) level (roots j) ++ bs).Nodup →
      (∀ b ∈ treeBlocks (s.disk devno) level (roots j), (s.fstab m).fs.isize ≤ b ∧ b < (s.fstab m).fs.fsize) →
      wp stop (freeblk devno level (roots j)) (fun _ t =>
        Banked t devno m (treeBlocks (s.disk devno) level (roots j) ++ bs) ∧
          Freed s t devno m (treeBlocks (s.disk devno) level (roots j))) s)
    (n : Nat) (banked : Banked s devno m bs) (sure : NoFaults s)
    (distinct : (((List.range n).flatMap fun j => treeBlocks (s.disk devno) level (roots j)) ++ bs).Nodup)
    (inside : ∀ b ∈ (List.range n).flatMap fun j => treeBlocks (s.disk devno) level (roots j),
      (s.fstab m).fs.isize ≤ b ∧ b < (s.fstab m).fs.fsize) :
    wp stop (forDown (fun j => freeblk devno level (roots j)) n) (fun _ t =>
      Banked t devno m (((List.range n).flatMap fun j => treeBlocks (s.disk devno) level (roots j)) ++ bs) ∧
        Freed s t devno m ((List.range n).flatMap fun j => treeBlocks (s.disk devno) level (roots j))) s := by
  induction n generalizing s bs with
  | zero => exact ⟨banked, .nil⟩
  | succ n ih =>
    have split : (List.range (n + 1)).flatMap (fun j => treeBlocks (s.disk devno) level (roots j)) =
        ((List.range n).flatMap fun j => treeBlocks (s.disk devno) level (roots j)) ++
          treeBlocks (s.disk devno) level (roots n) := by
      rw [List.range_succ, List.flatMap_append]
      simp
    rw [split] at distinct inside ⊢
    rw [List.append_assoc] at distinct ⊢
    obtain ⟨_, later, apart⟩ := List.nodup_append.mp distinct
    unfold Fuzix.forDown
    rw [wp_bind]
    refine wp_mono (one n banked sure later fun b member => inside b (List.mem_append_right _ member)) ?_
    rintro _ t ⟨banked', freed⟩
    have same : ((List.range n).flatMap fun j => treeBlocks (t.disk devno) level (roots j)) =
        (List.range n).flatMap fun j => treeBlocks (s.disk devno) level (roots j) := by
      refine List.flatMap_congr fun j member => treeBlocks_congr level (roots j) ?_
      intro b below
      refine freed.others b fun no => ?_
      exact apart b (List.mem_flatMap.mpr ⟨j, member, below⟩) b (List.mem_append_left _ no) rfl
    obtain ⟨isize, fsize⟩ := freed.kept.sizes
    have sure' : NoFaults t := by
      unfold NoFaults
      rw [freed.io]
      exact sure
    rw [← same] at distinct
    have rest := ih banked' sure' distinct (by
      rw [same, isize, fsize]
      exact fun b member => inside b (List.mem_append_left _ member))
    rw [same] at rest
    refine wp_mono rest ?_
    rintro _ u ⟨banked'', freed'⟩
    refine ⟨banked'', freed.trans freed' _ ?_⟩
    intro b off
    exact ⟨fun no => off (List.mem_append_right _ no), fun no => off (List.mem_append_left _ no)⟩

omit [Build] in
theorem Freed.sure (freed : Freed s t devno m xs) (sure : NoFaults s) : NoFaults t := by
  unfold NoFaults
  rw [freed.io]
  exact sure

/-- `freeblk` frees each block of the tree once. -/
theorem Banked.freeblk (level : Nat) (blk : Nat) (banked : Banked s devno m bs) (sure : NoFaults s)
    (distinct : (treeBlocks (s.disk devno) level blk ++ bs).Nodup)
    (inside : ∀ b ∈ treeBlocks (s.disk devno) level blk, (s.fstab m).fs.isize ≤ b ∧ b < (s.fstab m).fs.fsize) :
    wp stop (freeblk devno level blk) (fun _ t =>
      Banked t devno m (treeBlocks (s.disk devno) level blk ++ bs) ∧
        Freed s t devno m (treeBlocks (s.disk devno) level blk)) s := by
  induction level generalizing s blk bs with
  | zero =>
    unfold treeBlocks Fuzix.freeblk at *
    by_cases null : blk = 0
    · rw [if_pos null, if_pos null]
      exact ⟨banked, .nil⟩
    · rw [if_neg null] at distinct inside ⊢
      rw [if_neg null]
      exact banked.blkFree sure null (inside blk List.mem_cons_self) (List.nodup_cons.mp distinct).1
  | succ level ih =>
    unfold Fuzix.freeblk
    by_cases null : blk = 0
    · rw [if_pos null, null, treeBlocks_null]
      exact ⟨banked, .nil⟩
    · have tree : treeBlocks (s.disk devno) (level + 1) blk = blk :: (List.range 256).flatMap
          fun j => treeBlocks (s.disk devno) level (word (s.disk devno blk) j) := if_neg null
      rw [tree] at distinct inside ⊢
      rw [List.cons_append] at distinct ⊢
      obtain ⟨new, below⟩ := List.nodup_cons.mp distinct
      rw [if_neg null, wp_bind, wp_bread (sure _).2]
      refine ⟨fun no => absurd no (by rw [(sure _).1]; decide), fun _ => ?_⟩
      dsimp only
      rw [wp_bind]
      have spent : Banked (s.spent 1) devno m bs := ⟨banked.found, banked.pool, banked.words, banked.low, banked.high⟩
      refine wp_mono (Banked.forDown (s := s.spent 1) (fun {_ _} j => ih _) 256 spent sure below
        fun b member => inside b (List.mem_cons_of_mem blk member)) ?_
      rintro _ t ⟨banked', freed⟩
      obtain ⟨isize, fsize⟩ := freed.kept.sizes
      have range : (t.fstab m).fs.isize ≤ blk ∧ blk < (t.fstab m).fs.fsize := by
        rw [isize, fsize]
        exact inside blk List.mem_cons_self
      refine wp_mono (banked'.blkFree (freed.sure sure) null range new) ?_
      rintro _ u ⟨banked'', freed'⟩
      refine ⟨banked'', ?_⟩
      have all := freed.trans freed' (blk :: _) fun b off =>
        ⟨fun no => off (List.mem_cons_of_mem blk no), fun no => off (List.mem_singleton.mp no ▸ List.mem_cons_self)⟩
      exact ⟨all.itab, all.ptab, all.io, all.others, all.devices, all.kept.others, all.kept.mount, all.kept.fs⟩

end Freeing

/-! ## The inode -/

/-- An inode of a well formed file system with the free blocks `bs`: its blocks are in the data
area, each belongs to it once, and none is free. -/
structure Owned (s : Kernel) (i m : Nat) (bs : List Nat) : Prop where
  banked : Banked s (s.itab i).dev m bs
  distinct : (fileBlocks (s.disk (s.itab i).dev) (s.itab i).node ++ bs).Nodup
  inside : ∀ b ∈ fileBlocks (s.disk (s.itab i).dev) (s.itab i).node,
    (s.fstab m).fs.isize ≤ b ∧ b < (s.fstab m).fs.fsize

/-- All blocks that the inode had are free, each once, and nothing else has become free. -/
structure Emptied (s t : Kernel) (i m : Nat) (bs : List Nat) : Prop where
  banked : Banked t (s.itab i).dev m (fileBlocks (s.disk (s.itab i).dev) (s.itab i).node ++ bs)
  tfree : (t.fstab m).fs.tfree =
    (s.fstab m).fs.tfree + (fileBlocks (s.disk (s.itab i).dev) (s.itab i).node).length
  addr : ∀ j, (t.itab i).node.addr j = 0
  size : (t.itab i).node.size = 0

section Truncating
variable {s t : Kernel} {i m devno : Nat} {bs : List Nat} {stop : Stop → Prop}

omit [Build] in
theorem fileBlocks_eq (disk : Nat → Block) (d : Dinode) : fileBlocks disk d =
    ((List.range 18).flatMap fun slot => treeBlocks disk 0 (d.addr slot)) ++
      (treeBlocks disk 1 (d.addr 18) ++ treeBlocks disk 2 (d.addr 19)) := by
  have direct : ((List.range 18).flatMap fun slot => treeBlocks disk (slot - 17) (d.addr slot)) =
      (List.range 18).flatMap fun slot => treeBlocks disk 0 (d.addr slot) := by
    refine List.flatMap_congr ?_
    intro slot member
    have less := List.mem_range.mp member
    rw [Nat.sub_eq_zero_of_le (by omega)]
  unfold fileBlocks
  rw [List.range_succ, List.flatMap_append, List.range_succ, List.flatMap_append, direct, List.append_assoc,
    List.flatMap_singleton, List.flatMap_singleton]

theorem Banked.tfree_eq (banked : Banked s devno m bs) : (s.fstab m).fs.tfree = bs.length := banked.pool.tfree

/-- The tree `xs` is freed after `ys`. -/
theorem Banked.freeblk_next {level blk : Nat} {xs ys : List Nat} (sure : NoFaults s)
    (banked : Banked t devno m (ys ++ bs)) (freed : Freed s t devno m ys)
    (tree : treeBlocks (s.disk devno) level blk = xs) (distinct : (xs ++ (ys ++ bs)).Nodup)
    (inside : ∀ b ∈ xs, (s.fstab m).fs.isize ≤ b ∧ b < (s.fstab m).fs.fsize) :
    wp stop (Fuzix.freeblk devno level blk) (fun _ u =>
      Banked u devno m (xs ++ (ys ++ bs)) ∧ Freed s u devno m (xs ++ ys)) t := by
  obtain ⟨_, _, apart⟩ := List.nodup_append.mp distinct
  obtain ⟨isize, fsize⟩ := freed.kept.sizes
  have same : treeBlocks (t.disk devno) level blk = xs := by
    rw [← tree]
    refine treeBlocks_congr level blk fun b member => freed.others b fun no => ?_
    exact apart b (tree ▸ member) b (List.mem_append_left bs no) rfl
  refine wp_mono (banked.freeblk level blk (freed.sure sure) (same.symm ▸ distinct) ?_) ?_
  · rw [same, isize, fsize]
    exact inside
  rw [same]
  rintro _ u ⟨banked', freed'⟩
  refine ⟨banked', freed.trans freed' _ ?_⟩
  intro b off
  exact ⟨fun no => off (List.mem_append_right xs no), fun no => off (List.mem_append_left ys no)⟩

/-- The inode after `f_trunc`. -/
def Cinode.emptied (c : Cinode) : Cinode :=
  { c with node := { c.node with addr := fun _ => 0, size := 0 }, dirty := true }

/-- What `f_trunc` leaves besides the free list. -/
structure Truncated (s t : Kernel) (i m : Nat) : Prop where
  io : t.io = s.io
  kept : Kept s t m
  itab : t.itab = put s.itab i (s.itab i).emptied
  others : ∀ b, b ∉ fileBlocks (s.disk (s.itab i).dev) (s.itab i).node → t.disk (s.itab i).dev b = s.disk (s.itab i).dev b
  devices : ∀ d, d ≠ (s.itab i).dev → t.disk d = s.disk d

theorem Owned.fTrunc (owned : Owned s i m bs) (sure : NoFaults s) (writable : (s.itab i).rdonly = false) :
    wp stop (fTrunc i) (fun refused t => refused = false ∧
      Banked t (s.itab i).dev m (fileBlocks (s.disk (s.itab i).dev) (s.itab i).node ++ bs) ∧ Truncated s t i m) s := by
  have distinct := owned.distinct
  have inside := owned.inside
  rw [fileBlocks_eq, List.append_assoc, List.append_assoc] at distinct
  rw [fileBlocks_eq] at inside
  obtain ⟨_, lower, apart⟩ := List.nodup_append.mp distinct
  obtain ⟨_, lowest, _⟩ := List.nodup_append.mp lower
  unfold Fuzix.fTrunc
  rw [wp_bind, wp_get, wp_ite]
  refine ⟨fun no => absurd no (by rw [writable]; decide), fun _ => ?_⟩
  rw [wp_bind]
  refine wp_mono (owned.banked.freeblk 2 _ sure lowest fun b member =>
    inside b (List.mem_append_right _ (List.mem_append_right _ member))) ?_
  rintro _ t ⟨banked, freed⟩
  rw [wp_bind]
  refine wp_mono (banked.freeblk_next sure freed rfl lower fun b member =>
    inside b (List.mem_append_right _ (List.mem_append_left _ member))) ?_
  rintro _ u ⟨banked', freed'⟩
  obtain ⟨isize, fsize⟩ := freed'.kept.sizes
  rw [wp_bind]
  refine wp_mono (Banked.forDown (fun {_ _} j banked => banked.freeblk 0 _) 18 banked' (freed'.sure sure) distinct
    fun b member => ?_) ?_
  · rw [isize, fsize]
    exact inside b (List.mem_append_left _ member)
  · rintro _ v ⟨banked'', freed''⟩
    have all := freed'.trans freed'' (fileBlocks (s.disk (s.itab i).dev) (s.itab i).node) fun b off => by
      rw [fileBlocks_eq] at off
      exact ⟨fun no => off (List.mem_append_right _ no), fun no => off (List.mem_append_left _ no)⟩
    rw [wp_bind, wp_modifyInode, wp_pure]
    refine ⟨rfl, ?_, all.io, ⟨all.kept.others, all.kept.mount, all.kept.fs⟩, ?_, all.others, all.devices⟩
    · rw [fileBlocks_eq, List.append_assoc, List.append_assoc]
      exact ⟨banked''.found, banked''.pool, banked''.words, banked''.low, banked''.high⟩
    · dsimp only
      rw [all.itab]
      rfl

/-- Changes to the rest of the superblock, to inodes, and below the data area. -/
theorem Banked.congr (banked : Banked s devno m bs) (found : fsTabGet t devno = some m)
    (mounted : (t.fstab m).fs.mounted = (s.fstab m).fs.mounted) (isize : (t.fstab m).fs.isize = (s.fstab m).fs.isize)
    (fsize : (t.fstab m).fs.fsize = (s.fstab m).fs.fsize) (batch : (t.fstab m).fs.batch = (s.fstab m).fs.batch)
    (tfree : (t.fstab m).fs.tfree = (s.fstab m).fs.tfree)
    (disk : ∀ b, (s.fstab m).fs.isize ≤ b → t.disk devno b = s.disk devno b) : Banked t devno m bs where
  found := found
  pool := banked.pool.congr mounted isize fsize batch tfree fun b member => disk b (banked.pool.inside b member).1
  words := by
    have free : (t.fstab m).fs.free = (s.fstab m).fs.free := congrArg Chain.Batch.entry batch
    rw [free]
    exact banked.words
  low := by
    rw [isize]
    exact banked.low
  high := by
    rw [fsize]
    exact banked.high

/-- A number that `i_free` accepts. -/
theorem Banked.iFree (banked : Banked s devno m bs) {ino : Nat} (low : 2 ≤ ino)
    (high : ino < inodeLimit (s.fstab m).fs) :
    wp stop (iFree devno ino) (fun _ t => Banked t devno m bs ∧ t.itab = s.itab ∧ t.io = s.io ∧ t.disk = s.disk ∧
      (t.fstab m).fs.isize = (s.fstab m).fs.isize ∧
      (t.fstab m).fs.tinode = ((s.fstab m).fs.tinode + 1) % 65536) s := by
  have mounted : (s.fstab m).fs.mounted ≠ 0 := by
    rw [banked.pool.mounted]
    decide
  unfold Fuzix.iFree
  rw [wp_bind]
  refine wp_getdev banked.found mounted ?_
  intro fs ⟨_, _, _, same⟩
  have good : fs.mounted = SMOUNTED := by
    rw [same]
    exact banked.pool.mounted
  have limit : inodeLimit fs = inodeLimit (s.fstab m).fs := by rw [same]; rfl
  -- whatever becomes of the list of free inodes
  have leaves : ∀ f : Filesys → Filesys, (∀ fs, (f fs).mounted = fs.mounted ∧ (f fs).isize = fs.isize ∧
      (f fs).fsize = fs.fsize ∧ (f fs).batch = fs.batch ∧ (f fs).tfree = fs.tfree ∧
      (f fs).tinode = (fs.tinode + 1) % 65536) →
      Banked ((s.setFs m fun _ => fs).setFs m f) devno m bs ∧
        (((s.setFs m fun _ => fs).setFs m f).fstab m).fs.isize = (s.fstab m).fs.isize ∧
        (((s.setFs m fun _ => fs).setFs m f).fstab m).fs.tinode = ((s.fstab m).fs.tinode + 1) % 65536 := by
    intro f fields
    obtain ⟨mounted, isize, fsize, batch, tfree, tinode⟩ := fields fs
    rw [setFs_setFs]
    refine ⟨banked.congr (fsTabGet_setFs.trans banked.found) ?_ ?_ ?_ ?_ ?_ fun _ _ => rfl, ?_, ?_⟩
    all_goals rw [setFs_fs]
    · rw [mounted, same]
    · rw [isize, same]
    · rw [fsize, same]
    · rw [batch, same]
      rfl
    · rw [tfree, same]
    · rw [isize, same]
    · rw [tinode, same]
  rw [wp_bind, wp_get, setFs_fs, wp_ite]
  refine ⟨fun no => absurd good (of_decide_eq_true no), fun _ => ?_⟩
  rw [wp_ite]
  refine ⟨fun no => (by rw [limit] at no; omega), fun _ => ?_⟩
  rw [wp_ite]
  constructor
  · intro _
    obtain ⟨banked', isize, tinode⟩ := leaves (fun fs => { fs with
      tinode := (fs.tinode + 1) % 65536
      inode := put fs.inode fs.ninode ino
      ninode := fs.ninode + 1 }) fun _ => ⟨rfl, rfl, rfl, rfl, rfl, rfl⟩
    exact ⟨banked', rfl, rfl, rfl, isize, tinode⟩
  · intro _
    obtain ⟨banked', isize, tinode⟩ := leaves (fun fs => { fs with tinode := (fs.tinode + 1) % 65536 })
      fun _ => ⟨rfl, rfl, rfl, rfl, rfl, rfl⟩
    exact ⟨banked', rfl, rfl, rfl, isize, tinode⟩

omit [Build] in
theorem store_word (d : Dinode) (b : Block) (ino : Nat) {j : Nat} (less : j < 32) :
    word (d.store b ino) (32 * (ino % 8) + j) = d.image j % 65536 := by
  unfold Dinode.store
  rw [word_setWords, if_pos (by omega), Nat.add_sub_cancel_left]

omit [Build] in
/-- An inode on disk after one without blocks was stored there. -/
theorem load_store_emptied (c : Cinode) (b : Block) (ino : Nat) :
    (∀ j, (Dinode.load (c.emptied.node.store b ino) ino).addr j = 0) ∧
      (Dinode.load (c.emptied.node.store b ino) ino).size = 0 := by
  constructor
  · intro j
    show (if j < 20 then word _ (32 * (ino % 8) + 12 + j) else 0) = 0
    by_cases less : j < 20
    · have slot : c.emptied.node.image (12 + j) = 0 := by
        rw [Nat.add_comm]
        rfl
      rw [if_pos less, Nat.add_assoc, store_word _ _ _ (by omega), slot]
    · exact if_neg less
  · show word _ (32 * (ino % 8) + 4) + 65536 * word _ (32 * (ino % 8) + 5) = 0
    rw [store_word _ _ _ (by decide), store_word _ _ _ (by decide)]
    show 0 % 65536 + 65536 * (0 / 65536 % 65536) = 0
    decide

/-- The state after `wr_inode` of an inode. -/
def Kernel.inodeWritten (s : Kernel) (i : Nat) : Kernel :=
  { (s.spent 2).wrote (s.itab i).dev ((s.itab i).num / 8 + 2)
      ((s.itab i).node.store (s.disk (s.itab i).dev ((s.itab i).num / 8 + 2)) (s.itab i).num) with
    itab := put s.itab i { s.itab i with dirty := false } }

omit [Build] in
theorem wp_wrInode [Build] (sure : NoFaults s) (good : (s.itab i).magic = CMAGIC) {Q : Unit → Kernel → Prop} :
    wp stop (wrInode i) Q s ↔ Q () (s.inodeWritten i) := by
  have written : (s.io (s.xfers + 1)).fails = false := (sure _).1
  unfold wrInode magic
  rw [wp_bind, wp_bind, wp_get, if_neg (fun no => no good), wp_pure, wp_bind, wp_get, wp_bind,
    wp_returned (bread_sure sure _ _)]
  unfold bfreeSync
  dsimp only
  rw [wp_bind, wp_bind, wp_bawrite, wp_bind, wp_get, wp_bind, wp_modify, wp_ite]
  constructor
  · intro both
    exact both.2 fun no => absurd (written.symm.trans no) (by decide)
  · intro post
    exact ⟨fun no => absurd (written.symm.trans no) (by decide), fun _ => post⟩

omit [Build] in
theorem inodeWritten_same : (s.inodeWritten i).disk (s.itab i).dev ((s.itab i).num / 8 + 2) =
    (s.itab i).node.store (s.disk (s.itab i).dev ((s.itab i).num / 8 + 2)) (s.itab i).num := put₂_same _ _ _ _

omit [Build] in
theorem inodeWritten_other {d b : Nat} (other : ¬ (d = (s.itab i).dev ∧ b = (s.itab i).num / 8 + 2)) :
    (s.inodeWritten i).disk d b = s.disk d b := put₂_ne _ _ other

theorem Banked.inodeWritten (banked : Banked s (s.itab i).dev m bs)
    (below : (s.itab i).num / 8 + 2 < (s.fstab m).fs.isize) : Banked (s.inodeWritten i) (s.itab i).dev m bs := by
  refine banked.congr banked.found rfl rfl rfl rfl rfl ?_
  intro b inside
  exact inodeWritten_other fun no => (by omega)

/-- An inode without blocks, in memory, and on disk once it was written back. -/
structure NoBlocks (s t : Kernel) (i m : Nat) (bs : List Nat) : Prop where
  banked : Banked t (s.itab i).dev m bs
  addr : ∀ j, (t.itab i).node.addr j = 0
  size : (t.itab i).node.size = 0
  onDisk : (s.itab i).refs = 0 →
    (∀ j, (Dinode.load (t.disk (s.itab i).dev ((s.itab i).num / 8 + 2)) (s.itab i).num).addr j = 0) ∧
      (Dinode.load (t.disk (s.itab i).dev ((s.itab i).num / 8 + 2)) (s.itab i).num).size = 0

theorem Banked.noBlocks (banked : Banked s (s.itab i).dev m bs)
    (below : (s.itab i).num / 8 + 2 < (s.fstab m).fs.isize) (c : Cinode) (node : (s.itab i).node = c.emptied.node) :
    NoBlocks s (s.inodeWritten i) i m bs := by
  have here : ((s.inodeWritten i).itab i).node = c.emptied.node := (congrArg Cinode.node (put_same _ _ _)).trans node
  refine ⟨banked.inodeWritten below, ?_, ?_, ?_⟩
  · rw [here]
    exact fun _ => rfl
  · rw [here]
    rfl
  · intro _
    rw [inodeWritten_same, node]
    exact load_store_emptied c _ _

/-- What the release of an inode without links leaves: its number is free, and what was written
back is marked so. -/
structure Dropped (s t : Kernel) (i m : Nat) (bs : List Nat) : Prop where
  banked : Banked t (s.itab i).dev m bs
  itab : t.itab = put s.itab i { s.itab i with node := { (s.itab i).node with mode := 0 }, dirty := false }
  disk : t.disk = put₂ s.disk (s.itab i).dev ((s.itab i).num / 8 + 2)
    ({ (s.itab i).node with mode := 0 }.store (s.disk (s.itab i).dev ((s.itab i).num / 8 + 2)) (s.itab i).num)
  tinode : (t.fstab m).fs.tinode = ((s.fstab m).fs.tinode + 1) % 65536

/-- The release of an inode without links. -/
theorem Banked.iDrop (banked : Banked s (s.itab i).dev m bs) (sure : NoFaults s) (good : (s.itab i).magic = CMAGIC)
    (below : (s.itab i).num / 8 + 2 < (s.fstab m).fs.isize)
    (freeable : 2 ≤ (s.itab i).num ∧ (s.itab i).num < inodeLimit (s.fstab m).fs) :
    wp stop (do
      iDrop i
      wrInode i) (fun _ t => Dropped s t i m bs) s := by
  let u : Kernel := { s with itab := put s.itab i { s.itab i with node := { (s.itab i).node with mode := 0 } } }
  have inode : u.itab i = { s.itab i with node := { (s.itab i).node with mode := 0 } } := put_same _ _ _
  have banked' : Banked u (s.itab i).dev m bs := ⟨banked.found, banked.pool, banked.words, banked.low, banked.high⟩
  unfold Fuzix.iDrop modifyNode
  rw [wp_bind, wp_bind, wp_modifyInode, wp_bind, wp_get]
  change wp stop (Fuzix.iFree (u.itab i).dev (u.itab i).num) _ u
  rw [inode]
  refine wp_mono (banked'.iFree freeable.1 freeable.2) ?_
  rintro _ t ⟨banked'', itab, io, disk, isize, tinode⟩
  have here : t.itab i = { s.itab i with node := { (s.itab i).node with mode := 0 } } := by
    rw [itab]
    exact inode
  have sure' : NoFaults t := sure.of_io io
  rw [wp_wrInode sure' (by rw [here]; exact good)]
  have banked₃ : Banked t (t.itab i).dev m bs := by
    rw [here]
    exact banked''
  have written := banked₃.inodeWritten (by rw [here, isize]; exact below)
  refine ⟨?_, ?_, ?_, tinode⟩
  · rw [here] at written
    exact written
  · show put t.itab i { t.itab i with dirty := false } = _
    rw [here, itab, put_put]
  · show put₂ t.disk (t.itab i).dev ((t.itab i).num / 8 + 2) ((t.itab i).node.store _ _) = _
    rw [here, disk]

/-- The release of an inode whose blocks were freed. -/
theorem Banked.iRelease (banked : Banked s (s.itab i).dev m bs) (sure : NoFaults s) (good : (s.itab i).magic = CMAGIC)
    (dirty : (s.itab i).dirty = true) (below : (s.itab i).num / 8 + 2 < (s.fstab m).fs.isize)
    (freeable : (s.itab i).node.nlink = 0 → 2 ≤ (s.itab i).num ∧ (s.itab i).num < inodeLimit (s.fstab m).fs)
    (c : Cinode) (node : (s.itab i).node = c.emptied.node) :
    wp stop (iRelease i) (fun _ t => NoBlocks s t i m bs ∧
      ((s.itab i).refs = 0 → (s.itab i).node.nlink = 0 → Dropped s t i m bs)) s := by
  unfold Fuzix.iRelease
  rw [wp_bind, wp_get, wp_ite]
  constructor
  · rintro ⟨-, -⟩
    by_cases unlinked : (s.itab i).node.nlink = 0
    · unfold onlyIf
      rw [if_pos unlinked]
      refine wp_mono (banked.iDrop sure good below (freeable unlinked)) ?_
      intro _ t dropped
      refine ⟨⟨dropped.banked, ?_, ?_, ?_⟩, fun _ _ => dropped⟩
      · rw [dropped.itab, put_same, node]
        exact fun _ => rfl
      · rw [dropped.itab, put_same, node]
        rfl
      · intro _
        rw [dropped.disk, put₂_same, node]
        exact load_store_emptied { c with node := { c.node with mode := 0 } } _ _
    · rw [wp_bind, wp_onlyIf]
      refine ⟨fun no => absurd no unlinked, fun _ => ?_⟩
      rw [wp_wrInode sure good]
      exact ⟨banked.noBlocks below c node, fun _ no => absurd no unlinked⟩
  · intro no
    refine ⟨⟨banked, ?_, ?_, ?_⟩, fun refs _ => absurd ⟨refs, dirty⟩ no⟩
    · rw [node]
      exact fun _ => rfl
    · rw [node]
      rfl
    · intro refs
      exact absurd ⟨refs, dirty⟩ no

/-- `f_trunc` of an inode that may be written, and the release after it. -/
theorem trunc_frees (owned : Owned s i m bs) (sure : NoFaults s) (writable : (s.itab i).rdonly = false)
    (good : (s.itab i).magic = CMAGIC) (below : (s.itab i).num / 8 + 2 < (s.fstab m).fs.isize)
    (freeable : (s.itab i).node.nlink = 0 → 2 ≤ (s.itab i).num ∧ (s.itab i).num < inodeLimit (s.fstab m).fs) :
    ∃ t u, fTrunc i s = .ok (false, t) ∧ iRelease i t = .ok ((), u) ∧ Emptied s t i m bs ∧ Emptied s u i m bs ∧
      ((s.itab i).refs = 0 →
        (∀ j, (Dinode.load (u.disk (s.itab i).dev ((s.itab i).num / 8 + 2)) (s.itab i).num).addr j = 0) ∧
          (Dinode.load (u.disk (s.itab i).dev ((s.itab i).num / 8 + 2)) (s.itab i).num).size = 0) := by
  obtain ⟨refused, t, ran, answer, banked, io, kept, itab, -⟩ := wp_returns (owned.fTrunc sure writable)
  have sure' : NoFaults t := sure.of_io io
  have inode : t.itab i = (s.itab i).emptied := by
    rw [itab]
    exact put_same _ _ _
  have grows : ∀ v : Kernel, Banked v (s.itab i).dev m (fileBlocks (s.disk (s.itab i).dev) (s.itab i).node ++ bs) →
      (v.fstab m).fs.tfree = (s.fstab m).fs.tfree + (fileBlocks (s.disk (s.itab i).dev) (s.itab i).node).length := by
    intro v banked
    rw [banked.tfree_eq, owned.banked.tfree_eq, List.length_append, Nat.add_comm]
  obtain ⟨isize, _⟩ := kept.sizes
  have release : wp (fun _ => False) (Fuzix.iRelease i) (fun _ u => NoBlocks t u i m
      (fileBlocks (s.disk (s.itab i).dev) (s.itab i).node ++ bs)) t := by
    refine wp_mono (Banked.iRelease ?_ sure' ?_ ?_ ?_ ?_ (s.itab i) ?_) fun _ _ post => post.1
    all_goals rw [inode]
    · exact banked
    · exact good
    · rfl
    · rw [isize]
      exact below
    · unfold inodeLimit at freeable ⊢
      rw [isize]
      exact freeable
  obtain ⟨_, u, released, banked', addr, size, onDisk⟩ := wp_returns release
  rw [inode] at banked' onDisk
  refine ⟨t, u, by rw [ran, answer], released, ⟨banked, grows t banked, ?_, ?_⟩, ⟨banked', grows u banked', addr, size⟩,
    onDisk⟩
  · rw [inode]
    exact fun _ => rfl
  · rw [inode]
    rfl

end Truncating

/-! ## A file with an index block -/

/-- The file of `indexed`, on a file system that is mounted read-only or not. -/
def shut (fails rdonly : Bool) : Kernel :=
  { indexed fails with itab := fun i => { (indexed fails).itab i with rdonly := rdonly } }

omit [Build] in
set_option maxRecDepth 10000 in
theorem shut_owned (fails rdonly : Bool) : @Owned tiny (shut fails rdonly) 0 0 [] := by
  let _ := tiny
  have laid := indexed_laid fails
  have blocks : fileBlocks ((shut fails rdonly).disk 0) ((shut fails rdonly).itab 0).node = [10] := rfl
  have pool : Pool ((shut fails rdonly).disk 0) ((shut fails rdonly).fstab 0).fs [] := laid.pool rfl
  refine ⟨⟨rfl, pool, fun i _ => ?_, laid.low, laid.high⟩, ?_, ?_⟩
  · exact word_lt zeroBlock (4 + i)
  · exact blocks ▸ List.nodup_singleton 10
  · intro b member
    have ten : b = 10 := List.mem_singleton.mp (blocks ▸ member)
    rw [ten]
    exact ⟨Nat.le_add_left 4 6, Nat.le_add_left 11 9⟩

omit [Build] in
set_option maxRecDepth 10000 in
theorem trunc_frees_index : ∃ t u, @fTrunc tiny 0 (shut false false) = .ok (false, t) ∧
    @iRelease tiny 0 t = .ok ((), u) ∧ (u.fstab 0).fs.tfree = 1 := by
  let _ := tiny
  obtain ⟨t, u, ran, released, _, emptied, _⟩ := trunc_frees (shut_owned false false) (fun _ => ⟨rfl, rfl⟩) rfl rfl
    (by show 2 < 4; decide) (fun no => by cases no)
  exact ⟨t, u, ran, released, emptied.tfree⟩

omit [Build] in
set_option maxRecDepth 10000 in
/-- A read-only inode keeps its block; and a block whose index block cannot be read is lost. -/
theorem trunc_keeps : ∃ (_ : Build) (s t s' t' : Kernel),
    (Owned s 0 0 [] ∧ fTrunc 0 s = .ok (true, t) ∧ (t.itab 0).node.addr 18 = 10 ∧ (t.fstab 0).fs.tfree = 0) ∧
    (Owned s' 0 0 [] ∧ (s'.itab 0).rdonly = false ∧ fTrunc 0 s' = .ok (false, t') ∧
      fileBlocks (s'.disk 0) (s'.itab 0).node = [10] ∧ (t'.itab 0).node.addr 18 = 0 ∧ (t'.fstab 0).fs.tfree = 0) :=
  ⟨tiny, shut false true, _, shut true false, _, ⟨shut_owned false true, rfl, rfl, rfl⟩,
    shut_owned true false, rfl, rfl, rfl, rfl, rfl⟩

end Fuzix
