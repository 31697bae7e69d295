import Fuzix.Image
import Fuzix.RefRuns

/-!
# The free list as a bag of blocks

Calls of `blk_alloc` and `blk_free` on a mounted file system, in any order. A batch that is
loaded from a chain block may carry the word after its entries into `s_ninode`.
-/

namespace Fuzix

open Wp Table Words Chain Run

inductive BlkOp where
  | alloc
  | free (blk : Nat)

/-- A bag of free blocks. The answer of a call that frees is 0. -/
inductive BagStep : Multiset Nat → BlkOp × Nat → Multiset Nat → Prop where
  | taken {bag : Multiset Nat} {a : Nat} (real : a ≠ 0) : BagStep (a ::ₘ bag) (.alloc, a) bag
  | exhausted : BagStep 0 (.alloc, 0) 0
  | given {bag : Multiset Nat} {blk : Nat} (real : blk ≠ 0) : BagStep bag (.free blk, 0) (blk ::ₘ bag)
  | nothing {bag : Multiset Nat} : BagStep bag (.free 0, 0) bag

/-- Superblocks that differ in `s_nfree`, `s_free`, `s_tfree` and the marks of a modification. -/
def ListOnly (fs fs' : Filesys) : Prop :=
  ∃ nfree free tfree fmod timeh time, fs' = { fs with
    nfree := nfree, free := free, tfree := tfree, fmod := fmod, timeh := timeh, time := time }

variable [Build]

def BlkOp.run (devno : Nat) : BlkOp → K Nat
  | .alloc => blkAlloc devno
  | .free blk => do
    blkFree devno blk
    return 0

/-- A well formed file system on the device, mounted as entry `m`, with these free blocks. -/
structure Banked (s : Kernel) (devno m : Nat) (bs : List Nat) : Prop where
  found : fsTabGet s devno = some m
  pool : Pool (s.disk devno) (s.fstab m).fs bs
  words : ∀ i < FILESYS_TABSIZE, (s.fstab m).fs.free i < 65536
  low : 0 < (s.fstab m).fs.isize
  high : (s.fstab m).fs.fsize < 65536

/-- The block lies in the data area and is not free, so it may be freed. -/
def InUse (s : Kernel) (devno m blk : Nat) : Prop :=
  ((s.fstab m).fs.isize ≤ blk ∧ blk < (s.fstab m).fs.fsize) ∧
    ∀ bs, Pool (s.disk devno) (s.fstab m).fs bs → blk ∉ bs

/-- The next batch can be read, and does not bring another count of inodes along. -/
def Refills (s : Kernel) (devno m : Nat) : Prop :=
  (s.fstab m).fs.nfree = 1 → (s.fstab m).fs.free 0 ≠ 0 →
    (s.io s.xfers).fails = false ∧
      (width = .int32 → word (s.disk devno ((s.fstab m).fs.free 0)) 51 = (s.fstab m).fs.ninode)

def BlkOp.fine (s : Kernel) (devno m : Nat) : BlkOp → Prop
  | .alloc => Evicts s (s.fstab m).fs.takes ∧ Refills s devno m
  | .free blk => blk ≠ 0 → Evicts s (s.fstab m).fs.gives ∧ InUse s devno m blk

def BlkStep (devno m : Nat) (s : Kernel) (e : BlkOp × Nat) (t : Kernel) : Prop :=
  e.1.fine s devno m ∧ e.1.run devno s = .ok (e.2, t)

section Steps
variable {s t : Kernel} {devno m a b : Nat} {bs : List Nat} {fs fs' fs'' : Filesys}

omit [Build] in
theorem ListOnly.refl : ListOnly fs fs := ⟨_, _, _, _, _, _, rfl⟩

omit [Build] in
theorem ListOnly.trans (first : ListOnly fs fs') (second : ListOnly fs' fs'') : ListOnly fs fs'' := by
  obtain ⟨_, _, _, _, _, _, same⟩ := first
  obtain ⟨_, _, _, _, _, _, same'⟩ := second
  rw [same', same]
  exact ⟨_, _, _, _, _, _, rfl⟩

omit [Build] in
theorem Stamped.listOnly (stamped : Stamped fs fs') : ListOnly fs fs' := by
  obtain ⟨_, _, _, same⟩ := stamped
  rw [same]
  exact ⟨_, _, _, _, _, _, rfl⟩

omit [Build] in
theorem given_listOnly : ListOnly fs (fs.given b) := ⟨_, _, _, _, _, _, rfl⟩

/-- With 16-bit `int` a refill leaves `s_ninode` alone, else it takes it from the chain block. -/
theorem taken_listOnly {disk : Nat → Block}
    (fits : fs.nfree = 1 → width = .int32 → word (disk (fs.free 0)) 51 = fs.ninode) :
    ListOnly fs (fs.taken disk) := by
  unfold Filesys.taken
  by_cases one : fs.nfree = 1
  · rw [if_pos one]
    unfold Filesys.loadChain
    cases size : (width : IntWidth) with
    | int16 => exact ⟨_, _, _, _, _, _, rfl⟩
    | int32 =>
      dsimp only
      rw [fits one size]
      exact ⟨_, _, _, _, _, _, rfl⟩
  · rw [if_neg one]
    exact ⟨_, _, _, _, _, _, rfl⟩

theorem taken_words {disk : Nat → Block} (words : ∀ i < FILESYS_TABSIZE, fs.free i < 65536) :
    ∀ i < FILESYS_TABSIZE, (fs.taken disk).free i < 65536 := by
  intro i less
  unfold Filesys.taken
  by_cases one : fs.nfree = 1
  · rw [if_pos one]
    show (if i < FILESYS_TABSIZE then _ else _) < 65536
    rw [if_pos less]
    exact word_lt _ _
  · rw [if_neg one]
    exact words i less

/-- What one call may do to the file systems: the list of entry `m` changes. -/
structure Kept (s t : Kernel) (m : Nat) : Prop where
  others : ∀ k, k ≠ m → t.fstab k = s.fstab k
  mount : t.fstab m = { s.fstab m with fs := (t.fstab m).fs }
  fs : ListOnly (s.fstab m).fs (t.fstab m).fs

omit [Build] in
theorem Kept.refl : Kept s s m := ⟨fun _ _ => rfl, rfl, .refl⟩

omit [Build] in
theorem Kept.trans {u : Kernel} (first : Kept s t m) (second : Kept t u m) : Kept s u m := by
  refine ⟨fun k other => (second.others k other).trans (first.others k other), ?_, first.fs.trans second.fs⟩
  rw [second.mount, first.mount]

omit [Build] in
theorem Kept.setFs {f : Filesys → Filesys} (same : t.fstab = (s.setFs m f).fstab)
    (only : ListOnly (s.fstab m).fs (f (s.fstab m).fs)) : Kept s t m := by
  have here : t.fstab m = { s.fstab m with fs := f (s.fstab m).fs } := by
    rw [same]
    exact put_same _ _ _
  refine ⟨?_, ?_, ?_⟩
  · intro k other
    rw [same]
    exact put_ne _ _ other
  · rw [here]
  · rw [here]
    exact only

theorem Kept.found (kept : Kept s t m) (found : fsTabGet s devno = some m) : fsTabGet t devno = some m := by
  have same : ∀ k, (t.fstab k).dev = (s.fstab k).dev := by
    intro k
    by_cases here : k = m
    · rw [here, kept.mount]
    · rw [kept.others k here]
  unfold fsTabGet at found ⊢
  simp only [same]
  exact found

omit [Build] in
theorem Kept.sizes (kept : Kept s t m) :
    (t.fstab m).fs.isize = (s.fstab m).fs.isize ∧ (t.fstab m).fs.fsize = (s.fstab m).fs.fsize := by
  obtain ⟨_, _, _, _, _, _, same⟩ := kept.fs
  rw [same]
  exact ⟨rfl, rfl⟩

/-- The block `b` was handed out. -/
theorem Banked.took (banked : Banked s devno m (b :: bs)) (refills : Refills s devno m)
    (took : Took s t devno m b) : Banked t devno m bs ∧ Kept s t m := by
  have listed := (took.pool banked.found banked.pool).1
  obtain ⟨fs, stamped, after⟩ := took
  have fields := stamped
  obtain ⟨fmod, timeh, time, same⟩ := fields
  have fstab : t.fstab = (s.setFs m fun _ => fs.taken (s.disk devno)).fstab := by
    rw [after]
    rfl
  have kept : Kept s t m := by
    refine .setFs fstab (stamped.listOnly.trans (taken_listOnly ?_))
    rw [same]
    intro one wide
    have real : (s.fstab m).fs.free 0 ≠ 0 := by
      rw [banked.pool.first_only one]
      exact banked.pool.first.2
    exact (refills one real).2 wide
  have superblock : (t.fstab m).fs = fs.taken (s.disk devno) := by
    rw [fstab]
    exact setFs_fs
  obtain ⟨isize, fsize⟩ := kept.sizes
  refine ⟨⟨kept.found banked.found, listed, ?_, ?_, ?_⟩, kept⟩
  · rw [superblock]
    refine taken_words ?_
    rw [same]
    exact banked.words
  · rw [isize]
    exact banked.low
  · rw [fsize]
    exact banked.high

/-- The block `b` was given back. -/
theorem Banked.gave (banked : Banked s devno m bs)
    (inside : (s.fstab m).fs.isize ≤ b ∧ b < (s.fstab m).fs.fsize) (new : b ∉ bs) (gave : Gave s t devno m b) :
    Banked t devno m (b :: bs) ∧ Kept s t m := by
  obtain ⟨fs, stamped, disk, here, -, after⟩ := gave
  have fields := stamped
  obtain ⟨fmod, timeh, time, same⟩ := fields
  have fstab : t.fstab = (s.setFs m fun _ => fs.given b).fstab := by
    rw [after]
    rfl
  have kept : Kept s t m := .setFs fstab (stamped.listOnly.trans given_listOnly)
  have superblock : (t.fstab m).fs = fs.given b := by
    rw [fstab]
    exact setFs_fs
  have device : t.disk devno = fs.spilled (s.disk devno) b (s.io s.xfers).junk := by
    rw [after]
    exact here
  have words : ∀ i < FILESYS_TABSIZE, fs.free i < 65536 := by
    rw [same]
    exact banked.words
  obtain ⟨isize, fsize⟩ := kept.sizes
  refine ⟨⟨kept.found banked.found, ?_, ?_, ?_, ?_⟩, kept⟩
  · rw [superblock, device]
    refine (banked.pool.stamped stamped).given words ?_ ?_ ?_ new
    all_goals rw [same]
    · exact banked.low
    · exact banked.high
    · exact inside
  · rw [superblock]
    intro i less
    have entry : ∀ n, put fs.free n b i < 65536 := by
      intro n
      have high := banked.high
      rw [put_apply]
      split
      · omega
      · exact words i less
    exact entry _
  · rw [isize]
    exact banked.low
  · rw [fsize]
    exact banked.high

/-- One call does what it does to a bag. -/
theorem Banked.step (banked : Banked s devno m bs) {op : BlkOp} (fine : op.fine s devno m) (stop : Stop → Prop) :
    wp stop (op.run devno)
      (fun a t => ∃ bs', Banked t devno m bs' ∧ BagStep (bs : Multiset Nat) (op, a) bs' ∧ Kept s t m) s := by
  cases op with
  | alloc =>
    obtain ⟨evicts, refills⟩ := fine
    show wp stop (blkAlloc devno) _ s
    cases bs with
    | nil =>
      refine wp_mono (banked.pool.exhausted banked.found) ?_
      rintro a t ⟨none_left, fs, stamped, after⟩
      have kept : Kept s t m := by
        refine .setFs (f := fun _ => fs) ?_ stamped.listOnly
        rw [after]
        rfl
      have superblock : (t.fstab m).fs = fs := by
        rw [after]
        exact setFs_fs (f := fun _ => fs)
      have device : t.disk devno = s.disk devno := by
        rw [after]
        rfl
      obtain ⟨isize, fsize⟩ := kept.sizes
      refine ⟨[], ⟨kept.found banked.found, ?_, ?_, ?_, ?_⟩, ?_, kept⟩
      · rw [superblock, device]
        exact banked.pool.stamped stamped
      · obtain ⟨_, _, _, same⟩ := stamped
        rw [superblock, same]
        exact banked.words
      · rw [isize]
        exact banked.low
      · rw [fsize]
        exact banked.high
      · rw [none_left]
        exact .exhausted
    | cons b bs =>
      obtain ⟨first, real⟩ := banked.pool.first
      refine wp_mono (banked.pool.blkAlloc banked.found evicts) ?_
      rintro a t (⟨same, _, took⟩ | ⟨_, one, fails, _⟩)
      · obtain ⟨banked', kept⟩ := banked.took refills took
        refine ⟨bs, banked', ?_, kept⟩
        rw [same, ← Multiset.cons_coe]
        exact .taken real
      · rw [one] at first
        have reads := (refills one (first ▸ real)).1
        rw [reads] at fails
        cases fails
  | free blk =>
    unfold BlkOp.run
    rw [wp_bind]
    by_cases null : blk = 0
    · rw [null]
      exact ⟨bs, banked, .nothing, .refl⟩
    · obtain ⟨evicts, inside, new⟩ := fine null
      have fresh := new bs banked.pool
      refine wp_mono (banked.pool.blkFree banked.found null inside evicts) ?_
      rintro _ t gave
      obtain ⟨banked', kept⟩ := banked.gave inside fresh gave
      refine ⟨blk :: bs, banked', ?_, kept⟩
      rw [← Multiset.cons_coe]
      exact .given null

/-- The tools read the same list in the blocks. -/
theorem Banked.layout (banked : Banked s devno m bs) :
    Yields FILESYS_TABSIZE 0 (Image.links false fun j k => word (s.disk devno j) k) (s.fstab m).fs.batch bs := by
  have same : ∀ (j k : Nat), Image.swap16 false (word (s.disk devno j) k) = word (s.disk devno j) k :=
    fun j k => Nat.mod_eq_of_lt (word_lt _ _)
  refine banked.pool.chain.congr rfl (fun _ _ => rfl) ?_
  intro b _
  exact ⟨same b 0, fun i _ => same b (i + 1)⟩

/-- In every run of calls of which none refills the list over another count of free inodes, and
whose transfers do not fail, the list is a bag of blocks, in the layout of the tools, and the
calls change nothing else of the file systems; and no further call stops. -/
theorem free_list_bag {es : List (BlkOp × Nat)} (start : Banked s devno m bs)
    (run : Steps (BlkStep devno m) s es t) :
    (∃ bs' : List Nat, Steps BagStep (bs : Multiset Nat) es bs' ∧ Banked t devno m bs' ∧ Kept s t m ∧
      Yields FILESYS_TABSIZE 0 (Image.links false fun j k => word (t.disk devno j) k) (t.fstab m).fs.batch bs') ∧
    ∀ op, BlkOp.fine t devno m op → ∃ a u, op.run devno t = .ok (a, u) := by
  have reached : ∃ bs' : List Nat, Steps BagStep (bs : Multiset Nat) es bs' ∧ Banked t devno m bs' ∧ Kept s t m := by
    induction run with
    | nil => exact ⟨bs, .nil _, start, .refl⟩
    | snoc before last ih =>
      obtain ⟨bs', bag, banked, kept⟩ := ih
      obtain ⟨fine, ran⟩ := last
      obtain ⟨bs'', banked', taken, kept'⟩ := wp_ok (banked.step fine fun _ => True) ran
      exact ⟨bs'', .snoc bag taken, banked', kept.trans kept'⟩
  obtain ⟨bs', bag, banked, kept⟩ := reached
  refine ⟨⟨bs', bag, banked, kept, banked.layout⟩, ?_⟩
  intro op fine
  obtain ⟨a, u, ran, _⟩ := wp_returns (banked.step fine fun _ => False)
  exact ⟨a, u, ran⟩

end Steps

/-! ## Refills -/

/-- The build for a 68000. -/
@[reducible] def wide : Build := { tiny with width := .int32 }

/-- The last free block is 10, and `mark` follows the entries in it. -/
def lastBlock (mark : Nat) : Kernel :=
  { oneFile with
    disk := fun _ j => if j = 10 then setWord (setWord zeroBlock 0 1) 51 mark else zeroBlock
    fstab := fun _ => ⟨0, false, false, { Filesys.load zeroBlock with
      mounted := SMOUNTED, isize := 4, fsize := 20, nfree := 1, free := fun _ => 10, ninode := 1, tfree := 1 }⟩ }

omit [Build] in
theorem lastBlock_banked (mark : Nat) : @Banked wide (lastBlock mark) 0 0 [10] := by
  let _ := wide
  have down : word (setWord (setWord zeroBlock 0 1) 51 mark) 0 = 1 :=
    (word_setWord_ne _ _ (by decide)).trans rfl
  have bottom : word (setWord (setWord zeroBlock 0 1) 51 mark) 1 = 0 :=
    (word_setWord_ne _ _ (by decide)).trans rfl
  have popped : Batch.pop (fun j => chainBatch ((lastBlock mark).disk 0 j)) ((lastBlock mark).fstab 0).fs.batch =
      chainBatch (setWord (setWord zeroBlock 0 1) 51 mark) := rfl
  have count : (chainBatch (setWord (setWord zeroBlock 0 1) 51 mark)).count = 1 := down
  have chain : Yields FILESYS_TABSIZE 0 (fun j => chainBatch ((lastBlock mark).disk 0 j))
      ((lastBlock mark).fstab 0).fs.batch [10] := by
    refine .next Nat.one_pos (Nat.le_add_left 1 49) rfl (by decide) ?_
    rw [popped]
    refine .done ?_ ?_ ?_
    · rw [count]
      exact Nat.one_pos
    · rw [count]
      exact Nat.le_add_left 1 49
    · rw [count]
      exact bottom
  refine ⟨rfl, ⟨rfl, chain, ?_, List.nodup_singleton 10, rfl⟩, ?_, Nat.le_add_left 1 3, ?_⟩
  · intro b member
    rw [List.mem_singleton.mp member]
    exact ⟨Nat.le_add_left 4 6, Nat.le_add_left 11 9⟩
  · intro i _
    exact Nat.le_add_left 11 65525
  · show 20 < 65536
    decide

omit [Build] in
set_option maxRecDepth 10000 in
theorem free_list_bag_refill : ∃ (t : Kernel) (bs : List Nat), @blkAlloc wide 0 (lastBlock 1) = .ok (10, t) ∧
    @Banked wide t 0 0 bs ∧ Kept (lastBlock 1) t 0 := by
  let _ := wide
  have ran : ∃ t, blkAlloc 0 (lastBlock 1) = .ok (10, t) := ⟨_, rfl⟩
  obtain ⟨t, ran⟩ := ran
  have fine : BlkOp.fine (lastBlock 1) 0 0 .alloc := ⟨fun _ _ => rfl, fun _ _ => ⟨rfl, fun _ => rfl⟩⟩
  have run : Steps (BlkStep 0 0) (lastBlock 1) [(.alloc, 10)] t := .snoc (.nil _) ⟨fine, ran⟩
  obtain ⟨bs, _, banked, kept, _⟩ := (free_list_bag (lastBlock_banked 1) run).1
  exact ⟨t, bs, ran, banked, kept⟩

omit [Build] in
set_option maxRecDepth 10000 in
/-- Taking block 10 sets `s_ninode` to 0. -/
theorem refill_clobbers : ∃ (_ : Build) (s t : Kernel), Banked s 0 0 [10] ∧ NoFaults s ∧
    blkAlloc 0 s = .ok (10, t) ∧ (s.fstab 0).fs.ninode = 1 ∧ (t.fstab 0).fs.ninode = 0 :=
  ⟨wide, lastBlock 0, _, lastBlock_banked 0, fun _ => ⟨rfl, rfl⟩, rfl, rfl, rfl⟩

end Fuzix
