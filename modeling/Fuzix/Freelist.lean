import Mathlib.Data.List.Perm.Subperm
import Fuzix.Filesys
import Fuzix.Lib.Chain

/-!
# The free list as the kernel reads it

A superblock and the blocks of its device hold a list of free blocks. `blk_alloc` takes its
first block and reports `ENOSPC` at its end, and `blk_free` puts one in front.
-/

namespace Fuzix

open Wp Table Words Chain

/-- The count and the entries that a block of the chain holds. -/
def chainBatch (b : Block) : Batch Nat := ⟨word b 0, fun i => word b (i + 1)⟩

def Filesys.batch (fs : Filesys) : Batch Nat := ⟨fs.nfree, fs.free⟩

/-- No transfer fails, and no eviction. -/
def NoFaults (s : Kernel) : Prop := ∀ n, (s.io n).fails = false ∧ (s.io n).lost = none

/-- The next `n` transfers lose no block that they evict. -/
def Evicts (s : Kernel) (n : Nat) : Prop := ∀ k < n, (s.io (s.xfers + k)).lost = none

variable [Build]

/-- The free list of the file system mounted as entry `m` holds these blocks. -/
structure FreeList (s : Kernel) (devno m : Nat) (bs : List Nat) : Prop where
  sure : NoFaults s
  found : fsTabGet s devno = some m
  mounted : (s.fstab m).fs.mounted = SMOUNTED
  chain : Yields FILESYS_TABSIZE 0 (fun j => chainBatch (s.disk devno j)) (s.fstab m).fs.batch bs
  inside : ∀ b ∈ bs, (s.fstab m).fs.isize ≤ b ∧ b < (s.fstab m).fs.fsize
  distinct : bs.Nodup
  tfree : (s.fstab m).fs.tfree = bs.length

/-- `n` calls of `blk_alloc`. -/
def blkAllocs (devno : Nat) : Nat → K (List Nat)
  | 0 => return []
  | n + 1 => do
    let b ← blkAlloc devno
    let bs ← blkAllocs devno n
    return b :: bs

/-- The entry `m` with another superblock. -/
def Kernel.setFs (s : Kernel) (m : Nat) (f : Filesys → Filesys) : Kernel :=
  { s with fstab := put s.fstab m { s.fstab m with fs := f (s.fstab m).fs } }

def Kernel.withError (s : Kernel) (e : Nat) : Kernel :=
  { s with ptab := put s.ptab s.cur { s.ptab s.cur with u := { s.u with error := e } } }

/-- The state after `n` more transfers. -/
def Kernel.spent (s : Kernel) (n : Nat) : Kernel := { s with xfers := s.xfers + n }

def Kernel.wrote (s : Kernel) (dev blk : Nat) (b : Block) : Kernel := { s with disk := put₂ s.disk dev blk b }

/-! ## Superblocks -/

/-- What `getdev` stamps. -/
def Stamped (fs fs' : Filesys) : Prop :=
  ∃ fmod timeh time, fs' = { fs with fmod := fmod, timeh := timeh, time := time }

/-- The superblock after its first free block was taken, with the chain that is on the device. -/
def Filesys.taken (fs : Filesys) (disk : Nat → Block) : Filesys :=
  let below := if fs.nfree = 1 then { fs with nfree := 0 }.loadChain (disk (fs.free 0))
    else { fs with nfree := fs.nfree - 1 }
  { below with tfree := below.tfree - 1 }

/-- The superblock after `blk` was freed. -/
def Filesys.given (fs : Filesys) (blk : Nat) : Filesys :=
  let n := if fs.nfree = FILESYS_TABSIZE then 0 else fs.nfree
  { fs with tfree := (fs.tfree + 1) % 65536, free := put fs.free n blk, nfree := n + 1 }

/-- The free list in a superblock and the blocks of its device. -/
structure Pool (disk : Nat → Block) (fs : Filesys) (bs : List Nat) : Prop where
  mounted : fs.mounted = SMOUNTED
  chain : Yields FILESYS_TABSIZE 0 (fun j => chainBatch (disk j)) fs.batch bs
  inside : ∀ b ∈ bs, fs.isize ≤ b ∧ b < fs.fsize
  distinct : bs.Nodup
  tfree : fs.tfree = bs.length

section Superblocks
variable {fs fs' : Filesys} {disk disk' : Nat → Block} {b : Nat} {bs : List Nat}

omit [Build] in
theorem Pool.congr (pool : Pool disk fs bs) (mounted : fs'.mounted = fs.mounted)
    (isize : fs'.isize = fs.isize) (fsize : fs'.fsize = fs.fsize) (batch : fs'.batch = fs.batch)
    (tfree : fs'.tfree = fs.tfree) (links : ∀ b ∈ bs, disk' b = disk b) : Pool disk' fs' bs where
  mounted := mounted.trans pool.mounted
  chain := by
    rw [batch]
    refine pool.chain.congr rfl (fun _ _ => rfl) ?_
    intro b member
    exact .of_eq (congrArg chainBatch (links b member))
  inside := by
    rw [isize, fsize]
    exact pool.inside
  distinct := pool.distinct
  tfree := tfree.trans pool.tfree

omit [Build] in
theorem Pool.stamped (pool : Pool disk fs bs) (stamped : Stamped fs fs') : Pool disk fs' bs := by
  obtain ⟨fmod, timeh, time, same⟩ := stamped
  rw [same]
  exact pool.congr rfl rfl rfl rfl rfl (fun _ _ => rfl)

omit [Build] in
theorem Pool.first (pool : Pool disk fs (b :: bs)) : fs.free (fs.nfree - 1) = b ∧ b ≠ 0 := by
  cases pool.chain with
  | next _ _ first real _ => exact ⟨first, real⟩

omit [Build] in
theorem Pool.first_only (pool : Pool disk fs (b :: bs)) (one : fs.nfree = 1) : fs.free 0 = b := by
  have first := pool.first.1
  rw [one] at first
  exact first

theorem taken_fields (fs : Filesys) (disk : Nat → Block) : (fs.taken disk).mounted = fs.mounted ∧ (fs.taken disk).isize = fs.isize ∧
    (fs.taken disk).fsize = fs.fsize ∧ (fs.taken disk).tfree = fs.tfree - 1 ∧
    (fs.taken disk).tinode = fs.tinode ∧ (fs.taken disk).mntpt = fs.mntpt := by
  unfold Filesys.taken
  split <;> exact ⟨rfl, rfl, rfl, rfl, rfl, rfl⟩

/-- The first block leaves the list, and is cleared. -/
theorem Pool.taken (pool : Pool disk fs (b :: bs)) : Pool (put disk b zeroBlock) (fs.taken disk) bs := by
  obtain ⟨mounted, isize, fsize, tfree, _⟩ := taken_fields fs disk
  have apart := List.nodup_cons.mp pool.distinct
  have cleared : ∀ a ∈ bs, put disk b zeroBlock a = disk a := by
    intro a member
    exact put_ne _ _ (fun same => apart.1 (same ▸ member))
  refine ⟨mounted.trans pool.mounted, ?_, ?_, apart.2, ?_⟩
  · cases pool.chain with
    | next some_left fits first real rest =>
      by_cases one : fs.nfree = 1
      · have down : fs.batch.pop (fun j => chainBatch (disk j)) = chainBatch (disk (fs.free 0)) := if_pos one
        rw [down] at rest
        have small := rest.count_le
        have loaded : (fs.taken disk).batch = ({ fs with nfree := 0 }.loadChain (disk (fs.free 0))).batch := by
          unfold Filesys.taken
          rw [if_pos one]
          rfl
        rw [loaded]
        refine rest.congr rfl ?_ (fun a member => .of_eq (congrArg chainBatch (cleared a member)))
        intro i less
        exact if_pos (Nat.lt_of_lt_of_le less small)
      · have down : fs.batch.pop (fun j => chainBatch (disk j)) = ⟨fs.nfree - 1, fs.free⟩ := if_neg one
        rw [down] at rest
        have popped : (fs.taken disk).batch = ⟨fs.nfree - 1, fs.free⟩ := by
          unfold Filesys.taken
          rw [if_neg one]
          rfl
        rw [popped]
        exact rest.congr rfl (fun _ _ => rfl) (fun a member => .of_eq (congrArg chainBatch (cleared a member)))
  · rw [isize, fsize]
    intro a member
    exact pool.inside a (List.mem_cons_of_mem b member)
  · rw [tfree, pool.tfree]
    rfl

omit [Build] in
theorem Pool.length_le (pool : Pool disk fs bs) : bs.length ≤ fs.fsize - fs.isize := by
  have within : bs ⊆ List.range' fs.isize (fs.fsize - fs.isize) := by
    intro b member
    have inside := pool.inside b member
    rw [List.mem_range'_1]
    omega
  have fewer := (List.subperm_of_subset pool.distinct within).length_le
  rw [List.length_range'] at fewer
  exact fewer

theorem chainBatch_storeChain {junk : Block} (count : fs.nfree < 65536)
    (words : ∀ i < FILESYS_TABSIZE, fs.free i < 65536) :
    (chainBatch (fs.storeChain junk)).Same FILESYS_TABSIZE fs.batch := by
  have size : FILESYS_TABSIZE = 50 := rfl
  have stored : ∀ k < 51, word (fs.storeChain junk) k =
      word (setWords (setWord junk 0 fs.nfree) 1 fs.free FILESYS_TABSIZE) k := by
    intro k less
    unfold Filesys.storeChain
    cases width with
    | int16 => rfl
    | int32 => exact word_setWord_ne _ _ (by omega)
  constructor
  · show word (fs.storeChain junk) 0 = fs.nfree
    rw [stored 0 (by decide), word_setWords, if_neg (by omega), word_setWord, Nat.mod_eq_of_lt count]
  · intro i less
    show word (fs.storeChain junk) (i + 1) = fs.free i
    rw [stored (i + 1) (by omega), word_setWords, if_pos (by omega), Nat.add_sub_cancel,
      Nat.mod_eq_of_lt (words i less)]

/-- The blocks of the device after `blk` was freed. -/
def Filesys.spilled (fs : Filesys) (disk : Nat → Block) (blk : Nat) (junk : Block) : Nat → Block :=
  if fs.nfree = FILESYS_TABSIZE then put disk blk (fs.storeChain junk) else disk

/-- A block that was allocated goes in front of the list. -/
theorem Pool.given (pool : Pool disk fs bs) {junk : Block} (words : ∀ i < FILESYS_TABSIZE, fs.free i < 65536)
    (low : 0 < fs.isize) (high : fs.fsize < 65536) (inside : fs.isize ≤ b ∧ b < fs.fsize) (new : b ∉ bs) :
    Pool (fs.spilled disk b junk) (fs.given b) (b :: bs) := by
  have count := pool.chain.count_le
  change fs.nfree ≤ FILESYS_TABSIZE at count
  have size : FILESYS_TABSIZE = 50 := rfl
  have pushed := push_yields (s := ⟨fs.batch, fun j => chainBatch (disk j)⟩) (by decide) pool.chain
    (by omega) new
  have distinct : (b :: bs).Nodup := List.nodup_cons.mpr ⟨new, pool.distinct⟩
  have few := pool.length_le
  refine ⟨pool.mounted, ?_, ?_, distinct, ?_⟩
  · unfold Stack.push at pushed
    unfold Filesys.given Filesys.spilled
    by_cases full : fs.nfree = FILESYS_TABSIZE
    · have spills : fs.batch.count = FILESYS_TABSIZE := full
      rw [if_pos spills] at pushed
      rw [if_pos full, if_pos full]
      refine pushed.congr rfl (fun _ _ => rfl) ?_
      intro a _
      dsimp only
      rw [put_apply, put_apply]
      by_cases same : a = b
      · rw [if_pos same, if_pos same]
        exact chainBatch_storeChain (by omega) words
      · rw [if_neg same, if_neg same]
        exact .refl
    · have stays : ¬ fs.batch.count = FILESYS_TABSIZE := full
      rw [if_neg stays] at pushed
      rw [if_neg full, if_neg full]
      exact pushed
  · intro a member
    rcases List.mem_cons.mp member with same | old
    · rw [same]
      exact inside
    · exact pool.inside a old
  · show (fs.tfree + 1) % 65536 = (b :: bs).length
    rw [pool.tfree, List.length_cons]
    exact Nat.mod_eq_of_lt (by omega)

end Superblocks

section Steps
variable {s : Kernel} {devno m b : Nat} {bs : List Nat} {stop : Stop → Prop} {f g : Filesys → Filesys}

omit [Build] in
@[simp] theorem setFs_fs : ((s.setFs m f).fstab m).fs = f (s.fstab m).fs := by
  unfold Kernel.setFs
  dsimp only
  rw [put_same]

omit [Build] in
@[simp] theorem setFs_setFs : (s.setFs m f).setFs m g = s.setFs m fun fs => g (f fs) := by
  unfold Kernel.setFs
  dsimp only
  rw [put_same, put_put]

omit [Build] in
theorem setFs_same : s.setFs m (fun _ => (s.fstab m).fs) = s := by
  unfold Kernel.setFs
  rw [put_self]

omit [Build] in
@[simp] theorem wp_modifyFs (Q : Unit → Kernel → Prop) : wp stop (modifyFs m f) Q s ↔ Q () (s.setFs m f) :=
  Iff.rfl

omit [Build] in
theorem wp_setError {e : Nat} (Q : Unit → Kernel → Prop) : wp stop (setError e) Q s ↔ Q () (s.withError e) :=
  Iff.rfl

omit [Build] in
theorem wp_corrupt (Q : Nat → Kernel → Prop) : wp stop (corrupt m) Q s ↔
    Q 0 ((s.setFs m fun fs => { fs with mounted := 1 }).withError ENOSPC) :=
  Iff.rfl

omit [Build] in
@[simp] theorem withError_withError {e e' : Nat} : (s.withError e).withError e' = s.withError e' := by
  unfold Kernel.withError Kernel.u
  dsimp only
  rw [put_same, put_put]

omit [Build] in
@[simp] theorem withError_setFs {e : Nat} : (s.withError e).setFs m f = (s.setFs m f).withError e := rfl

omit [Build] in
@[simp] theorem spent_fstab {n : Nat} : (s.spent n).fstab = s.fstab := rfl

omit [Build] in
@[simp] theorem spent_setFs {n : Nat} : (s.spent n).setFs m f = (s.setFs m f).spent n := rfl

omit [Build] in
@[simp] theorem wrote_fstab {dev blk : Nat} {x : Block} : (s.wrote dev blk x).fstab = s.fstab := rfl

omit [Build] in
@[simp] theorem wrote_setFs {dev blk : Nat} {x : Block} :
    (s.wrote dev blk x).setFs m f = (s.setFs m f).wrote dev blk x :=
  rfl

omit [Build] in
theorem wp_bawrite {dev blk : Nat} {x : Block} (Q : Unit → Kernel → Prop) :
    wp stop (bawrite dev blk x) Q s ↔ Q () (s.wrote dev blk x) :=
  Iff.rfl

omit [Build] in
@[simp] theorem spent_spent {n k : Nat} : (s.spent n).spent k = s.spent (n + k) :=
  congrArg (fun i => { s with xfers := i }) (Nat.add_assoc s.xfers n k)

theorem fsTabGet_setFs : fsTabGet (s.setFs m f) devno = fsTabGet s devno := by
  have same : ∀ k, ((s.setFs m f).fstab k).dev = (s.fstab k).dev := by
    intro k
    unfold Kernel.setFs
    by_cases here : k = m
    · rw [here]
      dsimp only
      rw [put_same]
    · dsimp only
      rw [put_ne _ _ here]
  unfold fsTabGet
  simp only [same]

/-! ## Transfers -/

omit [Build] in
theorem Evicts.first {n : Nat} (evicts : Evicts s (n + 1)) : (s.io s.xfers).lost = none := evicts 0 (by omega)

omit [Build] in
theorem NoFaults.evicts (sure : NoFaults s) (n : Nat) : Evicts s n := fun k _ => (sure (s.xfers + k)).2

omit [Build] in
theorem wp_evict (kept : (s.io s.xfers).lost = none) {Q : Io → Kernel → Prop} :
    wp stop evict Q s ↔ Q (s.io s.xfers) (s.spent 1) := by
  unfold evict
  simp only [wp_bind, wp_get, wp_modify, kept, loseBlock, wp_pure]
  rfl

omit [Build] in
theorem wp_bread (kept : (s.io s.xfers).lost = none) {blk : Nat} {Q : Option Block → Kernel → Prop} :
    wp stop (bread devno blk) Q s ↔
      ((s.io s.xfers).fails = true → Q none ((s.spent 1).withError EIO)) ∧
      ((s.io s.xfers).fails = false → Q (some (s.disk devno blk)) (s.spent 1)) := by
  unfold bread
  rw [wp_bind, wp_evict kept, wp_ite, Bool.not_eq_true]
  rfl

omit [Build] in
theorem NoFaults.of_io {t : Kernel} (sure : NoFaults s) (same : t.io = s.io) : NoFaults t := by
  intro n
  rw [same]
  exact sure n

omit [Build] in
theorem bread_sure (sure : NoFaults s) (dev blk : Nat) : bread dev blk s = .ok (some (s.disk dev blk), s.spent 1) := by
  have spec : wp (fun _ => False) (bread dev blk) (fun r u => r = some (s.disk dev blk) ∧ u = s.spent 1) s := by
    rw [wp_bread (sure _).2]
    refine ⟨fun no => ?_, fun _ => ⟨rfl, rfl⟩⟩
    rw [(sure _).1] at no
    cases no
  obtain ⟨r, u, ran, answer, same⟩ := wp_returns spec
  rw [ran, answer, same]

omit [Build] in
theorem wp_breadRewrite (kept : (s.io s.xfers).lost = none) {Q : Block → Kernel → Prop} :
    wp stop breadRewrite Q s ↔ Q (s.io s.xfers).junk (s.spent 1) := by
  unfold breadRewrite
  rw [wp_bind, wp_evict kept, wp_pure]

theorem wp_getdev (found : fsTabGet s devno = some m) (mounted : (s.fstab m).fs.mounted ≠ 0)
    {Q : Nat → Kernel → Prop} (post : ∀ fs, Stamped (s.fstab m).fs fs → Q m (s.setFs m fun _ => fs)) :
    wp stop (getdev devno) Q s := by
  unfold getdev
  simp only [wp_bind, wp_get, found]
  rw [wp_ite]
  refine ⟨fun no => absurd no mounted, fun _ => ?_⟩
  rw [wp_bind, wp_onlyIf, wp_modifyFs]
  constructor
  · intro _
    exact post _ ⟨_, _, _, rfl⟩
  · intro _
    have same := post (s.fstab m).fs ⟨_, _, _, rfl⟩
    rw [setFs_same] at same
    exact same

theorem wp_validblk (found : fsTabGet s devno = some m) (mounted : (s.fstab m).fs.mounted ≠ 0)
    (inside : (s.fstab m).fs.isize ≤ b ∧ b < (s.fstab m).fs.fsize) {Q : Unit → Kernel → Prop} :
    wp stop (validblk devno b) Q s ↔ Q () s := by
  unfold validblk
  simp only [wp_bind, wp_get, found, if_neg mounted]
  rw [if_neg (by omega)]
  rfl

/-! ## Taking and giving -/

/-- How many transfers a call of `blk_alloc` makes. -/
def Filesys.takes (fs : Filesys) : Nat := if fs.nfree = 1 then 2 else 1

/-- The state after `blk_alloc` handed out `b`. -/
def Took (s t : Kernel) (devno m b : Nat) : Prop :=
  ∃ fs, Stamped (s.fstab m).fs fs ∧
    t = ((s.setFs m fun _ => fs.taken (s.disk devno)).spent (s.fstab m).fs.takes).wrote devno b zeroBlock

/-- The state after `blk_alloc` could not read the rest of the list. -/
def Corrupted (s t : Kernel) (m : Nat) : Prop :=
  ∃ fs, Stamped (s.fstab m).fs fs ∧
    t = ((s.setFs m fun _ => { fs with nfree := 0, mounted := 1 }).spent 1).withError ENOSPC

theorem wp_refill (kept : (s.fstab m).fs.nfree = 0 → (s.io s.xfers).lost = none) {Q : Bool → Kernel → Prop} :
    wp stop (refill devno m b) Q s ↔
      ((s.fstab m).fs.nfree ≠ 0 → Q true s) ∧
      ((s.fstab m).fs.nfree = 0 → (s.io s.xfers).fails = true →
        Q false ((s.spent 1).withError EIO)) ∧
      ((s.fstab m).fs.nfree = 0 → (s.io s.xfers).fails = false →
        Q true ((s.setFs m fun fs => fs.loadChain (s.disk devno b)).spent 1)) := by
  unfold refill
  rw [wp_bind, wp_get]
  by_cases empty : (s.fstab m).fs.nfree = 0
  · rw [if_pos empty, wp_bind, wp_bread (kept empty)]
    simp only [empty, ne_eq, not_true_eq_false, false_implies, true_implies, true_and]
    rfl
  · rw [if_neg empty]
    simp only [empty, ne_eq, not_false_eq_true, false_implies, true_implies, and_true]
    rfl

/-- The end of `blk_alloc`: a block that was taken is counted and cleared. -/
theorem wp_finish (found : fsTabGet s devno = some m) (mounted : (s.fstab m).fs.mounted ≠ 0)
    (inside : (s.fstab m).fs.isize ≤ b ∧ b < (s.fstab m).fs.fsize) (counted : (s.fstab m).fs.tfree ≠ 0)
    (kept : (s.io s.xfers).lost = none) {Q : Nat → Kernel → Prop}
    (post : Q b (((s.setFs m fun fs => { fs with tfree := fs.tfree - 1 }).spent 1).wrote devno b zeroBlock)) :
    wp stop (do
      validblk devno b
      let s ← get
      if (s.fstab m).fs.tfree = 0 then corrupt m
      else
        modifyFs m (fun fs => { fs with tfree := fs.tfree - 1 })
        let _ ← breadRewrite
        bawrite devno b zeroBlock
        return b) Q s := by
  rw [wp_bind, wp_validblk found mounted inside, wp_bind, wp_get, wp_ite]
  refine ⟨fun no => absurd no counted, fun _ => ?_⟩
  rw [wp_bind, wp_modifyFs, wp_bind]
  exact (wp_breadRewrite (s := s.setFs m _) kept).mpr post

/-- `blk_alloc` hands out the first block of the list, unless it cannot read the rest. -/
theorem Pool.blkAlloc (found : fsTabGet s devno = some m)
    (pool : Pool (s.disk devno) (s.fstab m).fs (b :: bs)) (evicts : Evicts s (s.fstab m).fs.takes) :
    wp stop (blkAlloc devno) (fun a t =>
      a = b ∧ ((s.fstab m).fs.nfree = 1 → (s.io s.xfers).fails = false) ∧ Took s t devno m b ∨
      a = 0 ∧ (s.fstab m).fs.nfree = 1 ∧ (s.io s.xfers).fails = true ∧ Corrupted s t m) s := by
  have mounted : (s.fstab m).fs.mounted ≠ 0 := by
    rw [pool.mounted]
    decide
  unfold Fuzix.blkAlloc
  rw [wp_bind]
  refine wp_getdev found mounted ?_
  intro fs stamped
  have pool' := pool.stamped stamped
  obtain ⟨first, real⟩ := pool'.first
  have some_left : 0 < fs.nfree := pool'.chain.count_pos
  have fits : fs.nfree ≤ FILESYS_TABSIZE := pool'.chain.count_le
  have count : fs.nfree = (s.fstab m).fs.nfree := by
    obtain ⟨_, _, _, same⟩ := stamped
    rw [same]
  have inside := pool'.inside b List.mem_cons_self
  have listed : fs.mounted ≠ 0 := by
    rw [pool'.mounted]
    decide
  have counted : fs.tfree ≠ 0 := by
    rw [pool'.tfree]
    exact Nat.succ_ne_zero _
  have again : ∀ f, fsTabGet (s.setFs m f) devno = some m := fun f => fsTabGet_setFs.trans found
  rw [wp_bind, wp_get, setFs_fs, wp_ite]
  refine ⟨fun no => absurd pool'.mounted (of_decide_eq_true no), fun _ => ?_⟩
  rw [wp_ite]
  refine ⟨fun no => (by omega), fun _ => ?_⟩
  rw [wp_bind, wp_modifyFs, first, setFs_setFs, wp_ite]
  refine ⟨fun no => absurd no real, fun _ => ?_⟩
  rw [wp_bind]
  by_cases one : fs.nfree = 1
  · have two : (s.fstab m).fs.takes = 2 := if_pos (count.symm.trans one)
    rw [two] at evicts
    have down : fs.taken (s.disk devno) =
        { { fs with nfree := fs.nfree - 1 }.loadChain (s.disk devno b) with tfree := fs.tfree - 1 } := by
      rw [one, ← pool'.first_only one]
      unfold Filesys.taken
      rw [if_pos one]
      rfl
    refine (wp_refill (s := s.setFs m _) (fun _ => evicts 0 (by decide))).mpr ⟨?_, ?_, ?_⟩
    · rw [setFs_fs]
      intro no
      exact absurd (congrArg (· - 1) one) no
    · intro _ fails
      rw [if_neg Bool.false_ne_true, wp_corrupt, withError_setFs, withError_withError, spent_setFs, setFs_setFs, one]
      exact Or.inr ⟨rfl, count.symm.trans one, fails, fs, stamped, rfl⟩
    · intro _ reads
      rw [if_pos rfl, setFs_setFs]
      refine wp_finish (s := (s.setFs m _).spent 1) (again _) ?_ ?_ ?_ (evicts 1 (by decide)) ?_
      · rw [spent_fstab, setFs_fs]
        exact listed
      · rw [spent_fstab, setFs_fs]
        exact inside
      · rw [spent_fstab, setFs_fs]
        exact counted
      · refine Or.inl ⟨rfl, fun _ => reads, fs, stamped, ?_⟩
        have down : fs.taken (s.disk devno) = { { fs with nfree := fs.nfree - 1 }.loadChain (s.disk devno b) with
            tfree := fs.tfree - 1 } := by
          rw [one, ← pool'.first_only one]
          exact congrArg (fun below : Filesys => { below with tfree := below.tfree - 1 }) (if_pos one)
        rw [spent_setFs, spent_spent, setFs_setFs, two, down]
        rfl
  · have single : (s.fstab m).fs.takes = 1 := if_neg (count ▸ one)
    rw [single] at evicts
    refine (wp_refill (s := s.setFs m _) ?_).mpr ⟨?_, ?_, ?_⟩
    · rw [setFs_fs]
      intro no
      exact absurd (show fs.nfree = 1 by have no : fs.nfree - 1 = 0 := no; omega) one
    · intro _
      rw [if_pos rfl]
      refine wp_finish (s := s.setFs m _) (again _) ?_ ?_ ?_ (evicts 0 (by decide)) ?_
      · rw [setFs_fs]
        exact listed
      · rw [setFs_fs]
        exact inside
      · rw [setFs_fs]
        exact counted
      · refine Or.inl ⟨rfl, fun no => absurd (count.trans no) one, fs, stamped, ?_⟩
        have down : fs.taken (s.disk devno) = { fs with nfree := fs.nfree - 1, tfree := fs.tfree - 1 } :=
          congrArg (fun below : Filesys => { below with tfree := below.tfree - 1 }) (if_neg one)
        rw [setFs_setFs, single, down]
    all_goals
      rw [setFs_fs]
      intro no
      have no : fs.nfree - 1 = 0 := no
      omega

/-- A block that `blk_alloc` handed out has left the list. -/
theorem Took.pool {t : Kernel} (took : Took s t devno m b) (found : fsTabGet s devno = some m)
    (pool : Pool (s.disk devno) (s.fstab m).fs (b :: bs)) :
    Pool (t.disk devno) (t.fstab m).fs bs ∧ fsTabGet t devno = some m := by
  obtain ⟨fs, stamped, after⟩ := took
  have next := (pool.stamped stamped).taken
  have left : (t.fstab m).fs = fs.taken (s.disk devno) := by
    rw [after]
    exact setFs_fs (f := fun _ => fs.taken (s.disk devno))
  have cleared : ∀ a, t.disk devno a = put (s.disk devno) b zeroBlock a := by
    intro a
    rw [after]
    show put₂ s.disk devno b zeroBlock devno a = put (s.disk devno) b zeroBlock a
    simp only [put₂_apply, put_apply, true_and]
  refine ⟨?_, ?_⟩
  · rw [left]
    exact next.congr rfl rfl rfl rfl rfl (fun a _ => cleared a)
  · rw [after]
    exact (fsTabGet_setFs (f := fun _ => fs.taken (s.disk devno))).trans found

/-- At the end of the list there is no block, and the file system is not called corrupt. -/
theorem Pool.exhausted (found : fsTabGet s devno = some m) (pool : Pool (s.disk devno) (s.fstab m).fs []) :
    wp stop (Fuzix.blkAlloc devno)
      (fun a t => a = 0 ∧ ∃ fs, Stamped (s.fstab m).fs fs ∧ t = (s.setFs m fun _ => fs).withError ENOSPC) s := by
  have mounted : (s.fstab m).fs.mounted ≠ 0 := by
    rw [pool.mounted]
    decide
  unfold Fuzix.blkAlloc
  rw [wp_bind]
  refine wp_getdev found mounted ?_
  intro fs stamped
  have pool' := pool.stamped stamped
  rw [wp_bind, wp_get, setFs_fs, wp_ite]
  refine ⟨fun no => absurd pool'.mounted (of_decide_eq_true no), fun _ => ?_⟩
  have chain := pool'.chain
  cases chain with
  | done some_left fits last =>
    change 0 < fs.nfree at some_left
    change fs.nfree ≤ FILESYS_TABSIZE at fits
    change fs.free (fs.nfree - 1) = 0 at last
    rw [wp_ite]
    refine ⟨fun no => (by omega), fun _ => ?_⟩
    rw [wp_bind, wp_modifyFs, last, wp_ite]
    refine ⟨fun _ => ?_, fun no => absurd rfl no⟩
    rw [wp_ite]
    refine ⟨fun no => absurd pool'.tfree no, fun _ => ?_⟩
    unfold noSpace
    rw [wp_bind, wp_modifyFs, wp_bind, wp_setError, wp_pure, setFs_setFs, setFs_setFs]
    have back : { fs with nfree := fs.nfree - 1 + 1 } = fs := by
      rw [Nat.sub_add_cancel some_left]
    refine ⟨rfl, fs, stamped, ?_⟩
    exact congrArg (fun fs => (s.setFs m fun _ => fs).withError ENOSPC) back

/-- How many transfers a call of `blk_free` makes. -/
def Filesys.gives (fs : Filesys) : Nat := if fs.nfree = FILESYS_TABSIZE then 1 else 0

/-- The state after `blk_free` took `b` back. -/
def Gave (s t : Kernel) (devno m b : Nat) : Prop :=
  ∃ fs, Stamped (s.fstab m).fs fs ∧ ∃ disk, disk devno = fs.spilled (s.disk devno) b (s.io s.xfers).junk ∧
    (∀ d, d ≠ devno → disk d = s.disk d) ∧
    t = { (s.setFs m fun _ => fs.given b).spent (s.fstab m).fs.gives with disk := disk }

theorem Pool.blkFree (found : fsTabGet s devno = some m) (pool : Pool (s.disk devno) (s.fstab m).fs bs)
    (real : b ≠ 0) (inside : (s.fstab m).fs.isize ≤ b ∧ b < (s.fstab m).fs.fsize)
    (evicts : Evicts s (s.fstab m).fs.gives) :
    wp stop (blkFree devno b) (fun _ t => Gave s t devno m b) s := by
  have mounted : (s.fstab m).fs.mounted ≠ 0 := by
    rw [pool.mounted]
    decide
  unfold Fuzix.blkFree
  rw [if_neg real, wp_bind]
  refine wp_getdev found mounted ?_
  intro fs stamped
  have pool' := pool.stamped stamped
  have again : ∀ f, fsTabGet (s.setFs m f) devno = some m := fun f => fsTabGet_setFs.trans found
  have same : fs.nfree = (s.fstab m).fs.nfree ∧ fs.isize = (s.fstab m).fs.isize ∧
      fs.fsize = (s.fstab m).fs.fsize := by
    obtain ⟨_, _, _, same⟩ := stamped
    rw [same]
    exact ⟨rfl, rfl, rfl⟩
  have fits : fs.nfree ≤ FILESYS_TABSIZE := pool'.chain.count_le
  have listed : fs.mounted ≠ 0 := by
    rw [pool'.mounted]
    decide
  rw [wp_bind, wp_get, setFs_fs, wp_ite]
  refine ⟨fun no => absurd pool'.mounted (of_decide_eq_true no), fun _ => ?_⟩
  rw [wp_bind, wp_validblk (again _) (by rw [setFs_fs]; exact listed)
    (by rw [setFs_fs, same.2.1, same.2.2]; exact inside)]
  unfold spill
  rw [wp_bind, wp_bind, wp_get, setFs_fs]
  by_cases full : fs.nfree = FILESYS_TABSIZE
  · have one : (s.fstab m).fs.gives = 1 := if_pos (same.1.symm.trans full)
    rw [one] at evicts
    rw [if_pos full, wp_bind]
    refine (wp_breadRewrite (s := s.setFs m _) evicts.first).mpr ?_
    rw [wp_bind, wp_bawrite, wp_modifyFs, wrote_setFs, spent_setFs, setFs_setFs, wp_bind, wp_get, wrote_fstab,
      spent_fstab, setFs_fs, wp_ite]
    have room : ¬ FILESYS_TABSIZE ≤ 0 := by decide
    refine ⟨fun no => absurd no room, fun _ => ?_⟩
    rw [wp_modifyFs, wrote_setFs, spent_setFs, setFs_setFs]
    refine ⟨fs, stamped, put₂ s.disk devno b (fs.storeChain (s.io s.xfers).junk), ?_, ?_, ?_⟩
    · unfold Filesys.spilled
      rw [if_pos full]
      funext a
      simp only [put₂_apply, put_apply, true_and]
    · intro d other
      funext a
      exact put₂_ne _ _ (fun no => other no.1)
    · have up : fs.given b =
          { fs with tfree := (fs.tfree + 1) % 65536, free := put fs.free 0 b, nfree := 0 + 1 } := by
        unfold Filesys.given
        rw [if_pos full]
      rw [one, up]
      rfl
  · have none' : (s.fstab m).fs.gives = 0 := if_neg (same.1 ▸ full)
    rw [if_neg full, wp_pure, wp_bind, wp_get, setFs_fs, if_neg (by omega), wp_modifyFs, setFs_setFs]
    refine ⟨fs, stamped, s.disk, (if_neg full).symm, fun _ _ => rfl, ?_⟩
    have up : fs.given b = { fs with tfree := (fs.tfree + 1) % 65536, free := put fs.free fs.nfree b, nfree := fs.nfree + 1 } := by
      unfold Filesys.given
      rw [if_neg full]
    rw [none', up]
    rfl

/-! ## The list of a device that does not fail -/

theorem FreeList.pool (list : FreeList s devno m bs) : Pool (s.disk devno) (s.fstab m).fs bs :=
  ⟨list.mounted, list.chain, list.inside, list.distinct, list.tfree⟩

theorem Pool.freeList (sure : NoFaults s) (found : fsTabGet s devno = some m)
    (pool : Pool (s.disk devno) (s.fstab m).fs bs) : FreeList s devno m bs :=
  ⟨sure, found, pool.mounted, pool.chain, pool.inside, pool.distinct, pool.tfree⟩

theorem FreeList.blkAlloc (list : FreeList s devno m (b :: bs)) :
    wp stop (blkAlloc devno) (fun a t => a = b ∧ FreeList t devno m bs) s := by
  refine wp_mono (list.pool.blkAlloc list.found (list.sure.evicts _)) ?_
  rintro a t (⟨first, _, took⟩ | ⟨_, _, fails, _⟩)
  · obtain ⟨pool, found⟩ := took.pool list.found list.pool
    refine ⟨first, pool.freeList ?_ found⟩
    obtain ⟨fs, _, after⟩ := took
    rw [after]
    exact list.sure
  · rw [(list.sure s.xfers).1] at fails
    cases fails

theorem FreeList.exhausted (list : FreeList s devno m []) : wp stop (Fuzix.blkAlloc devno)
    (fun a t => a = 0 ∧ FreeList t devno m [] ∧ t.u.error = ENOSPC) s := by
  refine wp_mono (list.pool.exhausted list.found) ?_
  rintro a t ⟨none_left, fs, stamped, after⟩
  rw [after]
  have found := (fsTabGet_setFs (m := m) (f := fun _ => fs)).trans list.found
  refine ⟨none_left, Pool.freeList list.sure found ?_, ?_⟩
  · have kept : (((s.setFs m fun _ => fs).withError ENOSPC).fstab m).fs = fs := setFs_fs (f := fun _ => fs)
    rw [kept]
    exact list.pool.stamped stamped
  · unfold Kernel.u Kernel.withError
    dsimp only
    rw [put_same]

/-- All blocks of the list are handed out, in its order, and then none. -/
theorem FreeList.drain (list : FreeList s devno m bs) : wp stop (blkAllocs devno (bs.length + 1))
    (fun as t => as = bs ++ [0] ∧ FreeList t devno m [] ∧ t.u.error = ENOSPC) s := by
  induction bs generalizing s with
  | nil =>
    unfold blkAllocs
    rw [wp_bind]
    refine wp_mono list.exhausted ?_
    rintro a t ⟨none_left, list, error⟩
    rw [none_left]
    exact ⟨rfl, list, error⟩
  | cons b bs ih =>
    rw [List.length_cons]
    unfold blkAllocs
    rw [wp_bind]
    refine wp_mono list.blkAlloc ?_
    rintro a t ⟨first, list⟩
    rw [wp_bind]
    refine wp_mono (ih list) ?_
    rintro as u ⟨rest, list, error⟩
    rw [wp_pure, first, rest]
    exact ⟨rfl, list, error⟩

end Steps

end Fuzix
