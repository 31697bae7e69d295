import Mathlib.Tactic.SplitIfs
import Fuzix.Freelist
import Fuzix.Lib.Trie

/-!
# The block map of an inode

The blocks of a file form a tree: the slots of the inode are its root, and index blocks its
inner nodes. `bmap` follows one path of the tree and may fill places on it.
-/

namespace Fuzix

open Wp Table Words

/-- The inode itself, or a block of its tree. Block 0 is no block. -/
inductive Node where
  | inode
  | block (b : Nat)
deriving DecidableEq

def entries (disk : Nat → Block) (d : Dinode) : Node → Nat → Node
  | .inode, k => .block (d.addr k)
  | .block b, k => .block (word (disk b) k)

/-- A slot of the inode, and entries of index blocks after it: slot 18 has one level of them and
slot 19 has two. -/
def BlockPath : List Nat → Prop
  | [] => True
  | slot :: ks => slot < 20 ∧ ks.length ≤ slot - 17 ∧ ∀ k ∈ ks, k < 256

def pathOf (bn : Nat) : List Nat :=
  if bn < 18 then [bn]
  else if bn - 18 < 256 then [18, bn - 18]
  else [19, (bn - 18 - 256) / 256 % 256, (bn - 18 - 256) % 256]

def nodeAt (s : Kernel) (ip : Nat) (p : List Nat) : Node :=
  Trie.find (.block 0) (entries (s.disk (s.itab ip).dev) (s.itab ip).node) .inode p

def Node.number : Node → Nat
  | .inode => 0
  | .block b => b

/-- What `bmapTree` answers when it ends at the node. -/
def Node.answer (n : Node) : Option Nat := if n.number = 0 then none else some n.number

/-- The block that holds block `bn` of the file, if there is one. -/
def mapped (s : Kernel) (ip bn : Nat) : Option Nat := (nodeAt s ip (pathOf bn)).answer

/-- No block is lost that is evicted. -/
def NoLost (s : Kernel) : Prop := ∀ n, (s.io n).lost = none

section Places
variable {s : Kernel} {ip slot k bn bn' : Nat} {p q : List Nat}

theorem blockPath_init (valid : BlockPath (p ++ [k])) : BlockPath p := by
  cases p with
  | nil => trivial
  | cons slot ks =>
    obtain ⟨less, deep, small⟩ := valid
    refine ⟨less, ?_, fun j member => small j (List.mem_append_left [k] member)⟩
    have longer : (ks ++ [k]).length = ks.length + 1 := List.length_append
    have deep : (ks ++ [k]).length ≤ slot - 17 := deep
    omega

theorem blockPath_pathOf (bn : Nat) : BlockPath (pathOf bn) := by
  unfold pathOf
  split
  · exact ⟨by omega, Nat.zero_le _, by simp⟩
  · split
    · refine ⟨by decide, Nat.le_refl 1, ?_⟩
      intro k member
      rw [List.mem_singleton.mp member]
      assumption
    · refine ⟨by decide, Nat.le_refl 2, ?_⟩
      intro k member
      rcases List.mem_cons.mp member with same | member
      · omega
      · rw [List.mem_singleton.mp member]
        omega

/-- The path to a block of the file does not pass another one. -/
theorem pathOf_inj (small : bn < 65536) (small' : bn' < 65536) (h : pathOf bn' <+: pathOf bn) : bn' = bn := by
  unfold pathOf at h
  split_ifs at h <;>
    simp only [List.cons_prefix_cons, List.prefix_nil, List.prefix_rfl, and_true, reduceCtorEq, and_false] at h <;>
    omega

theorem nodeAt_snoc : nodeAt s ip (p ++ [k]) = if nodeAt s ip p = .block 0 then .block 0
    else entries (s.disk (s.itab ip).dev) (s.itab ip).node (nodeAt s ip p) k :=
  Trie.find_snoc

theorem nodeAt_slot : nodeAt s ip [slot] = .block ((s.itab ip).node.addr slot) := rfl

/-- Every place but the root has a block number. -/
theorem nodeAt_block (some : p ≠ []) : ∃ b, nodeAt s ip p = .block b := by
  rcases List.eq_nil_or_concat' p with nil | ⟨init, k, last⟩
  · exact absurd nil some
  · rw [last, nodeAt_snoc]
    split
    · exact ⟨0, rfl⟩
    · cases nodeAt s ip init with
      | inode => exact ⟨_, rfl⟩
      | block b => exact ⟨_, rfl⟩

end Places

variable [Build]

/-- A file of a well formed file system, mounted as entry `m` with the free blocks `bs`: its
blocks are in the data area, each at one place, and neither free nor foreign. After an error the
file system is not used for allocations. -/
structure Laid (s : Kernel) (ip m : Nat) (bs : List Nat) (foreign : Nat → Prop) : Prop where
  found : fsTabGet s (s.itab ip).dev = some m
  mounted : (s.fstab m).fs.mounted ≠ 0
  pool : (s.fstab m).fs.mounted = SMOUNTED → Pool (s.disk (s.itab ip).dev) (s.fstab m).fs bs
  low : 0 < (s.fstab m).fs.isize
  high : (s.fstab m).fs.fsize < 65536
  apart : Trie.Apart (.block 0) (entries (s.disk (s.itab ip).dev) (s.itab ip).node) .inode BlockPath
  inside : ∀ p b, BlockPath p → nodeAt s ip p = .block b → b ≠ 0 →
    ((s.fstab m).fs.isize ≤ b ∧ b < (s.fstab m).fs.fsize) ∧ b ∉ bs ∧ ¬ foreign b
  spare : ∀ b ∈ bs, ¬ foreign b

/-- What a call on the file system mounted as entry `m` leaves, besides inodes, blocks, processes
and the list of free blocks. -/
structure Beside (s t : Kernel) (m : Nat) : Prop where
  io : t.io = s.io
  now : t.now = s.now
  patience : t.patience = s.patience
  cur : t.cur = s.cur
  oftab : t.oftab = s.oftab
  root : t.root = s.root
  rootDev : t.rootDev = s.rootDev
  mounts : ∀ k, k ≠ m → t.fstab k = s.fstab k
  mount : t.fstab m = { s.fstab m with fs := (t.fstab m).fs }
  isize : (t.fstab m).fs.isize = (s.fstab m).fs.isize
  fsize : (t.fstab m).fs.fsize = (s.fstab m).fs.fsize
  tinode : (t.fstab m).fs.tinode = (s.fstab m).fs.tinode
  mntpt : (t.fstab m).fs.mntpt = (s.fstab m).fs.mntpt

/-- The place of a block of the file, and not of an index block. -/
def Leaf (p : List Nat) : Prop := BlockPath p ∧ ∀ k, ¬ BlockPath (p ++ [k])

/-- What a call of `bmap` that follows `path` may change: places on the path that were empty. New
blocks of the file are clear. -/
structure Grows (s t : Kernel) (ip m : Nat) (foreign : Nat → Prop) (path : List Nat) : Prop extends Beside s t m where
  others : ∀ p, BlockPath p → ¬ p <+: path → nodeAt t ip p = nodeAt s ip p
  stays : ∀ p, BlockPath p → nodeAt s ip p ≠ .block 0 → nodeAt t ip p = nodeAt s ip p
  data : ∀ p b, Leaf p → nodeAt s ip p = .block b → b ≠ 0 → t.disk (s.itab ip).dev b = s.disk (s.itab ip).dev b
  blank : ∀ p b, Leaf p → nodeAt s ip p = .block 0 → nodeAt t ip p = .block b → b ≠ 0 →
    t.disk (s.itab ip).dev b = zeroBlock
  untouched : ∀ b, foreign b ∨ b < (s.fstab m).fs.isize → t.disk (s.itab ip).dev b = s.disk (s.itab ip).dev b
  devices : ∀ d, d ≠ (s.itab ip).dev → t.disk d = s.disk d
  inode : ∃ addr dirty, t.itab ip = { s.itab ip with
    node := { (s.itab ip).node with addr := addr }
    dirty := dirty }
  inodes : ∀ j, j ≠ ip → t.itab j = s.itab j

section Growing
variable {s t u : Kernel} {ip m a b k : Nat} {p path : List Nat} {bs rest : List Nat} {foreign : Nat → Prop}

omit [Build] in
theorem Beside.refl : Beside s s m :=
  ⟨rfl, rfl, rfl, rfl, rfl, rfl, rfl, fun _ _ => rfl, rfl, rfl, rfl, rfl, rfl⟩

omit [Build] in
theorem Beside.trans (first : Beside s t m) (second : Beside t u m) : Beside s u m where
  io := second.io.trans first.io
  now := second.now.trans first.now
  patience := second.patience.trans first.patience
  cur := second.cur.trans first.cur
  oftab := second.oftab.trans first.oftab
  root := second.root.trans first.root
  rootDev := second.rootDev.trans first.rootDev
  mounts k other := (second.mounts k other).trans (first.mounts k other)
  mount := by rw [second.mount, first.mount]
  isize := second.isize.trans first.isize
  fsize := second.fsize.trans first.fsize
  tinode := second.tinode.trans first.tinode
  mntpt := second.mntpt.trans first.mntpt

omit [Build] in
/-- Only the superblock of the entry is another one. -/
theorem beside_setFs {fs : Filesys} (isize : fs.isize = (s.fstab m).fs.isize) (fsize : fs.fsize = (s.fstab m).fs.fsize)
    (tinode : fs.tinode = (s.fstab m).fs.tinode) (mntpt : fs.mntpt = (s.fstab m).fs.mntpt) :
    Beside s (s.setFs m fun _ => fs) m := by
  have here : (s.setFs m fun _ => fs).fstab m = { s.fstab m with fs := fs } := put_same _ _ _
  refine ⟨rfl, rfl, rfl, rfl, rfl, rfl, rfl, fun k other => put_ne _ _ other, ?_, ?_, ?_, ?_, ?_⟩
  all_goals rw [here]
  · exact isize
  · exact fsize
  · exact tinode
  · exact mntpt

omit [Build] in
/-- The blocks, inodes, transfers and processes are no part of it. -/
theorem Beside.then {ptab : Nat → Proc} {disk : Nat → Nat → Block} {itab : Nat → Cinode} {n : Nat}
    (beside : Beside s t m) : Beside s { t with ptab := ptab, disk := disk, itab := itab, xfers := n } m :=
  ⟨beside.io, beside.now, beside.patience, beside.cur, beside.oftab, beside.root, beside.rootDev, beside.mounts,
    beside.mount, beside.isize, beside.fsize, beside.tinode, beside.mntpt⟩

omit [Build] in
theorem Grows.dev {foreign : Nat → Prop} (grows : Grows s t ip m foreign path) : (t.itab ip).dev = (s.itab ip).dev := by
  obtain ⟨_, _, same⟩ := grows.inode
  rw [same]

omit [Build] in
theorem Grows.mode (grows : Grows s t ip m foreign path) : (t.itab ip).node.mode = (s.itab ip).node.mode := by
  obtain ⟨_, _, same⟩ := grows.inode
  rw [same]

omit [Build] in
/-- A call that changes neither the inodes nor the blocks. -/
theorem Grows.of_same (itab : t.itab = s.itab) (disk : t.disk = s.disk) (beside : Beside s t m) :
    Grows s t ip m foreign path := by
  have same : ∀ p, nodeAt t ip p = nodeAt s ip p := by
    intro p
    unfold nodeAt
    rw [itab, disk]
  refine { beside with
    others := fun p _ _ => same p, stays := fun p _ _ => same p, data := ?_, blank := ?_, untouched := ?_,
    devices := ?_, inode := ⟨_, _, congrFun itab ip⟩, inodes := fun j _ => congrFun itab j }
  · intro p b _ _ _
    rw [disk]
  · intro p b _ null here real
    rw [same, null] at here
    injection here with here
    exact absurd here.symm real
  · intro b _
    rw [disk]
  · intro d _
    rw [disk]

omit [Build] in
theorem Grows.refl : Grows s s ip m foreign path := .of_same rfl rfl .refl

omit [Build] in
theorem Grows.trans (first : Grows s t ip m foreign path) (second : Grows t u ip m foreign path) :
    Grows s u ip m foreign path := by
  have dev := first.dev
  refine { first.toBeside.trans second.toBeside with
    others := ?_, stays := ?_, data := ?_, blank := ?_, untouched := ?_, devices := ?_, inode := ?_, inodes := ?_ }
  · intro p valid off
    exact (second.others p valid off).trans (first.others p valid off)
  · intro p valid real
    have same := first.stays p valid real
    exact (second.stays p valid (same ▸ real)).trans same
  · intro p b leaf here real
    have some : nodeAt s ip p ≠ .block 0 := by
      rw [here]
      intro no
      injection no with no
      exact real no
    have later := second.data p b leaf ((first.stays p leaf.1 some).trans here) real
    rw [dev] at later
    exact later.trans (first.data p b leaf here real)
  · intro p b leaf null here real
    by_cases still : nodeAt t ip p = .block 0
    · have later := second.blank p b leaf still here real
      rw [dev] at later
      exact later
    · have there : nodeAt t ip p = .block b := (second.stays p leaf.1 still).symm.trans here
      have later := second.data p b leaf there real
      rw [dev] at later
      exact later.trans (first.blank p b leaf null there real)
  · intro b theirs
    have later := second.untouched b (theirs.imp_right fun low => by
      rw [first.isize]
      exact low)
    rw [dev] at later
    exact later.trans (first.untouched b theirs)
  · intro d other
    exact (second.devices d (by rw [dev]; exact other)).trans (first.devices d other)
  · obtain ⟨_, _, same⟩ := first.inode
    obtain ⟨_, _, same'⟩ := second.inode
    rw [same', same]
    exact ⟨_, _, rfl⟩
  · intro j other
    exact (second.inodes j other).trans (first.inodes j other)

omit [Build] in
/-- A longer path allows more. -/
theorem Grows.mono {path' : List Nat} (grows : Grows s t ip m foreign path) (h : path <+: path') :
    Grows s t ip m foreign path' :=
  { grows with others := fun p valid off => grows.others p valid (fun within => off (within.trans h)) }

theorem Laid.of_same (laid : Laid s ip m bs foreign) (itab : t.itab = s.itab) (disk : t.disk = s.disk)
    (isize : (t.fstab m).fs.isize = (s.fstab m).fs.isize) (fsize : (t.fstab m).fs.fsize = (s.fstab m).fs.fsize)
    (found : fsTabGet t (s.itab ip).dev = some m) (mounted : (t.fstab m).fs.mounted ≠ 0)
    (pool : (t.fstab m).fs.mounted = SMOUNTED → Pool (s.disk (s.itab ip).dev) (t.fstab m).fs bs) :
    Laid t ip m bs foreign := by
  have same : ∀ p, nodeAt t ip p = nodeAt s ip p := by
    intro p
    unfold nodeAt
    rw [itab, disk]
  refine ⟨?_, mounted, ?_, ?_, ?_, ?_, ?_, laid.spare⟩
  · rw [itab]
    exact found
  · rw [itab, disk]
    exact pool
  · rw [isize]
    exact laid.low
  · rw [fsize]
    exact laid.high
  · rw [itab, disk]
    exact laid.apart
  · intro p b valid here real
    rw [same] at here
    rw [isize, fsize]
    exact laid.inside p b valid here real

/-- The block `a` of the free list was put at an empty place of the tree. -/
theorem Laid.fill (laid : Laid s ip m (a :: rest) foreign)
    (filled : Trie.Filled (.block 0) (entries (s.disk (s.itab ip).dev) (s.itab ip).node)
      (entries (t.disk (t.itab ip).dev) (t.itab ip).node) .inode BlockPath p k (.block a))
    (free : (s.fstab m).fs.isize ≤ a ∧ a < (s.fstab m).fs.fsize) (new : a ∉ rest)
    (dev : (t.itab ip).dev = (s.itab ip).dev)
    (isize : (t.fstab m).fs.isize = (s.fstab m).fs.isize) (fsize : (t.fstab m).fs.fsize = (s.fstab m).fs.fsize)
    (found : fsTabGet t (s.itab ip).dev = some m) (mounted : (t.fstab m).fs.mounted ≠ 0)
    (pool : (t.fstab m).fs.mounted = SMOUNTED → Pool (t.disk (s.itab ip).dev) (t.fstab m).fs rest) :
    Laid t ip m rest foreign ∧
      ∀ q, BlockPath q → nodeAt t ip q = if q = p ++ [k] then .block a else nodeAt s ip q := by
  have closed : ∀ q j, BlockPath (q ++ [j]) → BlockPath q := fun _ _ => blockPath_init
  have places : ∀ q, BlockPath q → nodeAt t ip q = if q = p ++ [k] then .block a else nodeAt s ip q :=
    filled.find closed
  refine ⟨⟨?_, mounted, ?_, ?_, ?_, filled.apart laid.apart closed, ?_, ?_⟩, places⟩
  · rw [dev]
    exact found
  · rw [dev]
    exact pool
  · rw [isize]
    exact laid.low
  · rw [fsize]
    exact laid.high
  · intro q b valid here real
    rw [places q valid] at here
    rw [isize, fsize]
    split at here
    · injection here with same
      rw [← same]
      exact ⟨free, new, laid.spare a List.mem_cons_self⟩
    · obtain ⟨range, off, own⟩ := laid.inside q b valid here real
      exact ⟨range, fun member => off (List.mem_cons_of_mem a member), own⟩
  · intro b member
    exact laid.spare b (List.mem_cons_of_mem a member)

omit [Build] in
/-- Only the place that was filled is another one. -/
theorem Grows.of_fill (empty : nodeAt s ip (p ++ [k]) = .block 0)
    (places : ∀ q, BlockPath q → nodeAt t ip q = if q = p ++ [k] then .block a else nodeAt s ip q)
    (data : ∀ q b, Leaf q → nodeAt s ip q = .block b → b ≠ 0 → t.disk (s.itab ip).dev b = s.disk (s.itab ip).dev b)
    (clear : Leaf (p ++ [k]) → t.disk (s.itab ip).dev a = zeroBlock)
    (untouched : ∀ b, foreign b ∨ b < (s.fstab m).fs.isize → t.disk (s.itab ip).dev b = s.disk (s.itab ip).dev b)
    (devices : ∀ d, d ≠ (s.itab ip).dev → t.disk d = s.disk d)
    (inode : ∃ addr dirty, t.itab ip = { s.itab ip with
      node := { (s.itab ip).node with addr := addr }
      dirty := dirty })
    (inodes : ∀ j, j ≠ ip → t.itab j = s.itab j) (beside : Beside s t m) :
    Grows s t ip m foreign (p ++ [k]) := by
  refine { beside with
    others := ?_, stays := ?_, data := data, blank := ?_, untouched := untouched, devices := devices,
    inode := inode, inodes := inodes }
  · intro q valid off
    rw [places q valid]
    exact if_neg (fun same : q = p ++ [k] => off (same ▸ List.prefix_refl _))
  · intro q valid real
    rw [places q valid]
    exact if_neg (fun same : q = p ++ [k] => real (same ▸ empty))
  · intro q b leaf null here real
    rw [places q leaf.1] at here
    split at here
    · rename_i same
      injection here with here
      rw [← here]
      exact clear (same ▸ leaf)
    · rw [null] at here
      injection here with here
      exact absurd here.symm real

end Growing

/-! ## The allocation of a block -/

section Allocating
variable {s t : Kernel} {ip m a : Nat} {bs : List Nat} {foreign : Nat → Prop} {stop : Stop → Prop}

/-- `blk_alloc` had no block to give. -/
structure Refused (s t : Kernel) (ip m : Nat) (bs : List Nat) (foreign : Nat → Prop) : Prop where
  laid : Laid t ip m bs foreign
  itab : t.itab = s.itab
  disk : t.disk = s.disk
  beside : Beside s t m
  error : ∃ e, e ≠ 0 ∧ t.ptab = (s.withError e).ptab

theorem Laid.refused (laid : Laid s ip m bs foreign) (fs : Filesys) (n : Nat) {e : Nat} (real : e ≠ 0)
    (mounted : fs.mounted ≠ 0) (pool : fs.mounted = SMOUNTED → Pool (s.disk (s.itab ip).dev) fs bs)
    (isize : fs.isize = (s.fstab m).fs.isize) (fsize : fs.fsize = (s.fstab m).fs.fsize)
    (tinode : fs.tinode = (s.fstab m).fs.tinode) (mntpt : fs.mntpt = (s.fstab m).fs.mntpt) :
    Refused s (((s.setFs m fun _ => fs).spent n).withError e) ip m bs foreign := by
  have here : ((((s.setFs m fun _ => fs).spent n).withError e).fstab m).fs = fs := setFs_fs (f := fun _ => fs)
  have found := (fsTabGet_setFs (m := m) (f := fun _ => fs)).trans laid.found
  refine ⟨laid.of_same rfl rfl ?_ ?_ found ?_ ?_, rfl, rfl, (beside_setFs isize fsize tinode mntpt).then, e, real, rfl⟩
  all_goals rw [here]
  · exact isize
  · exact fsize
  · exact mounted
  · exact pool

theorem Laid.blkAlloc (laid : Laid s ip m bs foreign) (nolost : NoLost s) :
    wp stop (blkAlloc (s.itab ip).dev) (fun a t =>
      (∃ rest, bs = a :: rest ∧ a ≠ 0 ∧ (s.fstab m).fs.mounted = SMOUNTED ∧ Took s t (s.itab ip).dev m a) ∨
      a = 0 ∧ Refused s t ip m bs foreign) s := by
  have evicts : ∀ n, Evicts s n := fun n k _ => nolost (s.xfers + k)
  by_cases good : (s.fstab m).fs.mounted = SMOUNTED
  · have pool := laid.pool good
    cases bs with
    | nil =>
      refine wp_mono (pool.exhausted laid.found) ?_
      rintro a t ⟨none_left, fs, stamped, after⟩
      have pool' := pool.stamped stamped
      obtain ⟨_, _, _, same⟩ := stamped
      refine Or.inr ⟨none_left, ?_⟩
      rw [after]
      refine laid.refused fs 0 (by decide) ?_ (fun _ => pool') ?_ ?_ ?_ ?_
      all_goals rw [same]
      exact laid.mounted
    | cons b bs =>
      refine wp_mono (pool.blkAlloc laid.found (evicts _)) ?_
      rintro a t (⟨first, _, took⟩ | ⟨none_left, _, _, fs, stamped, after⟩)
      · rw [first]
        exact Or.inl ⟨bs, rfl, pool.first.2, good, took⟩
      · obtain ⟨_, _, _, same⟩ := stamped
        refine Or.inr ⟨none_left, ?_⟩
        rw [after]
        refine laid.refused _ 1 (by decide) Nat.one_ne_zero (fun no => by cases no) ?_ ?_ ?_ ?_
        all_goals rw [same]
  · unfold Fuzix.blkAlloc
    rw [wp_bind]
    refine wp_getdev laid.found laid.mounted ?_
    intro fs stamped
    obtain ⟨_, _, _, same⟩ := stamped
    have bad : fs.mounted ≠ SMOUNTED := by
      rw [same]
      exact good
    rw [wp_bind, wp_get, setFs_fs, wp_ite]
    refine ⟨fun _ => ?_, fun no => absurd (decide_eq_true bad) no⟩
    unfold noSpace
    rw [wp_bind, wp_setError, wp_pure]
    refine Or.inr ⟨rfl, ?_⟩
    refine laid.refused fs 0 (by decide) ?_ (fun no => absurd no bad) ?_ ?_ ?_ ?_
    all_goals rw [same]
    exact laid.mounted

/-- What `blk_alloc` leaves when it hands out `a`. -/
theorem Took.after (took : Took s t (s.itab ip).dev m a) : t.itab = s.itab ∧ t.ptab = s.ptab ∧
    t.disk = put₂ s.disk (s.itab ip).dev a zeroBlock ∧ (t.fstab m).fs.mounted = (s.fstab m).fs.mounted ∧
    Beside s t m := by
  obtain ⟨fs, ⟨_, _, _, same⟩, after⟩ := took
  have here : (t.fstab m).fs = fs.taken (s.disk (s.itab ip).dev) := by
    rw [after]
    exact setFs_fs (f := fun _ => fs.taken (s.disk (s.itab ip).dev))
  obtain ⟨mounted, isize, fsize, _, tinode, mntpt⟩ := taken_fields fs (s.disk (s.itab ip).dev)
  rw [here, mounted, after]
  refine ⟨rfl, rfl, rfl, by rw [same], (beside_setFs (isize.trans ?_) (fsize.trans ?_) (tinode.trans ?_)
    (mntpt.trans ?_)).then⟩
  all_goals rw [same]

variable {u : Kernel} {k : Nat} {p : List Nat} {rest : List Nat}

/-- The new block went to the empty entry `k` of the node at `p`. -/
theorem Laid.grown (laid : Laid s ip m (a :: rest) foreign) (good : (s.fstab m).fs.mounted = SMOUNTED)
    (took : Took s t (s.itab ip).dev m a)
    (filled : Trie.Filled (.block 0) (entries (s.disk (s.itab ip).dev) (s.itab ip).node)
      (entries (u.disk (u.itab ip).dev) (u.itab ip).node) .inode BlockPath p k (.block a))
    (empty : nodeAt s ip (p ++ [k]) = .block 0) (valid : BlockPath (p ++ [k]))
    (fstab : u.fstab = t.fstab) (beside : Beside t u m)
    (disk : ∀ b, b ∈ rest ∨ foreign b ∨ b < (s.fstab m).fs.isize →
      u.disk (s.itab ip).dev b = s.disk (s.itab ip).dev b)
    (data : ∀ q b, Leaf q → nodeAt s ip q = .block b → b ≠ 0 → u.disk (s.itab ip).dev b = s.disk (s.itab ip).dev b)
    (clear : Leaf (p ++ [k]) → u.disk (s.itab ip).dev a = zeroBlock)
    (devices : ∀ d, d ≠ (s.itab ip).dev → u.disk d = t.disk d)
    (inode : ∃ addr dirty, u.itab ip = { s.itab ip with
      node := { (s.itab ip).node with addr := addr }
      dirty := dirty })
    (inodes : ∀ j, j ≠ ip → u.itab j = s.itab j) :
    Laid u ip m rest foreign ∧ Grows s u ip m foreign (p ++ [k]) ∧ nodeAt u ip (p ++ [k]) = .block a := by
  obtain ⟨-, -, cleared, mounted, beside'⟩ := took.after
  have pool := laid.pool good
  obtain ⟨pool', found⟩ := took.pool laid.found pool
  have apart := List.nodup_cons.mp pool.distinct
  have table : fsTabGet u (s.itab ip).dev = some m := by
    unfold fsTabGet at found ⊢
    rw [fstab]
    exact found
  have links : ∀ b ∈ rest, u.disk (s.itab ip).dev b = t.disk (s.itab ip).dev b := by
    intro b member
    rw [disk b (Or.inl member), cleared, put₂_ne]
    exact fun no => apart.1 (no.2 ▸ member)
  have range := pool.inside a List.mem_cons_self
  have usable : (u.fstab m).fs.mounted ≠ 0 := by
    rw [fstab, mounted]
    exact laid.mounted
  have all := beside'.trans beside
  have dev : (u.itab ip).dev = (s.itab ip).dev := by
    obtain ⟨_, _, same⟩ := inode
    rw [same]
  obtain ⟨laid', places⟩ := laid.fill filled range apart.1 dev all.isize all.fsize table usable fun _ => by
    rw [fstab]
    exact pool'.congr rfl rfl rfl rfl rfl links
  have devices' : ∀ d, d ≠ (s.itab ip).dev → u.disk d = s.disk d := by
    intro d other
    rw [devices d other, cleared]
    funext b
    exact put₂_ne _ _ fun no => other no.1
  refine ⟨laid', .of_fill empty places data clear (fun b theirs => disk b (Or.inr theirs)) devices' inode inodes all, ?_⟩
  rw [places _ valid, if_pos rfl]

/-- The free block is no node of the tree. -/
theorem Laid.fresh (laid : Laid s ip m (a :: rest) foreign) (real : a ≠ 0) (q : List Nat) (valid : BlockPath q) :
    nodeAt s ip q ≠ .block a := by
  intro same
  exact (laid.inside q a valid same real).2.1 List.mem_cons_self

/-- A slot of the inode gets the new block. -/
theorem Laid.fill_slot (laid : Laid s ip m (a :: rest) foreign) (real : a ≠ 0)
    (good : (s.fstab m).fs.mounted = SMOUNTED) (took : Took s t (s.itab ip).dev m a) {slot : Nat} (less : slot < 20)
    (empty : (s.itab ip).node.addr slot = 0)
    (after : u = { t with itab := put t.itab ip { t.itab ip with
      node := { (t.itab ip).node with addr := put (t.itab ip).node.addr slot a }
      dirty := true } }) :
    Laid u ip m rest foreign ∧ Grows s u ip m foreign [slot] ∧ nodeAt u ip [slot] = .block a := by
  obtain ⟨itab, -, cleared, -⟩ := took.after
  have pool := laid.pool good
  have apart := List.nodup_cons.mp pool.distinct
  have range := pool.inside a List.mem_cons_self
  have inode : u.itab ip = { s.itab ip with
      node := { (s.itab ip).node with addr := put (s.itab ip).node.addr slot a }
      dirty := true } := by
    rw [after, itab]
    exact put_same _ _ _
  have disk : ∀ b, b ≠ a → u.disk (s.itab ip).dev b = s.disk (s.itab ip).dev b := by
    intro b other
    rw [after]
    show t.disk _ b = _
    rw [cleared, put₂_ne]
    exact fun no => other no.2
  have zero : u.disk (s.itab ip).dev a = zeroBlock := by
    rw [after]
    show t.disk _ a = _
    rw [cleared, put₂_same]
  have dev : (u.itab ip).dev = (s.itab ip).dev := by rw [inode]
  refine laid.grown (p := []) good took ?_ ?_ ?_ ?_ ?_ ?_ ?_ ?_ ?_ ⟨_, _, inode⟩ ?_
  · rw [dev]
    refine laid.apart.filled trivial (by intro no; cases no) (congrArg Node.block empty) ?_ ?_ ?_ ?_ ?_ ?_
    · show Node.block ((u.itab ip).node.addr slot) = .block a
      rw [inode]
      exact congrArg Node.block (put_same _ _ _)
    · intro no
      injection no with no
      exact real no
    · exact laid.fresh real
    · intro j
      show Node.block (word (u.disk _ a) j) = .block 0
      rw [zero]
      rfl
    · intro j other
      show Node.block ((u.itab ip).node.addr j) = .block ((s.itab ip).node.addr j)
      rw [inode]
      exact congrArg Node.block (put_ne _ _ other)
    · intro q valid _ other j
      have fresh := laid.fresh real q valid
      change nodeAt s ip q ≠ .inode at other
      change entries _ _ (nodeAt s ip q) j = entries _ _ (nodeAt s ip q) j
      cases here : nodeAt s ip q with
      | inode => exact absurd here other
      | block b =>
        have clear : b ≠ a := fun same => fresh (here.trans (congrArg Node.block same))
        show Node.block (word (u.disk _ b) j) = .block (word (s.disk _ b) j)
        rw [disk b clear]
  · exact congrArg Node.block empty
  · exact ⟨less, Nat.zero_le _, by simp⟩
  · rw [after]
  · rw [after]
    exact Beside.refl.then
  · rintro b (member | theirs | low)
    · exact disk b fun same => apart.1 (same ▸ member)
    · exact disk b fun same => laid.spare a List.mem_cons_self (same ▸ theirs)
    · exact disk b (by omega)
  · intro q b leaf here _
    exact disk b fun same => laid.fresh real q leaf.1 (same ▸ here)
  · intro _
    exact zero
  · intro d _
    rw [after]
  · intro j other
    rw [after, itab]
    exact put_ne _ _ other

/-- An entry of an index block gets the new block. -/
theorem Laid.fill_entry (laid : Laid s ip m (a :: rest) foreign) (real : a ≠ 0)
    (good : (s.fstab m).fs.mounted = SMOUNTED) (took : Took s t (s.itab ip).dev m a) {nb : Nat}
    (here : nodeAt s ip p = .block nb) (index : nb ≠ 0) (valid : BlockPath (p ++ [k]))
    (empty : word (s.disk (s.itab ip).dev nb) k = 0)
    (after : u = t.wrote (s.itab ip).dev nb (setWord (s.disk (s.itab ip).dev nb) k a)) :
    Laid u ip m rest foreign ∧ Grows s u ip m foreign (p ++ [k]) ∧ nodeAt u ip (p ++ [k]) = .block a := by
  obtain ⟨itab, -, cleared, -⟩ := took.after
  have pool := laid.pool good
  have apart := List.nodup_cons.mp pool.distinct
  have range := pool.inside a List.mem_cons_self
  have place := blockPath_init valid
  obtain ⟨data, off, own⟩ := laid.inside p nb place here index
  have small : a % 65536 = a := by
    have high := laid.high
    exact Nat.mod_eq_of_lt (by omega)
  have inode : u.itab = s.itab := by
    rw [after]
    exact itab
  have written : u.disk (s.itab ip).dev nb = setWord (s.disk (s.itab ip).dev nb) k a := by
    rw [after]
    exact put₂_same _ _ _ _
  have disk : ∀ b, b ≠ a → b ≠ nb → u.disk (s.itab ip).dev b = s.disk (s.itab ip).dev b := by
    intro b other other'
    rw [after]
    refine (put₂_ne _ _ fun no => other' no.2).trans ?_
    rw [cleared, put₂_ne]
    exact fun no => other no.2
  have clear : nb ≠ a := fun same => off (same ▸ List.mem_cons_self)
  have zero : u.disk (s.itab ip).dev a = zeroBlock := by
    rw [after]
    refine (put₂_ne _ _ fun no => clear no.2.symm).trans ?_
    rw [cleared, put₂_same]
  have blank : nodeAt s ip (p ++ [k]) = .block 0 := by
    rw [nodeAt_snoc, here, if_neg (by intro no; injection no with no; exact index no)]
    exact congrArg Node.block empty
  have dev : (u.itab ip).dev = (s.itab ip).dev := by rw [inode]
  refine laid.grown good took ?_ blank valid ?_ ?_ ?_ ?_ ?_ ?_ ⟨_, _, congrFun inode ip⟩ ?_
  · rw [dev]
    have find : Trie.find (.block 0) (entries (s.disk (s.itab ip).dev) (s.itab ip).node) .inode p = .block nb := here
    refine laid.apart.filled place ?_ ?_ ?_ ?_ ?_ ?_ ?_ ?_
    · rw [find]
      intro no
      injection no with no
      exact index no
    · rw [find]
      exact congrArg Node.block empty
    · rw [find]
      show Node.block (word (u.disk _ nb) k) = .block a
      rw [written, word_setWord, small]
    · intro no
      injection no with no
      exact real no
    · exact laid.fresh real
    · intro j
      show Node.block (word (u.disk _ a) j) = .block 0
      rw [zero]
      rfl
    · intro j other
      rw [find]
      show Node.block (word (u.disk _ nb) j) = .block (word (s.disk _ nb) j)
      rw [written, word_setWord_ne _ _ other]
    · intro q valid' _ other j
      have fresh := laid.fresh real q valid'
      rw [find] at other
      change nodeAt s ip q ≠ .block nb at other
      change entries _ _ (nodeAt s ip q) j = entries _ _ (nodeAt s ip q) j
      cases there : nodeAt s ip q with
      | inode =>
        show Node.block ((u.itab ip).node.addr j) = .block ((s.itab ip).node.addr j)
        rw [inode]
      | block b =>
        have clear : b ≠ a := fun same => fresh (there.trans (congrArg Node.block same))
        have clear' : b ≠ nb := fun same => other (there.trans (congrArg Node.block same))
        show Node.block (word (u.disk _ b) j) = .block (word (s.disk _ b) j)
        rw [disk b clear clear']
  · rw [after]
    rfl
  · rw [after]
    exact Beside.refl.then
  · rintro b (member | theirs | low)
    · exact disk b (fun same => apart.1 (same ▸ member)) fun same => off (same ▸ List.mem_cons_of_mem a member)
    · exact disk b (fun same => laid.spare a List.mem_cons_self (same ▸ theirs)) fun same => own (same ▸ theirs)
    · exact disk b (by omega) (by omega)
  · intro q b leaf there _
    refine disk b (fun same => laid.fresh real q leaf.1 (same ▸ there)) fun same => ?_
    rw [same] at there
    have only := laid.apart q p leaf.1 place (there.trans here.symm) (by
      show nodeAt s ip q ≠ .block 0
      rw [there]
      intro no
      injection no with no
      exact index no)
    exact leaf.2 k (only ▸ valid)
  · intro _
    exact zero
  · intro d other
    rw [after]
    funext b
    exact put₂_ne _ _ fun no => other no.1
  · intro j _
    rw [inode]

end Allocating

end Fuzix
