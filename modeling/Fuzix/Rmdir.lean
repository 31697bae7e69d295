import Mathlib.Data.List.TakeWhile
import Fuzix.DirectoryLinks
import Fuzix.Trunc

/-!
# Removing directories

`_rmdir` takes a directory for empty when its link count is two. The count has one link for each
subdirectory, and none for what else is in it.
-/

namespace Fuzix

open Wp Table Words

/-- One reference less. -/
def Kernel.unref (s : Kernel) (i : Nat) : Kernel :=
  { s with itab := put s.itab i { s.itab i with refs := (s.itab i).refs - 1 } }

theorem unref_same {s : Kernel} {i : Nat} : (s.unref i).itab i = { s.itab i with refs := (s.itab i).refs - 1 } :=
  put_same _ _ _

theorem unref_other {s : Kernel} {i j : Nat} (other : j ≠ i) : (s.unref i).itab j = s.itab j := put_ne _ _ other

variable [Build]

section Release
variable {s t : Kernel} {i m : Nat} {bs : List Nat} {stop : Stop → Prop}

/-- `i_deref` of an inode that stays: somebody else has it, or it has links and is on the device as
it is. -/
theorem wp_iDeref_stays (good : (s.itab i).magic = CMAGIC) (held : (s.itab i).refs ≠ 0)
    (stays : (s.itab i).refs = 1 → (s.itab i).node.nlink ≠ 0 ∧ (s.itab i).dirty = false) {Q : Unit → Kernel → Prop} :
    wp stop (iDeref i) Q s ↔ Q () (s.unref i) := by
  have skip : ¬ ((s.itab i).refs = 1 ∧ (s.itab i).node.nlink = 0 ∧ ownsBlocks (s.itab i).node = true) :=
    fun last => (stays last.1).1 last.2.1
  have quiet : ¬ (((s.unref i).itab i).refs = 0 ∧ ((s.unref i).itab i).dirty = true) := by
    rw [unref_same]
    intro last
    have one : (s.itab i).refs = 1 := by
      have none' := last.1
      dsimp only at none'
      omega
    exact absurd last.2 (by rw [(stays one).2]; decide)
  unfold iDeref magic
  rw [wp_bind, wp_bind, wp_get, if_neg (fun no => no good), wp_pure, wp_bind, wp_get]
  dsimp only
  rw [if_neg held, wp_bind, wp_modifyInode, wp_bind]
  unfold onlyIf
  rw [if_neg skip, wp_pure]
  unfold iRelease
  rw [wp_bind, wp_get]
  change wp stop (if ((s.unref i).itab i).refs = 0 ∧ ((s.unref i).itab i).dirty = true then _ else _) Q (s.unref i) ↔ _
  rw [if_neg quiet, wp_pure]

/-- What `i_deref` leaves of an inode without links that nobody else has. -/
structure Gone (s t : Kernel) (i m : Nat) (bs : List Nat) : Prop where
  banked : Banked t (s.itab i).dev m (fileBlocks (s.disk (s.itab i).dev) (s.itab i).node ++ bs)
  inode : (t.itab i).refs = 0 ∧ (t.itab i).node.mode = 0 ∧ (t.itab i).node.nlink = 0
  inodes : ∀ j, j ≠ i → t.itab j = s.itab j
  onDisk : (Dinode.load (t.disk (s.itab i).dev ((s.itab i).num / 8 + 2)) (s.itab i).num).mode = 0 ∧
    (Dinode.load (t.disk (s.itab i).dev ((s.itab i).num / 8 + 2)) (s.itab i).num).nlink = 0
  others : ∀ b, b ∉ fileBlocks (s.disk (s.itab i).dev) (s.itab i).node → b ≠ (s.itab i).num / 8 + 2 →
    t.disk (s.itab i).dev b = s.disk (s.itab i).dev b
  devices : ∀ d, d ≠ (s.itab i).dev → t.disk d = s.disk d
  tinode : (t.fstab m).fs.tinode = ((s.fstab m).fs.tinode + 1) % 65536

omit [Build] in
theorem load_store_mode (d : Dinode) (b : Block) (ino : Nat) : (Dinode.load (d.store b ino) ino).mode = d.mode % 65536 ∧
    (Dinode.load (d.store b ino) ino).nlink = d.nlink % 65536 :=
  ⟨store_word d b ino (by decide : 0 < 32), store_word d b ino (by decide : 1 < 32)⟩

theorem Owned.iDeref (owned : Owned s i m bs) (sure : NoFaults s) (good : (s.itab i).magic = CMAGIC)
    (last : (s.itab i).refs = 1) (unlinked : (s.itab i).node.nlink = 0) (owns : ownsBlocks (s.itab i).node = true)
    (writable : (s.itab i).rdonly = false) (below : (s.itab i).num / 8 + 2 < (s.fstab m).fs.isize)
    (freeable : 2 ≤ (s.itab i).num ∧ (s.itab i).num < inodeLimit (s.fstab m).fs) :
    wp stop (iDeref i) (fun _ t => Gone s t i m bs) s := by
  unfold Fuzix.iDeref magic
  rw [wp_bind, wp_bind, wp_get, if_neg (fun no => no good), wp_pure, wp_bind, wp_get]
  dsimp only
  rw [if_neg (by omega), wp_bind, wp_modifyInode, wp_bind]
  unfold onlyIf
  rw [if_pos ⟨last, unlinked, owns⟩, wp_discard]
  change wp stop (Fuzix.fTrunc i) _ (s.unref i)
  have inode : (s.unref i).itab i = { s.itab i with refs := (s.itab i).refs - 1 } := unref_same
  have dev : ((s.unref i).itab i).dev = (s.itab i).dev := by rw [inode]
  have node : ((s.unref i).itab i).node = (s.itab i).node := by rw [inode]
  have owned' : Owned (s.unref i) i m bs := by
    refine ⟨?_, ?_, ?_⟩
    · rw [dev]
      exact ⟨owned.banked.found, owned.banked.pool, owned.banked.words, owned.banked.low, owned.banked.high⟩
    · rw [dev, node]
      exact owned.distinct
    · rw [dev, node]
      exact owned.inside
  refine wp_mono (owned'.fTrunc sure (by rw [inode]; exact writable)) ?_
  rintro _ t ⟨-, banked, truncated⟩
  obtain ⟨isize, -⟩ := truncated.kept.sizes
  have here : t.itab i = { s.itab i with
      refs := 0, node := { (s.itab i).node with addr := fun _ => 0, size := 0 }, dirty := true } := by
    rw [truncated.itab, put_same, inode, last]
    rfl
  rw [dev, node] at banked
  have others := truncated.others
  have devices := truncated.devices
  rw [dev, node] at others
  rw [dev] at devices
  have release : wp stop (Fuzix.iRelease i) (fun _ u => NoBlocks t u i m
      (fileBlocks (s.disk (s.itab i).dev) (s.itab i).node ++ bs) ∧ ((t.itab i).refs = 0 → (t.itab i).node.nlink = 0 →
        Dropped t u i m (fileBlocks (s.disk (s.itab i).dev) (s.itab i).node ++ bs))) t := by
    refine Banked.iRelease ?_ (sure.of_io truncated.io) ?_ ?_ ?_ ?_ (s.itab i) ?_
    all_goals rw [here]
    · exact banked
    · exact good
    · show _ < (t.fstab m).fs.isize
      rw [isize]
      exact below
    · intro _
      show 2 ≤ (s.itab i).num ∧ (s.itab i).num < ((t.fstab m).fs.isize - 2) * 8
      rw [isize]
      exact freeable
    · rfl
  refine wp_mono release ?_
  rintro _ u ⟨-, dropped⟩
  have dropped := dropped (by rw [here]) (by rw [here]; exact unlinked)
  have banked' := dropped.banked
  have disk := dropped.disk
  have itab := dropped.itab
  rw [here] at banked' disk itab
  refine ⟨banked', ?_, ?_, ?_, ?_, ?_, ?_⟩
  · rw [itab, put_same]
    exact ⟨rfl, rfl, unlinked⟩
  · intro j other
    rw [itab, put_ne _ _ other, truncated.itab, put_ne _ _ other, unref_other other]
  · rw [disk, put₂_same, (load_store_mode _ _ _).1, (load_store_mode _ _ _).2]
    dsimp only
    rw [unlinked]
    exact ⟨rfl, rfl⟩
  · intro b off apart
    rw [disk, put₂_ne _ _ fun no => apart no.2]
    exact others b off
  · intro d other
    rw [disk]
    refine Eq.trans ?_ (devices d other)
    funext b
    exact put₂_ne _ _ fun no => other no.1
  · rw [dropped.tinode]
    obtain ⟨_, _, _, _, _, _, same⟩ := truncated.kept.fs
    rw [same]
    rfl

end Release

/-! ## The entries of a directory -/

/-- The inode of this number: the one in memory, or else the one on the device. -/
def inodeOf (s : Kernel) (dev ino : Nat) : Dinode :=
  match iFind s dev ino with
  | .found j => (s.itab j).node
  | _ => Dinode.load (s.disk dev (ino / 8 + 2)) ino

/-- The entries besides `.` and `..`. -/
def ownEntries (s : Kernel) (i : Nat) : List Nat :=
  (List.range (dirSlots s i).count).filter fun e => (dirSlots s i).key e ∉ [[], nameKey dot, nameKey dotdot]

/-- The entry names a directory. -/
def isSubdir (s : Kernel) (i e : Nat) : Bool :=
  fmt (inodeOf s (s.itab i).dev ((dirSlots s i).value e)).mode = F_DIR

def OnlyDirs (s : Kernel) (i : Nat) : Prop := ∀ e ∈ ownEntries s i, isSubdir s i e = true

/-- The live entries are `.` and `..`. -/
def EmptyDir (s : Kernel) (i : Nat) : Prop :=
  ∀ name, (dirSlots s i).lookup [] name ≠ none ↔ name = nameKey dot ∨ name = nameKey dotdot

/-- A directory with its own two entries, and a link for each subdirectory. -/
structure Tallied (s : Kernel) (i : Nat) : Prop where
  unique : (dirSlots s i).Unique []
  self : (dirSlots s i).lookup [] (nameKey dot) ≠ none
  up : (dirSlots s i).lookup [] (nameKey dotdot) ≠ none
  links : (s.itab i).node.nlink = 2 + ((ownEntries s i).filter (isSubdir s i)).length

section Entries
variable {s : Kernel} {i : Nat}

omit [Build] in
theorem emptyDir_iff (unique : (dirSlots s i).Unique []) (self : (dirSlots s i).lookup [] (nameKey dot) ≠ none)
    (up : (dirSlots s i).lookup [] (nameKey dotdot) ≠ none) : EmptyDir s i ↔ ownEntries s i = [] := by
  constructor
  · intro empty
    refine List.eq_nil_iff_forall_not_mem.mpr ?_
    intro e member
    obtain ⟨range, own⟩ := List.mem_filter.mp member
    have own := of_decide_eq_true own
    simp only [List.mem_cons, List.not_mem_nil, or_false, not_or] at own
    have found : (dirSlots s i).lookup [] ((dirSlots s i).key e) = some ((dirSlots s i).value e) :=
      (Slots.lookup_some unique).mpr ⟨own.1, e, List.mem_range.mp range, rfl, rfl⟩
    rcases (empty _).mp (by rw [found]; exact Option.some_ne_none _) with no | no
    · exact own.2.1 no
    · exact own.2.2 no
  · intro none' name
    constructor
    · intro some
      by_contra other
      obtain ⟨ino, found⟩ := Option.ne_none_iff_exists'.mp some
      obtain ⟨real, e, less, here, -⟩ := (Slots.lookup_some unique).mp found
      have own : e ∈ ownEntries s i := by
        refine List.mem_filter.mpr ⟨List.mem_range.mpr less, ?_⟩
        rw [decide_eq_true_eq, here]
        simp only [List.mem_cons, List.not_mem_nil, or_false, not_or]
        exact ⟨real, not_or.mp other⟩
      rw [none'] at own
      exact List.not_mem_nil own
    · rintro (same | same)
      · exact same ▸ self
      · exact same ▸ up

/-- With two links a directory has no subdirectory, and is empty when it has nothing else. -/
theorem Tallied.empty (tallied : Tallied s i) (two : (s.itab i).node.nlink = 2) : EmptyDir s i ↔ OnlyDirs s i := by
  rw [emptyDir_iff tallied.unique tallied.self tallied.up]
  have links := tallied.links
  have none' : (ownEntries s i).filter (isSubdir s i) = [] := List.eq_nil_of_length_eq_zero (by omega)
  constructor
  · intro empty e member
    rw [empty] at member
    exact absurd member List.not_mem_nil
  · intro only
    rw [← List.filter_eq_self.mpr only]
    exact none'

end Entries

/-! ## The last steps of `_rmdir` -/

/-- Both inodes were given their new counts and written to the device. -/
structure Marked (s t : Kernel) (p i : Nat) : Prop where
  io : t.io = s.io
  fstab : t.fstab = s.fstab
  parent : t.itab p = { s.itab p with
    node := { (s.itab p).node with nlink := if (s.itab p).node.nlink = 0 then 1 else (s.itab p).node.nlink - 1 }
    dirty := false }
  child : ∃ atime mtime ctime, t.itab i = { s.itab i with
    node := { (s.itab i).node with nlink := 0, atime := atime, mtime := mtime, ctime := ctime }
    dirty := false }
  inodes : ∀ j, j ≠ p → j ≠ i → t.itab j = s.itab j
  disk : ∀ d b, ¬ (d = (s.itab p).dev ∧ b = (s.itab p).num / 8 + 2) → ¬ (d = (s.itab i).dev ∧ b = (s.itab i).num / 8 + 2) →
    t.disk d b = s.disk d b

/-- The last steps of `_rmdir`. -/
def rmdirEnd (p i : Nat) : K (Option Nat) := do
  modifyNode i (fun d => { d with nlink := 0 })
  modifyNode p (fun d => { d with nlink := if d.nlink = 0 then 1 else d.nlink - 1 })
  setftime i ⟨false, false, true⟩
  wrInode p
  wrInode i
  iDeref p
  iDeref i
  return some 0

section Ends
variable {s : Kernel} {p i : Nat} {stop : Stop → Prop} {Q : Option Nat → Kernel → Prop}

theorem wp_rmdirEnd (sure : NoFaults s) (goodp : (s.itab p).magic = CMAGIC) (goodi : (s.itab i).magic = CMAGIC)
    (apart : p ≠ i) (held : (s.itab p).refs ≠ 0) (linked : 2 ≤ (s.itab p).node.nlink)
    (post : ∀ t, Marked s t p i → wp stop (iDeref i) (fun _ u => Q (some 0) u) (t.unref p)) :
    wp stop (rmdirEnd p i) Q s := by
  unfold rmdirEnd modifyNode
  rw [wp_bind, wp_modifyInode, wp_bind, wp_modifyInode, wp_bind]
  refine wp_setftime ?_
  rintro t ⟨atime, mtime, ctime, dirty, same⟩
  have parent : t.itab p = { s.itab p with node := { (s.itab p).node with
      nlink := if (s.itab p).node.nlink = 0 then 1 else (s.itab p).node.nlink - 1 } } := by
    rw [same]
    simp only [put_apply, apart, Ne.symm apart, if_true, if_false]
  have child : t.itab i = { s.itab i with
      node := { (s.itab i).node with nlink := 0, atime := atime, mtime := mtime, ctime := ctime }, dirty := dirty } := by
    rw [same]
    simp only [put_apply, apart, Ne.symm apart, if_true, if_false]
  have inodes : ∀ j, j ≠ p → j ≠ i → t.itab j = s.itab j := by
    intro j notp noti
    rw [same]
    simp only [put_apply, notp, noti, if_false]
  have io : t.io = s.io := by rw [same]
  have fstab : t.fstab = s.fstab := by rw [same]
  have disk : t.disk = s.disk := by rw [same]
  have sure' : NoFaults t := sure.of_io io
  clear same
  rw [wp_bind, wp_wrInode sure' (by rw [parent]; exact goodp), wp_bind]
  have still : (t.inodeWritten p).itab i = t.itab i := put_ne _ _ (Ne.symm apart)
  rw [wp_wrInode (s := t.inodeWritten p) sure' (by rw [still, child]; exact goodi), wp_bind]
  have marked : Marked s ((t.inodeWritten p).inodeWritten i) p i := by
    refine ⟨io, fstab, ?_, ⟨atime, mtime, ctime, ?_⟩, ?_, ?_⟩
    · show put (t.inodeWritten p).itab i _ p = _
      rw [put_ne _ _ apart]
      show put t.itab p _ p = _
      rw [put_same, parent]
    · show put (t.inodeWritten p).itab i _ i = _
      rw [put_same, still, child]
    · intro j notp noti
      show put (t.inodeWritten p).itab i _ j = _
      rw [put_ne _ _ noti]
      show put t.itab p _ j = _
      rw [put_ne _ _ notp]
      exact inodes j notp noti
    · intro d b notp noti
      rw [inodeWritten_other, inodeWritten_other, disk]
      · rw [parent]
        exact notp
      · rw [still, child]
        exact noti
  rw [wp_iDeref_stays]
  · rw [wp_bind]
    exact post _ marked
  · rw [marked.parent]
    exact goodp
  · rw [marked.parent]
    exact held
  · intro _
    rw [marked.parent]
    refine ⟨?_, rfl⟩
    dsimp only
    rw [if_neg (by omega)]
    omega

end Ends

/-! ## The call -/

theorem lastComponent_plain {chars : List UInt8} (string : (0 : UInt8) ∉ chars) : PlainName (lastComponent chars) := by
  unfold lastComponent
  by_cases none' : chars = []
  · rw [if_pos none']
    split
    · exact fun c no => absurd no List.not_mem_nil
    · rename_i other
      intro c member
      have same := List.mem_singleton.mp (List.takeWhile_subset _ member)
      have real := List.mem_takeWhile_imp member
      rw [same] at real ⊢
      exact nameChar_iff.mpr (not_or.mpr ⟨of_decide_eq_true real, other⟩)
  · rw [if_neg none']
    intro c member
    have member := List.mem_reverse.mp member
    have other := List.mem_takeWhile_imp member
    have inside := List.mem_reverse.mp (List.takeWhile_subset _ member)
    refine nameChar_iff.mpr (not_or.mpr ⟨?_, of_decide_eq_true other⟩)
    intro zero
    exact string (zero ▸ inside)

/-- What `filename` takes from a string is a name. -/
theorem filename_plain {path : List UInt8} (string : (0 : UInt8) ∉ path) : PlainName (filename path) := by
  have single : ∀ c : UInt8, c ≠ slash → PlainName (cstr [c]) := by
    intro c other d member
    have same := List.mem_singleton.mp (List.takeWhile_subset _ member)
    have real := List.mem_takeWhile_imp member
    rw [same] at real ⊢
    exact nameChar_iff.mpr (not_or.mpr ⟨of_decide_eq_true real, other⟩)
  have name : PlainName (if path = [] then
      if Build.below 1 = slash then
        if Build.below 2 = slash then [] else cstr [Build.below 2]
      else cstr [Build.below 1]
    else if path.getLast? = some slash then lastComponent path.dropLast
    else lastComponent path) := by
    split
    · split
      · split
        · exact fun c no => absurd no List.not_mem_nil
        · exact single _ (by assumption)
      · exact single _ (by assumption)
    · split
      · exact lastComponent_plain fun no => string (List.dropLast_subset path no)
      · exact lastComponent_plain string
  exact fun c member => name c (List.mem_of_mem_take member)

section Calls
variable {s v : Kernel} {p i m : Nat} {bs : List Nat} {foreign : Nat → Prop} {path : List UInt8}

/-- A call of `ch_link` that succeeds is on a file system that may be written. -/
theorem chLink_writable {wd : Nat} {old new : List UInt8} {nindex : Option Nat} {t : Kernel}
    (ran : chLink wd old new nindex s = .ok (true, t)) : (s.itab wd).rdonly = false := by
  by_contra shut
  have shut := Bool.eq_true_of_not_eq_false shut
  unfold chLink at ran
  rw [bind_run (a := s) (t := s) rfl, if_pos shut] at ran
  cases ran

/-- `_rmdir` comes to its last steps with a directory that has two links and an entry that is gone. -/
theorem rmdir_comes (resolved : nOpenParent (some path) s = .ok ((some i, some p), v)) (string : (0 : UInt8) ∉ path)
    (dir : DirLaid v p m bs foreign) (sure : NoFaults v) (calm : v.u.error = 0) {P : Kernel → Prop}
    (post : ∀ t, fmt (v.itab i).node.mode = F_DIR → (v.itab i).node.nlink = 2 → (v.itab p).rdonly = false →
      Linking (v.spent 1) t p m foreign (filename path) [] 0 true →
        wp (fun _ => True) (rmdirEnd p i) (fun r u => r = some 0 → P u) t) :
    wp (fun _ => True) (rmdir (some path)) (fun r u => r = some 0 → P u) s := by
  have refuse : ∀ t, wp (fun _ => True) (do
      iDeref p
      iDeref i
      return (none : Option Nat)) (fun r u => r = some 0 → P u) t := by
    intro t
    rw [wp_bind]
    refine wp_any ?_
    intro _ u
    rw [wp_bind]
    refine wp_any ?_
    intro _ w no
    cases no
  unfold rmdir
  rw [wp_bind, wp_returned resolved]
  dsimp only
  rw [wp_bind, wp_get, wp_bind]
  unfold rmdirDenied
  rw [wp_ite]
  constructor
  · intro _
    rw [wp_bind, wp_setError, wp_pure, if_pos rfl]
    exact refuse _
  · intro directory
    rw [wp_ite]
    constructor
    · intro _
      rw [wp_bind, wp_setError, wp_pure, if_pos rfl]
      exact refuse _
    · intro two
      rw [wp_pure, wp_ite]
      refine ⟨fun _ => refuse _, fun _ => ?_⟩
      unfold filenameOf
      rw [wp_bind, wp_bind, wp_evict (sure _).2]
      dsimp only
      rw [wp_pure, wp_bind]
      have dir' : DirLaid (v.spent 1) p m bs foreign :=
        { dir.toLaid.of_spent 1 with
          directory := dir.directory, whole := dir.whole, bounded := dir.bounded, filled := dir.filled,
          blank := dir.blank, unique := dir.unique, live := dir.live }
      have legal : Legal (v.spent 1) p (filename path) [] none :=
        ⟨filename_plain string, fun c no => absurd no List.not_mem_nil, Nat.zero_lt_succ _, fun no => absurd rfl no,
          fun no => absurd rfl no⟩
      refine wp_mono (wp_run (dir'.chLink sure calm legal)) ?_
      rintro ok t ⟨linking, ran⟩
      cases ok with
      | false =>
        rw [if_neg Bool.false_ne_true]
        exact refuse t
      | true =>
        rw [if_pos rfl]
        exact post t (not_not.mp directory) (not_not.mp two) (chLink_writable (s := v.spent 1) ran) linking

end Calls

/-! ## What is left of the tree -/

omit [Build] in
theorem fileBlocks_congr {disk disk' : Nat → Block} {d : Dinode} (same : ∀ b ∈ fileBlocks disk d, disk' b = disk b) :
    fileBlocks disk' d = fileBlocks disk d := by
  unfold fileBlocks at same ⊢
  refine List.flatMap_congr fun slot member => treeBlocks_congr _ _ ?_
  intro b below
  exact same b (List.mem_flatMap.mpr ⟨slot, member, below⟩)

/-- An inode keeps its blocks when they are not written. -/
theorem Owned.unwritten {s t : Kernel} {i m : Nat} {bs bs' : List Nat} (owned : Owned s i m bs)
    (banked : Banked t (s.itab i).dev m bs') (dev : (t.itab i).dev = (s.itab i).dev)
    (addr : (t.itab i).node.addr = (s.itab i).node.addr)
    (same : ∀ b ∈ fileBlocks (s.disk (s.itab i).dev) (s.itab i).node,
      t.disk (s.itab i).dev b = s.disk (s.itab i).dev b ∧ b ∉ bs')
    (isize : (t.fstab m).fs.isize = (s.fstab m).fs.isize) (fsize : (t.fstab m).fs.fsize = (s.fstab m).fs.fsize) :
    Owned t i m bs' ∧ fileBlocks (t.disk (t.itab i).dev) (t.itab i).node =
      fileBlocks (s.disk (s.itab i).dev) (s.itab i).node := by
  have blocks : fileBlocks (t.disk (t.itab i).dev) (t.itab i).node =
      fileBlocks (s.disk (s.itab i).dev) (s.itab i).node := by
    have slots : fileBlocks (t.disk (t.itab i).dev) (t.itab i).node =
        fileBlocks (t.disk (s.itab i).dev) (s.itab i).node := by
      unfold fileBlocks
      rw [dev, addr]
    exact slots.trans (fileBlocks_congr fun b member => (same b member).1)
  obtain ⟨distinct, -, -⟩ := List.nodup_append.mp owned.distinct
  refine ⟨⟨dev ▸ banked, ?_, ?_⟩, blocks⟩
  · rw [blocks]
    refine List.nodup_append.mpr ⟨distinct, banked.pool.distinct, ?_⟩
    intro b member b' free equal
    exact (same b member).2 (equal ▸ free)
  · rw [blocks, isize, fsize]
    exact owned.inside

/-- Directory `i` is in directory `p`, on the file system mounted as entry `m`; `foreign` are the blocks of
all files but `p`. -/
structure Nested (s : Kernel) (p i m : Nat) (bs : List Nat) (foreign : Nat → Prop) : Prop where
  parent : DirLaid s p m bs foreign
  child : Owned s i m bs
  theirs : ∀ b ∈ fileBlocks (s.disk (s.itab i).dev) (s.itab i).node, foreign b
  tallied : ∀ d, d = p ∨ d = i → Tallied s d
  dev : (s.itab p).dev = (s.itab i).dev
  apart : p ≠ i
  good : ∀ d, d = p ∨ d = i → (s.itab d).magic = CMAGIC ∧ (s.itab d).refs ≠ 0
  numbers : ∀ d, d = p ∨ d = i → (s.itab d).num < inodeLimit (s.fstab m).fs
  notRoot : 2 ≤ (s.itab i).num
  rdonly : (s.itab i).rdonly = (s.itab p).rdonly

/-- The inode `i`, its number and its blocks are free. -/
structure Unallocated (s t : Kernel) (i m : Nat) : Prop where
  inode : (t.itab i).refs = 0 ∧ (t.itab i).node.mode = 0
  onDisk : (Dinode.load (t.disk (s.itab i).dev ((s.itab i).num / 8 + 2)) (s.itab i).num).mode = 0 ∧
    (Dinode.load (t.disk (s.itab i).dev ((s.itab i).num / 8 + 2)) (s.itab i).num).nlink = 0
  tinode : (t.fstab m).fs.tinode = ((s.fstab m).fs.tinode + 1) % 65536
  tfree : (t.fstab m).fs.tfree = (s.fstab m).fs.tfree + (fileBlocks (s.disk (s.itab i).dev) (s.itab i).node).length

/-- The name is gone from directory `p`, and with it the directory `i`; nothing else is another. -/
structure Removed (s t : Kernel) (p i m : Nat) (foreign : Nat → Prop) (name : List UInt8) : Prop where
  names : ∀ name', (dirSlots t p).lookup [] name' = if name' = name then none else (dirSlots s p).lookup [] name'
  parent : (t.itab p).node.nlink + 1 = (s.itab p).node.nlink
  unlinked : (t.itab i).node.nlink = 0
  freed : (s.itab i).refs = 1 → Unallocated s t i m
  inodes : ∀ j, j ≠ p → j ≠ i → t.itab j = s.itab j
  blocks : ∀ b, foreign b → b ∉ fileBlocks (s.disk (s.itab i).dev) (s.itab i).node → (s.fstab m).fs.isize ≤ b →
    t.disk (s.itab i).dev b = s.disk (s.itab i).dev b
  devices : ∀ d, d ≠ (s.itab i).dev → t.disk d = s.disk d

section Tree
variable {s t x u : Kernel} {p i m d : Nat} {bs bs' : List Nat} {foreign : Nat → Prop} {name : List UInt8}
  {stop : Stop → Prop}

theorem Nested.below (nested : Nested s p i m bs foreign) (which : d = p ∨ d = i) :
    (s.itab d).num / 8 + 2 < (s.fstab m).fs.isize := by
  have less := nested.numbers d which
  unfold inodeLimit at less
  omega

/-- The entry of a directory is gone, and its inode is the one that it was. -/
theorem Nested.unlinked (nested : Nested s p i m bs foreign) (linking : Linking (s.spent 1) t p m foreign name [] 0 true)
    (real : name ≠ []) : ∃ bs', DirLaid t p m bs' foreign ∧ Owned t i m bs' ∧
      fileBlocks (t.disk (t.itab i).dev) (t.itab i).node = fileBlocks (s.disk (s.itab i).dev) (s.itab i).node := by
  obtain ⟨bs', dir⟩ := linking.dir
  have linked := linking.linked
  have fstab : t.fstab = s.fstab := linking.fstab rfl real
  have inode : t.itab i = s.itab i := linked.inodes i (Ne.symm nested.apart)
  have dev : (t.itab p).dev = (s.itab i).dev := linked.dev.trans nested.dev
  have found := dir.found
  have pool := dir.pool (by rw [fstab]; exact nested.child.banked.pool.mounted)
  rw [dev] at found pool
  have banked : Banked t (s.itab i).dev m bs' :=
    ⟨found, pool, fstab ▸ nested.child.banked.words, dir.low, dir.high⟩
  refine ⟨bs', dir, nested.child.unwritten banked (by rw [inode]) (by rw [inode]) ?_ (by rw [fstab]) (by rw [fstab])⟩
  intro b member
  have theirs := nested.theirs b member
  have same := linked.untouched b (Or.inl theirs)
  change t.disk (s.itab p).dev b = s.disk (s.itab p).dev b at same
  rw [nested.dev] at same
  exact ⟨same, fun free => dir.spare b free theirs⟩

/-- The last steps write no data blocks. -/
theorem Nested.data (nested : Nested s p i m bs foreign) (linking : Linking (s.spent 1) t p m foreign name [] 0 true)
    (marked : Marked t x p i) {b : Nat} (inside : (s.fstab m).fs.isize ≤ b) :
    x.disk (s.itab i).dev b = t.disk (s.itab i).dev b := by
  have linked := linking.linked
  obtain ⟨_, _, _, _, _, _, grown⟩ := linked.inode
  have inode : t.itab i = s.itab i := linked.inodes i (Ne.symm nested.apart)
  have num : (t.itab p).num = (s.itab p).num := by
    rw [grown]
    rfl
  have lowp := nested.below (Or.inl rfl : p = p ∨ p = i)
  have lowi := nested.below (Or.inr rfl : i = p ∨ i = i)
  refine marked.disk _ _ ?_ ?_
  · rw [num]
    rintro ⟨-, no⟩
    omega
  · rw [inode]
    rintro ⟨-, no⟩
    omega

/-- After the last steps the directory `p` has the other entries, when the release of `i` left it alone. -/
theorem Nested.closed (nested : Nested s p i m bs foreign) (linking : Linking (s.spent 1) t p m foreign name [] 0 true)
    (dir : DirLaid t p m bs' foreign) (marked : Marked t x p i) (inodes : ∀ j, j ≠ i → u.itab j = (x.unref p).itab j)
    (unlinked : (u.itab i).node.nlink = 0)
    (others : ∀ b, b ∉ fileBlocks (s.disk (s.itab i).dev) (s.itab i).node → b ≠ (s.itab i).num / 8 + 2 →
      u.disk (s.itab i).dev b = x.disk (s.itab i).dev b)
    (devices : ∀ d, d ≠ (s.itab i).dev → u.disk d = x.disk d) (freed : (s.itab i).refs = 1 → Unallocated s u i m) :
    Removed s u p i m foreign (nameKey name) := by
  have linked := linking.linked
  obtain ⟨_, _, _, _, _, _, grown⟩ := linked.inode
  have inode : t.itab i = s.itab i := linked.inodes i (Ne.symm nested.apart)
  have parent : u.itab p = { t.itab p with
      node := { (t.itab p).node with nlink := if (t.itab p).node.nlink = 0 then 1 else (t.itab p).node.nlink - 1 }
      dirty := false, refs := (t.itab p).refs - 1 } := by
    rw [inodes p nested.apart, unref_same, marked.parent]
  have nlink : (t.itab p).node.nlink = (s.itab p).node.nlink := by
    rw [grown]
    rfl
  have dev : (t.itab p).dev = (s.itab i).dev := linked.dev.trans nested.dev
  -- the data blocks of other files are not written
  have kept : ∀ b, b ∉ fileBlocks (s.disk (s.itab i).dev) (s.itab i).node → (s.fstab m).fs.isize ≤ b →
      u.disk (s.itab i).dev b = t.disk (s.itab i).dev b := by
    intro b off inside
    have lowi := nested.below (Or.inr rfl : i = p ∨ i = i)
    rw [others b off (by omega)]
    exact nested.data linking marked inside
  have isize : (t.fstab m).fs.isize = (s.fstab m).fs.isize := linked.isize
  have aside : Unwritten t u p := by
    refine ⟨by rw [parent], by rw [parent], by rw [parent], by rw [parent], ?_⟩
    intro q b valid here some
    obtain ⟨⟨low, -⟩, -, ours⟩ := dir.inside q b valid here some
    rw [dev]
    exact kept b (fun no => ours (nested.theirs b no)) (isize ▸ low)
  have same := aside.reads.same aside.size (count_le dir.bounded).1
  have two := (nested.tallied p (Or.inl rfl)).links
  refine ⟨?_, ?_, unlinked, freed, ?_, ?_, ?_⟩
  · intro name'
    obtain ⟨-, e, stored, fresh, was⟩ := linking.stored rfl
    rw [same.lookup, stored.lookup nested.parent.unique fresh was, if_neg fun no => no.2 rfl]
    rfl
  · rw [parent]
    dsimp only
    rw [nlink, if_neg (by omega)]
    omega
  · intro j notp noti
    rw [inodes j noti, unref_other notp, marked.inodes j notp noti]
    exact linked.inodes j notp
  · intro b theirs off inside
    rw [kept b off inside, ← nested.dev]
    exact linked.untouched b (Or.inl theirs)
  · intro d other
    rw [devices d other]
    funext b
    rw [marked.disk d b (by rw [dev]; exact fun no => other no.1) (by rw [inode]; exact fun no => other no.1)]
    have same := linked.devices d (by
      change d ≠ (s.itab p).dev
      rw [nested.dev]
      exact other)
    rw [same]
    rfl

/-- The last steps of `_rmdir` remove the directory. -/
theorem Nested.removed (nested : Nested s p i m bs foreign) (sure : NoFaults s)
    (linking : Linking (s.spent 1) t p m foreign name [] 0 true) (real : name ≠ [])
    (directory : fmt (s.itab i).node.mode = F_DIR) (writable : (s.itab p).rdonly = false) :
    wp stop (rmdirEnd p i) (fun _ u => Removed s u p i m foreign (nameKey name)) t := by
  obtain ⟨bs', dir, owned, blocks⟩ := nested.unlinked linking real
  have linked := linking.linked
  obtain ⟨_, _, _, _, _, _, grown⟩ := linked.inode
  have inode : t.itab i = s.itab i := linked.inodes i (Ne.symm nested.apart)
  have goodp := nested.good p (Or.inl rfl)
  have goodi := nested.good i (Or.inr rfl)
  have two := (nested.tallied p (Or.inl rfl)).links
  have sure' : NoFaults t := sure.of_io linked.io
  have fstab : t.fstab = s.fstab := linking.fstab rfl real
  refine wp_rmdirEnd sure' ?_ (by rw [inode]; exact goodi.1) nested.apart ?_ ?_ ?_
  · rw [grown]
    exact goodp.1
  · rw [grown]
    exact goodp.2
  · rw [grown]
    show 2 ≤ (s.itab p).node.nlink
    omega
  intro x marked
  obtain ⟨atime, mtime, ctime, child⟩ := marked.child
  rw [inode] at child
  have here : (x.unref p).itab i = { s.itab i with
      node := { (s.itab i).node with nlink := 0, atime := atime, mtime := mtime, ctime := ctime }, dirty := false } := by
    rw [unref_other (Ne.symm nested.apart), child]
  by_cases last : (s.itab i).refs = 1
  · have fstab' : (x.unref p).fstab = s.fstab := marked.fstab.trans fstab
    have found : fsTabGet (x.unref p) (t.itab i).dev = some m := by
      have same : ∀ d, fsTabGet (x.unref p) d = fsTabGet t d := by
        intro d
        unfold fsTabGet
        rw [show (x.unref p).fstab = t.fstab from marked.fstab]
      exact (same _).trans owned.banked.found
    have data : ∀ b, (t.fstab m).fs.isize ≤ b → (x.unref p).disk (t.itab i).dev b = t.disk (t.itab i).dev b := by
      intro b inside
      rw [inode]
      rw [fstab] at inside
      exact nested.data linking marked inside
    have banked : Banked (x.unref p) (t.itab i).dev m bs' := by
      refine owned.banked.congr found ?_ ?_ ?_ ?_ ?_ data
      all_goals rw [fstab', fstab]
    obtain ⟨owned', blocks'⟩ := owned.unwritten banked (by rw [here, inode]) (by rw [here, inode])
      (by
        intro b member
        refine ⟨data b (owned.inside b member).1, ?_⟩
        intro free
        exact (List.nodup_append.mp owned.distinct).2.2 b member b free rfl)
      (by rw [fstab', fstab]) (by rw [fstab', fstab])
    rw [blocks] at blocks'
    have owns : ownsBlocks (s.itab i).node = true := decide_eq_true (Or.inr (Or.inl directory))
    have release : wp stop (iDeref i) (fun _ u => Gone (x.unref p) u i m bs') (x.unref p) := by
      refine owned'.iDeref (sure'.of_io marked.io) ?_ ?_ ?_ ?_ ?_ ?_ ?_
      all_goals rw [here]
      · exact goodi.1
      · exact last
      · exact owns
      · exact nested.rdonly.trans writable
      · rw [fstab']
        exact nested.below (Or.inr rfl)
      · rw [fstab']
        exact ⟨nested.notRoot, nested.numbers i (Or.inr rfl)⟩
    refine wp_mono release ?_
    intro _ u gone
    have others := gone.others
    have devices := gone.devices
    have onDisk := gone.onDisk
    have tfree := gone.banked.tfree_eq
    rw [blocks'] at others tfree
    rw [here] at others devices onDisk
    refine nested.closed linking dir marked gone.inodes gone.inode.2.2 others devices fun _ => ?_
    refine ⟨⟨gone.inode.1, gone.inode.2.1⟩, onDisk, ?_, ?_⟩
    · rw [gone.tinode, fstab']
    · have before := owned.banked.tfree_eq
      rw [fstab] at before
      rw [tfree, before, List.length_append, Nat.add_comm]
  · rw [wp_iDeref_stays]
    · refine nested.closed linking dir marked ?_ ?_ ?_ ?_ ?_
      · intro j other
        exact unref_other other
      · rw [unref_same, here]
      · intro b _ _
        rfl
      · intro d _
        rfl
      · intro one
        exact absurd one last
    · rw [here]
      exact goodi.1
    · rw [here]
      exact goodi.2
    · rw [here]
      intro one
      exact absurd one last

end Tree

/-! ## What a call that succeeds did -/

/-- The path leads to `p` itself, that is, it ends in `.`, and a call holds it twice. -/
structure Itself (s : Kernel) (p i m : Nat) (bs : List Nat) (foreign : Nat → Prop) : Prop where
  same : p = i
  dir : DirLaid s i m bs foreign
  good : (s.itab i).magic = CMAGIC
  held : 2 ≤ (s.itab i).refs

/-- The directory was empty, and it is gone with its name. -/
def RemovedEmpty (s t : Kernel) (p i m : Nat) (foreign : Nat → Prop) : Prop :=
  EmptyDir s i ∧ ∃ name, (dirSlots s p).lookup [] name = some (s.itab i).num ∧ Removed s t p i m foreign name

section Results
variable {s t v : Kernel} {p i m : Nat} {bs : List Nat} {foreign : Nat → Prop} {path name : List UInt8}
  {stop : Stop → Prop}

/-- A directory that is its own parent gets a link again. -/
theorem Itself.keeps (itself : Itself s p i m bs foreign) (sure : NoFaults s)
    (linked : Linked (s.spent 1) t p m foreign) :
    wp stop (rmdirEnd p i) (fun _ u => (u.itab i).node.nlink = 1) t := by
  obtain ⟨same, -, good, held⟩ := itself
  rw [same] at linked ⊢
  obtain ⟨_, _, _, _, _, _, grown⟩ := linked.inode
  have sure' : NoFaults t := sure.of_io linked.io
  have goodt : (t.itab i).magic = CMAGIC := by
    rw [grown]
    exact good
  have heldt : 2 ≤ (t.itab i).refs := by
    rw [grown]
    exact held
  unfold rmdirEnd modifyNode
  rw [wp_bind, wp_modifyInode, wp_bind, wp_modifyInode, wp_bind]
  refine wp_setftime ?_
  rintro u ⟨atime, mtime, ctime, dirty, dated⟩
  have here : u.itab i = { t.itab i with
      node := { (t.itab i).node with nlink := 1, atime := atime, mtime := mtime, ctime := ctime }, dirty := dirty } := by
    rw [dated]
    simp only [put_same, if_true]
  have io : u.io = t.io := by rw [dated]
  clear dated
  have sure₂ : NoFaults u := sure'.of_io io
  rw [wp_bind, wp_wrInode sure₂ (by rw [here]; exact goodt), wp_bind]
  have once : (u.inodeWritten i).itab i = { u.itab i with dirty := false } := put_same _ _ _
  rw [wp_wrInode (s := u.inodeWritten i) sure₂ (by rw [once, here]; exact goodt), wp_bind]
  have twice : ((u.inodeWritten i).inodeWritten i).itab i = { t.itab i with
      node := { (t.itab i).node with nlink := 1, atime := atime, mtime := mtime, ctime := ctime }, dirty := false } := by
    show put _ _ _ i = _
    rw [put_same, once, here]
  have first : (((u.inodeWritten i).inodeWritten i).unref i).itab i = { t.itab i with
      node := { (t.itab i).node with nlink := 1, atime := atime, mtime := mtime, ctime := ctime }, dirty := false
      refs := (t.itab i).refs - 1 } := by
    rw [unref_same, twice]
  rw [wp_iDeref_stays, wp_bind, wp_iDeref_stays, wp_pure, unref_same, first]
  · rw [first]
    exact goodt
  · rw [first]
    show (t.itab i).refs - 1 ≠ 0
    omega
  · intro _
    rw [first]
    exact ⟨Nat.one_ne_zero, rfl⟩
  · rw [twice]
    exact goodt
  · rw [twice]
    show (t.itab i).refs ≠ 0
    omega
  · intro _
    rw [twice]
    exact ⟨Nat.one_ne_zero, rfl⟩

/-- A call of `_rmdir` that succeeds has removed an empty directory in just those cases where the last
component of the path is the name of the directory, and the directory had no entries but those of
directories. -/
theorem rmdir_empties (resolved : nOpenParent (some path) s = .ok ((some i, some p), v)) (string : (0 : UInt8) ∉ path)
    (named : filename path ≠ []) (tree : Nested v p i m bs foreign ∨ Itself v p i m bs foreign) (sure : NoFaults v)
    (calm : v.u.error = 0) (ran : rmdir (some path) s = .ok (some 0, t)) :
    RemovedEmpty v t p i m foreign ↔
      p ≠ i ∧ dirLookup v p (filename path) = some (v.itab i).num ∧ OnlyDirs v i := by
  rcases tree with nested | itself
  · have spec := rmdir_comes (P := fun u => (v.itab i).node.nlink = 2 ∧
      dirLookup v p (filename path) ≠ none ∧ Removed v u p i m foreign (nameKey (filename path)))
      resolved string nested.parent sure calm ?_
    · obtain ⟨two, entry, removed⟩ := wp_ok spec ran rfl
      have empty := (nested.tallied i (Or.inr rfl)).empty two
      constructor
      · rintro ⟨bare, name, there, gone⟩
        refine ⟨nested.apart, ?_, empty.mp bare⟩
        have same : nameKey (filename path) = name := by
          by_contra other
          have left := gone.names (nameKey (filename path))
          rw [removed.names, if_pos rfl, if_neg other] at left
          exact entry left.symm
        show (dirSlots v p).lookup [] (nameKey (filename path)) = _
        rw [same]
        exact there
      · rintro ⟨-, there, only⟩
        exact ⟨empty.mpr only, nameKey (filename path), there, removed⟩
    · intro u directory two writable linking
      refine wp_mono (nested.removed sure linking named directory writable) ?_
      intro _ w removed _
      refine ⟨two, ?_, removed⟩
      obtain ⟨-, e, -, -, was⟩ := linking.stored rfl
      have real := nameKey_some named
      have inside : e < (dirSlots (v.spent 1) p).count := by
        by_contra no
        rw [if_neg no] at was
        exact real was
      rw [if_pos inside] at was
      intro none'
      rcases Slots.lookup_none.mp none' with no | no
      · exact real no
      · exact no e inside was
  · have dir : DirLaid v p m bs foreign := itself.same ▸ itself.dir
    have spec := rmdir_comes (P := fun u => (u.itab i).node.nlink = 1) resolved string dir sure calm ?_
    · have one := wp_ok spec ran rfl
      constructor
      · rintro ⟨-, name, -, gone⟩
        have none' := gone.unlinked
        rw [one] at none'
        cases none'
      · rintro ⟨no, -⟩
        exact absurd itself.same no
    · intro u _ _ _ linking
      refine wp_mono (itself.keeps sure linking.linked) ?_
      exact fun _ w one _ => one

end Results

/-! ## A directory with and without a file -/

/-- Three inodes in memory. -/
@[reducible] def three : Build := { tiny with ITABSIZE := 3 }

/-- The entries of a block. -/
def entryBlock (names : List (List UInt8 × Nat)) : Block :=
  fun j => (names.flatMap fun n => direct n.1 n.2).getD j 0

/-- The root holds the directory `d`, which may hold the file `f`. -/
def holding (file : Bool) : Kernel :=
  { oneFile with
    disk := fun _ blk =>
      if blk = 10 then entryBlock [(dot, 1), (dotdot, 1), ([0x64], 2)]
      else if blk = 11 then entryBlock ([(dot, 2), (dotdot, 1)] ++ if file then [([0x66], 3)] else [])
      else zeroBlock
    itab := fun i => { oneNode with
      num := i + 1
      refs := if i = 0 then 2 else 0
      node := { oneNode.node with
        mode := if i = 2 then F_REG + 0o777 else F_DIR + 0o777
        nlink := if i = 0 then 3 else if i = 1 then 2 else 1
        size := if i = 2 then 0 else 512
        addr := fun k => if k = 0 then (if i = 2 then 0 else 10 + i) else 0 } }
    fstab := fun _ => ⟨0, false, false, { Filesys.load zeroBlock with
      mounted := SMOUNTED, isize := 4, fsize := 20, nfree := 1 }⟩ }

/-- The path `/d`. -/
def pathD : List UInt8 := [slash, 0x64]

/-- The state in which the path is resolved. -/
def walkedD (file : Bool) : Kernel :=
  match @nOpenParent three (some pathD) (holding file) with
  | .ok (_, t) => t
  | .error _ => holding file

omit [Build] in
set_option maxRecDepth 10000 in
theorem resolved_d (file : Bool) : @nOpenParent three (some pathD) (holding file) = .ok ((some 1, some 0), walkedD file) := by
  cases file <;> rfl

omit [Build] in
/-- A run that returns, from its answer. -/
theorem run_of_answer {α : Type} {m : K α} {s : Kernel} {a : α} (h : (m s).toOption.map Prod.fst = some a) :
    ∃ t, m s = .ok (a, t) := by
  cases ran : m s with
  | error e =>
    rw [ran] at h
    cases h
  | ok r =>
    rw [ran] at h
    injection h with h
    exact ⟨r.2, by rw [← h]⟩

omit [Build] in
theorem rmdir_d (file : Bool) : ∃ t, @rmdir three (some pathD) (holding file) = .ok (some 0, t) := by
  refine run_of_answer ?_
  cases file <;> decide +kernel

omit [Build] in
set_option maxRecDepth 10000 in
theorem walkedD_dir (file : Bool) (d : Nat) (which : d = 0 ∨ d = 1) :
    @DirLaid three (walkedD file) d 0 [] (fun b => b ∈ [11 - d]) := by
  let _ := three
  have pool : Pool ((walkedD file).disk 0) ((walkedD file).fstab 0).fs [] := by
    have chain : Chain.Yields FILESYS_TABSIZE 0 (fun j => chainBatch ((walkedD file).disk 0 j))
        ((walkedD file).fstab 0).fs.batch [] := by
      cases file <;> exact .done Nat.one_pos (Nat.le_add_left 1 49) rfl
    refine ⟨by cases file <;> rfl, chain, ?_, List.nodup_nil, by cases file <;> rfl⟩
    intro b no
    cases no
  have unique : ∀ e < 16, ∀ e' < 16, (dirSlots (walkedD file) d).key e = (dirSlots (walkedD file) d).key e' →
      (dirSlots (walkedD file) d).key e ≠ [] → e = e' := by
    rcases which with same | same <;> rw [same] <;> cases file <;> decide +kernel
  have live : ∀ e < 16, (dirSlots (walkedD file) d).key e ≠ [] → (dirSlots (walkedD file) d).value e ≠ 0 := by
    rcases which with same | same <;> rw [same] <;> cases file <;> decide +kernel
  have count : (dirSlots (walkedD file) d).count = 16 := by
    rcases which with same | same <;> rw [same] <;> cases file <;> rfl
  have laid : Laid (walkedD file) d 0 [] (fun b => b ∈ [11 - d]) := by
    refine laid_single (b := 10 + d) (j := 0) ?_ ?_ ?_ ?_ ?_ (fun no => (by omega)) ?_ (by simp) ?_ ?_
    · rcases which with same | same <;> rw [same] <;> cases file <;> rfl
    · rcases which with same | same <;> rw [same] <;> cases file <;> exact pool
    · cases file <;> exact Nat.le_add_left 1 3
    · cases file <;> exact (by decide : 20 < 65536)
    · intro k _
      rcases which with same | same <;> rw [same] <;> cases file <;> rfl
    · have size : ((walkedD file).fstab 0).fs.isize = 4 ∧ ((walkedD file).fstab 0).fs.fsize = 20 := by
        cases file <;> exact ⟨rfl, rfl⟩
      rw [size.1, size.2]
      omega
    · intro no
      have no := List.mem_singleton.mp no
      omega
    · intro b no
      cases no
  refine laid.single_dir (b := 10 + d) ?_ ?_ ?_ (by omega) ?_ ?_
  · rcases which with same | same <;> rw [same] <;> cases file <;> rfl
  · rcases which with same | same <;> rw [same] <;> cases file <;> rfl
  · intro k _
    rcases which with same | same <;> rw [same] <;> cases file <;> rfl
  · intro e e' less less'
    rw [count] at less less'
    exact unique e less e' less'
  · intro e less
    rw [count] at less
    exact live e less

omit [Build] in
set_option maxRecDepth 10000 in
/-- The link counts of the tree are right, with and without the file. -/
theorem walkedD_nested (file : Bool) : @Nested three (walkedD file) 0 1 0 [] (fun b => b ∈ [11]) := by
  let _ := three
  have parent := walkedD_dir file 0 (Or.inl rfl)
  have dir := walkedD_dir file 1 (Or.inr rfl)
  have blocks : fileBlocks ((walkedD file).disk ((walkedD file).itab 1).dev) ((walkedD file).itab 1).node = [11] := by
    cases file <;> rfl
  have small : ((walkedD file).fstab 0).fs.isize = 4 ∧ ((walkedD file).fstab 0).fs.fsize = 20 := by
    cases file <;> exact ⟨rfl, rfl⟩
  have mounted : ((walkedD file).fstab 0).fs.mounted = SMOUNTED := by cases file <;> rfl
  refine ⟨parent, ⟨⟨dir.found, dir.pool mounted, ?_, dir.low, dir.high⟩, ?_, ?_⟩, ?_, ?_, ?_, by decide, ?_, ?_, ?_, ?_⟩
  · intro i _
    cases file <;> exact word_lt zeroBlock (4 + i)
  · rw [blocks]
    exact List.nodup_singleton 11
  · intro b member
    rw [blocks] at member
    rw [List.mem_singleton.mp member, small.1, small.2]
    decide
  · rw [blocks]
    exact fun b member => member
  · rintro d (same | same) <;> rw [same]
    · refine ⟨parent.unique, ?_, ?_, ?_⟩
      all_goals cases file <;> decide +kernel
    · refine ⟨dir.unique, ?_, ?_, ?_⟩
      all_goals cases file <;> decide +kernel
  · cases file <;> rfl
  · rintro d (same | same) <;> rw [same] <;> cases file <;> exact ⟨rfl, by decide +kernel⟩
  · rintro d (same | same) <;> rw [same] <;> cases file <;> decide +kernel
  · cases file <;> decide +kernel
  · cases file <;> rfl

omit [Build] in
set_option maxRecDepth 10000 in
/-- The empty directory is removed. -/
theorem rmdir_empties_d : ∃ t, @rmdir three (some pathD) (holding false) = .ok (some 0, t) ∧
    RemovedEmpty (walkedD false) t 0 1 0 (fun b => b ∈ [11]) := by
  let _ := three
  obtain ⟨t, ran⟩ := rmdir_d false
  have none' : ownEntries (walkedD false) 1 = [] := by decide +kernel
  have only : OnlyDirs (walkedD false) 1 := by
    intro e member
    rw [none'] at member
    cases member
  have removes := rmdir_empties (resolved_d false) (by decide) (by decide +kernel) (Or.inl (walkedD_nested false))
    (fun _ => ⟨rfl, rfl⟩) rfl ran
  exact ⟨t, ran, removes.mpr ⟨by decide, by decide +kernel, only⟩⟩

omit [Build] in
set_option maxRecDepth 10000 in
/-- The directory with the file `f` is removed, too. -/
theorem rmdir_loses : ∃ (_ : Build) (s v t : Kernel), nOpenParent (some pathD) s = .ok ((some 1, some 0), v) ∧
    Nested v 0 1 0 [] (fun b => b ∈ [11]) ∧ NoFaults v ∧ v.u.error = 0 ∧ rmdir (some pathD) s = .ok (some 0, t) ∧
    (dirSlots v 1).lookup [] [0x66] = some 3 ∧ fmt (inodeOf v 0 3).mode = F_REG ∧ (inodeOf v 0 3).nlink = 1 ∧
    ¬ EmptyDir v 1 := by
  obtain ⟨t, ran⟩ := rmdir_d true
  have file : (dirSlots (walkedD true) 1).lookup [] [0x66] = some 3 := by decide +kernel
  refine ⟨three, holding true, walkedD true, t, resolved_d true, walkedD_nested true, fun _ => ⟨rfl, rfl⟩, rfl, ran, file,
    by decide +kernel, by decide +kernel, ?_⟩
  intro empty
  rcases (empty [0x66]).mp (by rw [file]; exact Option.some_ne_none 3) with no | no
  · exact absurd no (by decide)
  · exact absurd no (by decide)

end Fuzix
