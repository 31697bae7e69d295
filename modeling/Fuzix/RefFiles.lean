import Fuzix.FileLife
import Fuzix.RefCalls

/-!
# References of the open file table

An entry of the open file table holds the inode it names until its last reference
goes. `_open` reserves an entry that must name nothing, fills it in, and gives the
inode back through it on every error path.
-/

set_option linter.unusedSectionVars false

namespace Fuzix

open Wp Table Words

variable [Build]

section Files
variable {s t : Kernel} {X Y : List Nat} {k : Nat}

/-! ## Entries -/

theorem Oft.holds_none {o : Oft} (empty : o.inode = none) (i : Nat) : o.holds i = 0 := by
  unfold Oft.holds
  rw [empty]
  exact if_neg (by simp)

theorem Oft.holds_some {o : Oft} {j : Nat} (set : o.inode = some j) (i : Nat) :
    o.holds i = [j].count i := by
  unfold Oft.holds
  rw [set, count_one]
  simp only [Option.some.injEq]

/-- The inode an entry names is written in; its reference is the caller's. -/
theorem RefAcc.settle {i : Nat} (a : RefAcc s X Y) (hk : k < OFTSIZE)
    (empty : (s.oftab k).inode = none) {o : Oft} (set : o.inode = some i) :
    RefAcc { s with oftab := put s.oftab k o } X (i :: Y) := by
  refine a.refile hk fun j => ?_
  rw [Oft.holds_none empty, Oft.holds_some set, count_one]
  by_cases same : i = j
  · rw [if_pos same, same, List.count_cons_self]
  · rw [if_neg same, List.count_cons_of_ne same]

/-- The entry that `oft_alloc` hands out names nothing. -/
def freshEntry (s : Kernel) : Prop :=
  ∀ k, (List.range OFTSIZE).find? (fun j => (s.oftab j).refs = 0) = some k →
    (s.oftab k).inode = none

/-- An entry fresh from `oft_alloc`. -/
def Reserved (s : Kernel) (k : Nat) : Prop := k < OFTSIZE ∧ (s.oftab k).inode = none

theorem RefAcc.oftAlloc (a : RefAcc s X []) (fresh : freshEntry s) :
    wp Counted oftAlloc (fun r t => RefAcc t X [] ∧ ∀ k, r = some k →
      Reserved t k ∧ (t.oftab k).refs = 1 ∧ (s.oftab k).refs = 0 ∧
        ∀ j, j ≠ k → t.oftab j = s.oftab j) s := by
  unfold Fuzix.oftAlloc
  rw [wp_bind, wp_get]
  split
  · rename_i k found
    have hk := List.mem_range.mp (List.mem_of_find?_eq_some found)
    have idle := List.find?_some found
    simp only [decide_eq_true_eq] at idle
    have empty := fresh k found
    rw [wp_bind, wp_modifyOft]
    refine ⟨a.refile hk fun i => ?_, ?_⟩
    · rw [Oft.holds_none empty]
      rfl
    · rintro j same
      cases same
      refine ⟨⟨hk, ?_⟩, ?_, idle, fun j other => put_ne _ _ other⟩
      · show (put s.oftab k _ k).inode = none
        rw [put_same]
      · show (put s.oftab k _ k).refs = 1
        rw [put_same]
  · rw [wp_bind]
    refine wp_mono (held_setError ENFILE s) fun _ t kept => ⟨kept.acc a, ?_⟩
    rintro k no
    cases no

/-- The entry's own reference to its inode goes with it. -/
theorem RefAcc.oftDeref (a : RefAcc s X []) (hk : k < OFTSIZE) :
    wp Counted (oftDeref k) (fun _ t => RefAcc t X []) s := by
  unfold Fuzix.oftDeref
  rw [wp_bind, wp_get]
  dsimp only
  rw [wp_bind]
  have less : Held (modifyOft k fun o => { o with refs := ((s.oftab k).refs + 255) % 256 }) :=
    held_modifyOft k fun _ => rfl
  have inodes : wp Counted (modifyOft k fun o => { o with refs := ((s.oftab k).refs + 255) % 256 })
      (fun _ t => (t.oftab k).inode = (s.oftab k).inode) s := by
    rw [wp_modifyOft]
    simp only [put_same]
  refine wp_mono (wp_and (less s) inodes) ?_
  rintro _ t ⟨kept, same⟩
  have a := kept.acc a
  split
  · exact a
  · rename_i i inode
    rw [wp_ite]
    refine ⟨fun _ => ?_, fun _ => a⟩
    rw [wp_bind]
    have unlock : Keeps Counted DataOnly (deflock (s.oftab k)) :=
      (quiet_deflock _).mono (fun _ calm => calm.2) fun _ _ kept => kept
    refine wp_mono (unlock t) fun _ u data => ?_
    have a := data.acc a
    have set : (u.oftab k).inode = some i := by
      rw [data.oftab, same, inode]
    have one := oft_holds_le (s := u) hk i
    rw [Oft.holds_some set, List.count_singleton_self] at one
    rw [wp_bind]
    refine wp_mono (wp_iDeref_owed a (Nat.lt_of_lt_of_le Nat.one_pos one)) ?_
    rintro _ v ⟨a, data'⟩
    have set : (v.oftab k).inode = some i := by
      rw [data'.oftab]
      exact set
    rw [wp_modifyOft]
    refine a.refile hk fun j => ?_
    rw [Oft.holds_some set, Oft.holds_none rfl, List.count_nil]
    omega

theorem held_setFile (fd k : Nat) : Held (setFile fd k) :=
  held_modifyU (fun _ => rfl) fun _ => rfl

theorem RefAcc.cantopen (a : RefAcc s X []) (hk : k < OFTSIZE) (u : Nat) :
    wp Counted (cantopen u k) (fun _ t => RefAcc t X []) s := by
  unfold Fuzix.cantopen
  rw [wp_bind]
  refine wp_mono (a.oftDeref hk) fun _ t a => ?_
  rw [wp_bind]
  exact wp_held (held_setFile u NO_FILE) a

/-! ## The inode of an open -/

/-- A missing file is created, or the walk did not find its parent either. -/
def openInodeSound (s : Kernel) (name : Path) (flag : Nat) : Prop :=
  pathSound name s ∧ After (nOpenParent name) s fun r t => ∀ parent, r = (none, some parent) →
    t.u.error ≠ EFAULT ∧ hasFlag flag 8 = true

theorem RefAcc.openInode (a : RefAcc s [] []) {name : Path} {flag : Nat} (mode : Nat)
    (sound : openInodeSound s name flag) :
    wp Counted (openInode name flag mode) (fun r t => RefAcc t r.toList []) s := by
  unfold Fuzix.openInode
  rw [wp_bind]
  refine wp_mono (wp_after (wp_nOpenParent a (by simp) sound.1) sound.2) ?_
  rintro ⟨ino, parent⟩ t ⟨⟨a, both⟩, create⟩
  cases parent with
  | none =>
    obtain rfl := both rfl
    exact a
  | some parent =>
    cases ino with
    | some ino =>
      have a : RefAcc t [parent, ino] [] := a.perm (List.Perm.swap parent ino [])
      rw [wp_bind]
      refine wp_mono (wp_iDeref a) fun _ u a => ?_
      rw [wp_ite]
      refine ⟨fun _ => ?_, fun _ => a⟩
      rw [wp_bind]
      refine wp_mono (held_setError EEXIST u) fun _ v kept => ?_
      rw [wp_bind]
      exact wp_iDeref (kept.acc a)
    | none =>
      obtain ⟨mapped, creating⟩ := create parent rfl
      have a : RefAcc t [parent] [] := a
      rw [wp_bind, wp_get, if_neg mapped, if_neg (by rw [creating]; decide), wp_bind]
      refine wp_mono (held_filenameOf name t) fun fname u kept => ?_
      rw [wp_bind]
      refine wp_mono (wp_newfile (kept.acc a) (by simp) fname) fun made v a => ?_
      cases made with
      | none => exact a
      | some ino =>
        rw [wp_bind, wp_get]
        have update : Held (do
            modifyNode ino (fun d => { d with
              mode := F_REG + andNot (mode % 4096) v.u.mask })
            setftime ino Times.all
            wrInode ino
            return some ino) :=
          (held_modifyNode ino _).bind fun _ => (held_setftime ino _).bind fun _ =>
            (held_wrInode ino).bind fun _ => held_pure _
        have run := wp_held update a
        simp only [wp_bind] at run ⊢
        exact run

/-! ## The device of an open -/

theorem held_ttyPost (i : Nat) (ctty : Bool) : Held (ttyPost i ctty) :=
  held_modifyU (fun _ => rfl) fun _ => rfl

theorem held_dOpen (da i : Nat) (drv : Driver) : Held (dOpen da i drv) := by
  refine Keeps.ite ((held_setError _).bind fun _ => held_pure _) ?_
  cases drv with
  | refuses e => exact (held_setError e).bind fun _ => held_pure _
  | waits => exact held_pure _
  | opens ctty =>
    exact Keeps.bind (Keeps.ite (held_ttyPost i ctty) (held_pure _)) fun _ => held_pure _

/-- The entry changes over to the controlling terminal with its reference. -/
theorem RefAcc.devOpeni (a : RefAcc s [] []) (hk : k < OFTSIZE) (drv : Driver) :
    wp Counted (devOpeni k drv) (fun _ t => RefAcc t [] []) s := by
  unfold Fuzix.devOpeni
  rw [wp_bind, wp_get]
  split
  · exact Counted.null
  · rename_i i set
    rw [wp_ite]
    refine ⟨fun _ => ?_, fun _ => wp_held (held_dOpen _ i drv) a⟩
    split
    · rw [wp_bind]
      exact wp_held (held_setError ENODEV) a
    · rename_i tty _
      have one := oft_holds_le (s := s) hk i
      rw [Oft.holds_some set, List.count_singleton_self] at one
      rw [wp_bind]
      refine wp_mono (wp_iDeref_owed a (Nat.lt_of_lt_of_le Nat.one_pos one)) ?_
      rintro _ t ⟨a, data⟩
      have set : (t.oftab k).inode = some i := by
        rw [data.oftab]
        exact set
      have moved : RefAcc { t with oftab := put t.oftab k { t.oftab k with inode := some tty } }
          [] [tty] := by
        refine a.refile hk fun j => ?_
        rw [Oft.holds_some set, Oft.holds_some rfl]
        omega
      rw [wp_bind]
      show wp Counted _ _ { t with oftab := put t.oftab k { t.oftab k with inode := some tty } }
      rw [wp_bind, wp_get, wp_bind]
      have paid := moved.incr (X := []) (by simp) tty
        (c := { t.itab tty with refs := ((t.itab tty).refs + 1) % 256 }) rfl
      exact wp_held (held_dOpen _ tty drv) paid.pay

/-! ## The end of an open -/

/-- `O_TRUNC` meets a file that `f_trunc` refuses to cut; the reference of the entry
is then given back twice. -/
def truncRefused (s : Kernel) (k flag : Nat) : Prop :=
  ∃ ino, (s.oftab k).inode = some ino ∧ (flag + 1) / 2 % 2 = 1 ∧ hasFlag flag 10 = true ∧
    fmt (s.itab ino).node.mode = F_REG ∧ (s.itab ino).rdonly = true

theorem wp_fTrunc_refuses (s : Kernel) (i : Nat) :
    wp Counted (fTrunc i) (fun r _ => r = true → (s.itab i).rdonly = true) s := by
  have cut : Held (do
      freeblk (s.itab i).dev 2 ((s.itab i).node.addr 19)
      freeblk (s.itab i).dev 1 ((s.itab i).node.addr 18)
      forDown (fun j => freeblk (s.itab i).dev 0 ((s.itab i).node.addr j)) 18
      modifyInode i (fun c => { c with
        node := { c.node with addr := fun _ => 0, size := 0 }
        dirty := true })) := by
    refine (held_of_quiet (quiet_freeblk _ _ _)).bind fun _ => ?_
    refine (held_of_quiet (quiet_freeblk _ _ _)).bind fun _ => ?_
    refine (held_of_quiet (quiet_forDown (fun j => quiet_freeblk _ _ _) 18)).bind fun _ => ?_
    exact held_modifyInode i fun _ => rfl
  unfold fTrunc
  rw [wp_bind, wp_get]
  dsimp only
  rw [wp_ite]
  refine ⟨fun refused => ?_, fun _ => ?_⟩
  · rw [wp_bind]
    exact wp_mono (held_setError EROFS s) fun _ _ _ _ => refused
  · have run := cut s
    simp only [wp_bind] at run ⊢
    refine wp_mono run fun _ t run => ?_
    refine wp_mono run fun _ t run => ?_
    refine wp_mono run fun _ t run => ?_
    exact fun no => absurd no Bool.false_ne_true

theorem held_rewindAll (ino : Nat) : Held (rewindAll ino) :=
  Keeps.modify fun s => { RefsKept.refl s with
    oftab := fun k => by
      dsimp only
      split
      · split <;> rfl
      · rfl }

theorem held_openDone (u k flag ino : Nat) : Held (openDone u k flag ino) := by
  refine Keeps.bind (held_modifyOft k ?_) fun _ => Keeps.bind (held_modifyU ?_ ?_) fun _ =>
    Keeps.bind (held_modifyInode ino ?_) fun _ => held_pure _
  · exact fun _ => rfl
  · exact fun _ => rfl
  · exact fun _ => rfl
  · exact fun _ => rfl

theorem RefAcc.openFinish (a : RefAcc s [] []) {flag : Nat} (u : Nat)
    (sound : ¬ truncRefused s k flag) :
    wp Counted (openFinish u k flag) (fun _ t => RefAcc t [] []) s := by
  unfold Fuzix.openFinish
  rw [wp_bind, wp_get]
  split
  · exact Counted.null
  · rename_i ino set
    rw [wp_ite]
    refine ⟨fun cut => ?_, fun _ => wp_held (held_openDone u k flag ino) a⟩
    have trunc : Held (fTrunc ino) := held_of_quiet (quiet_fTrunc ino)
    rw [wp_bind]
    refine wp_mono (wp_and (trunc s) (wp_fTrunc_refuses s ino)) ?_
    rintro refused t ⟨kept, readonly⟩
    rw [wp_ite]
    refine ⟨fun yes => ?_, fun _ => ?_⟩
    · exact absurd ⟨ino, set, cut.1, cut.2.1, cut.2.2, readonly yes⟩ sound
    · have finish : Held (do
          rewindAll ino
          openDone u k flag ino) := (held_rewindAll ino).bind fun _ => held_openDone u k flag ino
      exact wp_held finish (kept.acc a)

/-- The device's open does not leave a file that cannot be cut. -/
def entrySound (s : Kernel) (k ino flag : Nat) (drv : Driver) : Prop :=
  openDenied s ino flag = none → isdevice (s.itab ino) = true →
    After (do
      modifyOft k (fun o => { o with inode := some ino })
      devOpeni k drv) s fun _ t => ¬ truncRefused t k flag

/-- A read-only regular file is not opened for writing. -/
theorem openDenied_rdonly {ino flag : Nat} (allowed : openDenied s ino flag = none)
    (regular : isdevice (s.itab ino) = false) (write : (flag + 1) / 2 % 2 = 1) :
    (s.itab ino).rdonly = false := by
  by_contra no
  have readonly := Bool.eq_true_of_not_eq_false no
  unfold openDenied at allowed
  simp only [write, regular, readonly, if_true, true_and] at allowed
  split at allowed
  · cases allowed
  · split at allowed
    · cases allowed
    · cases allowed

theorem RefAcc.wait (a : RefAcc s X Y) {w : Wait}
    (entry : ∀ u k flag, w = .opening u k flag → k < OFTSIZE) :
    RefAcc { s with ptab := put s.ptab s.cur { s.ptab s.cur with wait := some w } } X Y where
  count := fun i => by
    have same : inodeHolders { s with
        ptab := put s.ptab s.cur { s.ptab s.cur with wait := some w } } i = inodeHolders s i := by
      have held : ∀ p, (put s.ptab s.cur { s.ptab s.cur with wait := some w } p).holds =
          (s.ptab p).holds := fun p => put_fixed rfl
      simp only [inodeHolders, rootHolds, held]
    rw [same]
    exact a.count i
  waits := fun p u k flag asleep => by
    by_cases here : p = s.cur
    · subst here
      simp only [put_same, Option.some.injEq] at asleep
      exact entry u k flag asleep
    · simp only [put_ne _ _ here] at asleep
      exact a.waits p u k flag asleep
  acctFh := a.acctFh

theorem wp_setWait {w : Wait} (a : RefAcc s X Y)
    (entry : ∀ u k flag, w = .opening u k flag → k < OFTSIZE) :
    wp Counted (setWait (some w)) (fun _ t => RefAcc t X Y) s := a.wait entry

theorem RefAcc.openEntry {ino flag : Nat} {drv : Driver} (a : RefAcc s [ino] [])
    (entry : Reserved s k) (u : Nat) (sound : entrySound s k ino flag drv) :
    wp Counted (openEntry u k flag ino drv) (fun _ t => RefAcc t [] []) s := by
  have hk := entry.1
  have set := a.settle hk entry.2 (o := { s.oftab k with inode := some ino }) rfl
  unfold Fuzix.openEntry
  rw [wp_bind]
  show wp Counted _ _ { s with oftab := put s.oftab k { s.oftab k with inode := some ino } }
  rw [wp_bind, wp_get]
  have a := set.pay
  split
  · rename_i e _
    rw [wp_bind]
    exact wp_mono (held_setError e _) fun _ t kept => (kept.acc a).cantopen hk u
  · rename_i allowed
    rw [wp_ite]
    refine ⟨fun device => ?_, fun regular => ?_⟩
    · have post : After (Fuzix.devOpeni k drv)
          { s with oftab := put s.oftab k { s.oftab k with inode := some ino } }
          fun _ t => ¬ truncRefused t k flag := sound allowed device
      rw [wp_bind]
      refine wp_mono (wp_after (a.devOpeni hk drv) post) ?_
      rintro answer t ⟨a, cut⟩
      cases answer with
      | no => exact a.cantopen hk u
      | yes => exact a.openFinish u cut
      | waits =>
        rw [wp_bind]
        refine wp_setWait a ?_
        rintro u' k' flag' same
        cases same
        exact hk
    · refine a.openFinish u ?_
      rintro ⟨i, inode, write, _, _, readonly⟩
      simp only [put_same, Option.some.injEq] at inode
      subst inode
      rw [openDenied_rdonly allowed (Bool.eq_false_of_not_eq_true regular) write] at readonly
      exact Bool.false_ne_true readonly

theorem held_ufAllocN (base : Nat) : Held (ufAllocN base) := by
  refine Keeps.get.bind fun s => ?_
  split
  · exact held_pure _
  · exact (held_setError _).bind fun _ => held_pure _

def openSound (s : Kernel) (name : Path) (flag mode : Nat) (drv : Driver) : Prop :=
  badFlags flag = false → After ufAlloc s fun u t => u ≠ none → freshEntry t ∧
    After oftAlloc t fun k v => ∀ k', k = some k' → openInodeSound v name flag ∧ After (openInode name flag mode) v fun ino w =>
        ∀ i, ino = some i → entrySound w k' i flag drv

theorem RefAcc.open (a : RefAcc s [] []) {name : Path} {flag mode : Nat} {drv : Driver}
    (sound : openSound s name flag mode drv) :
    wp Counted (open' name flag mode drv) (fun _ t => RefAcc t [] []) s := by
  unfold open'
  rw [wp_ite]
  refine ⟨fun _ => ?_, fun good => ?_⟩
  · rw [wp_bind]
    exact wp_held (held_setError EINVAL) a
  · rw [wp_bind]
    refine wp_mono (wp_after (held_ufAllocN 0 s) (sound (Bool.eq_false_of_not_eq_true good))) ?_
    rintro slot t ⟨kept, sound⟩
    have a := kept.acc a
    cases slot with
    | none => exact a
    | some u =>
      obtain ⟨fresh, sound⟩ := sound (Option.some_ne_none u)
      rw [wp_bind]
      refine wp_mono (wp_after (a.oftAlloc fresh) sound) ?_
      rintro entry v ⟨⟨a, reserved⟩, sound⟩
      cases entry with
      | none =>
        rw [wp_bind]
        exact wp_held (held_setFile u NO_FILE) a
      | some k =>
        obtain ⟨res, _, _, _⟩ := reserved k rfl
        obtain ⟨found, sound⟩ := sound k rfl
        rw [wp_bind]
        refine wp_mono (wp_and_ok (wp_after (a.openInode mode found) sound)
          (steady_openInode name flag mode v)) ?_
        rintro ino w ⟨⟨a, sound⟩, kept⟩
        have res : Reserved w k := by
          unfold Reserved
          rw [kept.oftab]
          exact res
        cases ino with
        | none => exact a.cantopen res.1 u
        | some i => exact a.openEntry res u (sound i rfl)

end Files

end Fuzix
