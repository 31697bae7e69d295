import Fuzix.FileCalls
import Fuzix.RefWalks

/-!
# References across the calls on names

Every call on names gives back what its walks took, on success and on every error
path, unless it runs into one of the situations its `…Sound` condition excludes.
-/

set_option linter.unusedSectionVars false

namespace Fuzix

open Wp Table Words

variable [Build]

section Names
variable {s t : Kernel} {X : List Nat}

/-- The end of many error paths. -/
theorem wp_refuse {α : Type} {i : Nat} (a : RefAcc s (i :: X) []) (e : Nat) (r : α) :
    wp Counted (do
      setError e
      iDeref i
      return r) (fun _ t => RefAcc t X []) s := by
  rw [wp_bind]
  refine wp_mono (held_setError e s) fun _ t kept => ?_
  rw [wp_bind]
  exact wp_iDeref (kept.acc a)

theorem wp_drop {α : Type} {i : Nat} (a : RefAcc s (i :: X) []) (r : α) :
    wp Counted (do
      iDeref i
      return r) (fun _ t => RefAcc t X []) s := by
  rw [wp_bind]
  exact wp_iDeref a

theorem wp_drop₂ {α : Type} {i j : Nat} (a : RefAcc s (i :: j :: X) []) (r : α) :
    wp Counted (do
      iDeref i
      iDeref j
      return r) (fun _ t => RefAcc t X []) s := by
  rw [wp_bind]
  exact wp_mono (wp_iDeref a) fun _ t a => wp_drop a r

theorem wp_esuper {Q : Bool → Kernel → Prop} (denied : ∀ t, RefsKept s t → Q true t)
    (granted : super s = true → Q false s) : wp Counted esuper Q s := by
  unfold esuper
  rw [wp_bind, wp_get, wp_ite]
  refine ⟨fun root => granted (decide_eq_true root), fun _ => ?_⟩
  rw [wp_bind]
  exact wp_mono (held_setError EPERM s) fun _ t kept => denied t kept

/-! ## link, unlink, mknod -/

theorem held_linkDenied (s : Kernel) (ino : Nat) : Held (linkDenied s ino) :=
  Keeps.ite (held_of_quiet quiet_esuper) (held_pure _)

def linkSound (s : Kernel) (name1 name2 : Path) : Prop :=
  pathSound name1 s ∧ After (nOpen name1) s fun ino t => ∀ i, ino = some i →
    After (linkDenied t i) t fun _ u => pathSound name2 u

theorem wp_link (a : RefAcc s [] []) {name1 name2 : Path} (sound : linkSound s name1 name2) :
    wp Counted (link name1 name2) (fun _ t => RefAcc t [] []) s := by
  unfold link
  rw [wp_bind]
  refine wp_mono (wp_after (wp_nOpen a (by decide) sound.1) sound.2) ?_
  rintro found t ⟨a, second⟩
  cases found with
  | none => exact a
  | some ino =>
    rw [wp_bind, wp_get, wp_bind]
    refine wp_mono (wp_after (held_linkDenied t ino t) (second ino rfl)) ?_
    rintro denied u ⟨kept, second⟩
    have a : RefAcc u [ino] [] := kept.acc a
    rw [wp_ite]
    refine ⟨fun _ => wp_drop a none, fun _ => ?_⟩
    rw [wp_ite]
    refine ⟨fun _ => wp_refuse a EMLINK none, fun _ => ?_⟩
    rw [wp_bind]
    refine wp_mono (wp_nOpenParent a (by simp) second) ?_
    rintro ⟨ino2, parent2⟩ v ⟨a, both⟩
    cases parent2 with
    | none =>
      obtain rfl := both rfl
      exact wp_drop a none
    | some parent2 =>
      cases ino2 with
      | some ino2 =>
        rw [wp_bind]
        refine wp_mono (wp_iDeref a) fun _ w a => ?_
        rw [wp_bind]
        refine wp_mono (wp_iDeref a) fun _ w a => ?_
        exact wp_refuse a EEXIST none
      | none =>
        have a : RefAcc v [parent2, ino] [] := a
        rw [wp_bind, wp_get, wp_ite]
        refine ⟨fun _ => ?_, fun _ => ?_⟩
        · rw [wp_bind]
          exact wp_mono (wp_iDeref a) fun _ w a => wp_refuse a EXDEV none
        · rw [wp_bind]
          refine wp_mono (held_filenameOf name2 v) fun fname w kept₁ => ?_
          rw [wp_bind]
          refine wp_mono (held_chLink parent2 [] fname _ w) fun linked x kept₂ => ?_
          have a := (kept₁.trans kept₂).acc a
          rw [wp_ite]
          refine ⟨fun _ => ?_, fun _ => wp_drop₂ a none⟩
          have update : Held (do
              modifyNode ino (fun d => { d with nlink := (d.nlink + 1) % 65536 })
              wrInode ino
              setftime ino ⟨false, false, true⟩) :=
            (held_modifyNode ino _).bind fun _ => (held_wrInode ino).bind fun _ =>
              held_setftime ino _
          have run := wp_held update a
          simp only [wp_bind] at run ⊢
          refine wp_mono run fun _ y run => ?_
          refine wp_mono run fun _ y run => ?_
          refine wp_mono run fun _ y a => ?_
          refine wp_mono (wp_iDeref a) fun _ z a => ?_
          exact wp_iDeref a

theorem held_unlinki (ino pino : Nat) (fname : List UInt8) : Held (unlinki ino pino fname) :=
  held_of_quiet (quiet_unlinki ino pino fname)

/-- The name is not there. -/
theorem wp_noent {parent : Option Nat} (a : RefAcc s (parent.toList ++ []) []) :
    wp Counted (do derefOption parent; setError ENOENT; return (none : Option Nat))
      (fun _ t => RefAcc t [] []) s := by
  rw [wp_bind]
  refine wp_mono (wp_derefOption a) fun _ u a => ?_
  rw [wp_bind]
  exact wp_held (held_setError ENOENT) a

theorem wp_unlink (a : RefAcc s [] []) {path : Path} (sound : pathSound path s) :
    wp Counted (unlink path) (fun _ t => RefAcc t [] []) s := by
  unfold unlink
  rw [wp_bind]
  refine wp_mono (wp_nOpenParent a (by decide) sound) ?_
  rintro ⟨ino, pino⟩ t ⟨a, both⟩
  cases ino with
  | none =>
    exact wp_noent a
  | some ino =>
    cases pino with
    | none => exact absurd (both rfl) (Option.some_ne_none ino)
    | some pino =>
      have a : RefAcc t [pino, ino] [] := a.perm (List.Perm.swap pino ino [])
      rw [wp_bind]
      refine wp_mono (held_filenameOf path t) fun fname u kept₁ => ?_
      rw [wp_bind]
      refine wp_mono (held_unlinki ino pino fname u) fun failed v kept₂ => ?_
      exact wp_drop₂ ((kept₁.trans kept₂).acc a) _

def mknodSound (s : Kernel) (name : Path) (mode : Nat) : Prop :=
  After (setError 0) s fun _ t =>
    ¬ (super t = false ∧ fmt mode ≠ F_PIPE) → pathSound name t

theorem wp_mknod (a : RefAcc s [] []) {name : Path} {mode : Nat} (dev : Nat)
    (sound : mknodSound s name mode) :
    wp Counted (mknod name mode dev) (fun _ t => RefAcc t [] []) s := by
  unfold mknod
  rw [wp_bind]
  refine wp_mono (wp_after (held_setError 0 s) sound) ?_
  rintro _ t ⟨kept, sound⟩
  have a := kept.acc a
  rw [wp_bind, wp_get, wp_ite]
  refine ⟨fun _ => ?_, fun allowed => ?_⟩
  · rw [wp_bind]
    exact wp_held (held_setError EPERM) a
  · rw [wp_bind]
    refine wp_mono (wp_nOpenParent a (by decide) (sound allowed)) ?_
    rintro ⟨ino, parent⟩ u ⟨a, both⟩
    cases parent with
    | none =>
      obtain rfl := both rfl
      rw [wp_bind]
      exact wp_held (held_setError ENOENT) a
    | some parent =>
      cases ino with
      | some ino =>
        rw [wp_bind]
        refine wp_mono (held_setError EEXIST u) fun _ v kept => ?_
        exact wp_drop₂ (kept.acc a) none
      | none =>
        have a : RefAcc u [parent] [] := a
        rw [wp_bind]
        refine wp_mono (held_filenameOf name u) fun fname v kept => ?_
        rw [wp_bind]
        refine wp_mono (wp_newfile (kept.acc a) (by decide) fname) fun made w a => ?_
        cases made with
        | none => exact a
        | some ino =>
          rw [wp_bind, wp_get]
          have update : ∀ f g, (∀ c, (g c : Cinode).refs = c.refs) → Held (do
              modifyNode ino f
              modifyInode ino g
              setftime ino Times.all
              wrInode ino) := fun f g same =>
            (held_modifyNode ino f).bind fun _ => (held_modifyInode ino same).bind fun _ =>
              (held_setftime ino _).bind fun _ => held_wrInode ino
          have run := wp_held (update (fun d => { d with mode := andNot (mode % 65536) w.u.mask })
            (fun c => { c with node := { c.node with
              addr := put c.node.addr 0 (if isdevice c then dev % 65536 else 0) } })
            fun _ => rfl) a
          simp only [wp_bind] at run ⊢
          refine wp_mono run fun _ x run => ?_
          refine wp_mono run fun _ x run => ?_
          refine wp_mono run fun _ x run => ?_
          refine wp_mono run fun _ x a => ?_
          exact wp_iDeref a

/-! ## chdir, fchdir, chroot -/

theorem wp_chdiroot {ino old : Nat} {move : Udata → Udata} (a : RefAcc s [ino] [])
    (r : Running s) (named : 0 < inodeHolders s old)
    (balance : ∀ u i, u.cwd = s.u.cwd → u.root = s.u.root →
      [ino].count i + u.holds i = [old].count i + (move u).holds i) :
    wp Counted (chdiroot ino old move) (fun _ t => RefAcc t [] []) s := by
  unfold chdiroot
  rw [wp_bind, wp_get, wp_ite]
  refine ⟨fun _ => wp_refuse a ENOTDIR none, fun _ => ?_⟩
  rw [wp_bind]
  refine wp_mono (wp_iDeref_owed a named) ?_
  rintro _ t ⟨a, kept⟩
  have r : Running t := kept.filesKept.seated.running ⟨r.cur, r.live, r.awake⟩
  have dirs : t.u.cwd = s.u.cwd ∧ t.u.root = s.u.root := kept.dirs
  rw [wp_bind, wp_modifyU]
  have new : ∀ i, Proc.holds { t.ptab t.cur with u := move t.u } i = (move t.u).holds i :=
    Proc.holds_live r.live
  refine RefAcc.pay (i := ino) (a.reseat r.cur (fun i => ?_) (a.waits t.cur))
  rw [new, Proc.holds_live r.live]
  exact balance t.u i dirs.1 dirs.2

theorem wp_chdir_to {ino : Nat} (a : RefAcc s [ino] []) (r : Running s) :
    wp Counted (chdiroot ino s.u.cwd fun u => { u with cwd := ino })
      (fun _ t => RefAcc t [] []) s := by
  have holder := proc_holds_le (s := s) r.cur s.u.cwd
  rw [Proc.holds_live r.live] at holder
  have one : 1 ≤ s.u.holds s.u.cwd := by
    unfold Udata.holds
    rw [if_pos rfl]
    omega
  refine wp_chdiroot a r (Nat.lt_of_lt_of_le one holder) fun u i cwd _ => ?_
  unfold Udata.holds
  rw [count_one, count_one, cwd]
  dsimp only
  omega

theorem wp_chdir (a : RefAcc s [] []) (r : Running s) {dir : Path} (sound : pathSound dir s) :
    wp Counted (chdir dir) (fun _ t => RefAcc t [] []) s := by
  unfold chdir
  rw [wp_bind]
  refine wp_mono (wp_and_ok (wp_nOpen a (by simp) sound) (steady_nOpen dir s)) ?_
  rintro found t ⟨a, kept⟩
  cases found with
  | none => exact a
  | some ino =>
    rw [wp_bind, wp_get]
    exact wp_chdir_to a (kept.seated.running r)

theorem held_getinode (fd : Nat) : Held (getinode fd) := held_of_quiet (quiet_getinode fd)

theorem wp_fchdir (a : RefAcc s [] []) (r : Running s) (fd : Nat) :
    wp Counted (fchdir fd) (fun _ t => RefAcc t [] []) s := by
  unfold fchdir
  rw [wp_bind]
  refine wp_mono (wp_and_ok (held_getinode fd s) (steady_getinode fd s)) ?_
  rintro found t ⟨kept, files⟩
  have a := kept.acc a
  cases found with
  | none => exact a
  | some ino =>
    rw [wp_bind]
    refine wp_mono (wp_and_ok (wp_iRef a (by simp) ino) (steady_iRef ino t)) ?_
    rintro _ u ⟨a, files'⟩
    rw [wp_bind, wp_get]
    exact wp_chdir_to a ((files.trans files').seated.running r)

theorem wp_chroot (a : RefAcc s [] []) (r : Running s) {dir : Path}
    (sound : super s = true → pathSound dir s) :
    wp Counted (chroot dir) (fun _ t => RefAcc t [] []) s := by
  unfold chroot
  rw [wp_bind]
  refine wp_esuper (fun t kept => kept.acc a) fun allowed => ?_
  rw [if_neg Bool.false_ne_true, wp_bind]
  refine wp_mono (wp_and_ok (wp_nOpen a (by simp) (sound allowed)) (steady_nOpen dir s)) ?_
  rintro found t ⟨a, kept⟩
  have r := kept.seated.running r
  cases found with
  | none => exact a
  | some ino =>
    have holder := proc_holds_le (s := t) r.cur t.u.root
    rw [Proc.holds_live r.live] at holder
    have one : 1 ≤ t.u.holds t.u.root := by
      unfold Udata.holds
      rw [if_pos rfl]
      omega
    rw [wp_bind, wp_get]
    refine wp_chdiroot a r (Nat.lt_of_lt_of_le one holder) fun u i _ root => ?_
    unfold Udata.holds
    rw [count_one, count_one, root]
    dsimp only
    omega

/-! ## rename -/

/-- Both walks avoid the root's `..`, and the second does not end where the first did. -/
def renameSound (s : Kernel) (src dst : Path) : Prop :=
  pathSound src s ∧ After (nOpenParent src) s fun r t => ∀ srci srcp,
    r = (some srci, some srcp) →
      After (do
          modifyU (fun u => { u with rename := some srci })
          filenameOf dst) t fun _ u =>
        pathSound dst u ∧ After (nOpenParent dst) u fun r _ => r.1 ≠ some srci

theorem wp_renameOver {dsti : Nat} (a : RefAcc s (dsti :: X) []) (dstp : Nat)
    (fname : List UInt8) :
    wp Counted (renameOver dsti dstp fname) (fun _ t => RefAcc t X []) s := by
  unfold renameOver
  rw [wp_bind, wp_get, wp_ite]
  refine ⟨fun _ => wp_refuse a EISDIR true, fun _ => ?_⟩
  rw [wp_bind]
  refine wp_mono (held_unlinki dsti dstp fname s) fun failed t kept => ?_
  rw [wp_ite]
  exact ⟨fun _ => wp_drop (kept.acc a) true, fun _ => wp_drop (kept.acc a) false⟩

theorem wp_renameRemove {dsti : Option Nat} (a : RefAcc s (dsti.toList ++ X) []) (dstp : Nat)
    (fname : List UInt8) :
    wp Counted (renameRemove dsti dstp fname) (fun _ t => RefAcc t X []) s := by
  cases dsti with
  | none => exact a
  | some dsti => exact wp_renameOver a dstp fname

theorem held_renameLinks (src : Path) (srci srcp dstp : Nat) (fname : List UInt8) :
    Held (renameLinks src srci srcp dstp fname) := by
  refine (held_chLink _ _ _ _).bind fun linked => Keeps.ite ?_ (held_pure _)
  refine (held_filenameOf src).bind fun old => (held_chLink _ _ _ _).bind fun removed => ?_
  refine Keeps.ite ?_ (held_pure _)
  refine (held_wrInode _).bind fun _ => (held_wrInode _).bind fun _ => ?_
  exact (held_of_quiet quiet_sync).bind fun _ => held_pure _

theorem wp_renameInto {dsti : Option Nat} {dstp : Nat}
    (a : RefAcc s (dsti.toList ++ dstp :: X) []) (src : Path) (srci srcp : Nat)
    (fname : List UInt8) :
    wp Counted (renameInto src srci srcp dsti dstp fname) (fun _ t => RefAcc t X []) s := by
  unfold renameInto
  rw [wp_bind, wp_get]
  split
  · rename_i e _
    rw [wp_bind]
    refine wp_mono (held_setError e s) fun _ t kept => ?_
    rw [wp_bind]
    exact wp_mono (wp_derefOption (kept.acc a)) fun _ u a => wp_drop a none
  · rw [wp_bind]
    refine wp_mono (wp_renameRemove a dstp fname) fun stays t a => ?_
    rw [wp_ite]
    refine ⟨fun _ => wp_drop a none, fun _ => ?_⟩
    rw [wp_bind]
    refine wp_mono (held_renameLinks src srci srcp dstp fname t) fun ret u kept => ?_
    exact wp_drop (kept.acc a) ret

theorem wp_rename (a : RefAcc s [] []) {src dst : Path} (sound : renameSound s src dst) :
    wp Counted (rename src dst) (fun _ t => RefAcc t [] []) s := by
  unfold rename
  rw [wp_bind]
  refine wp_mono (wp_after (wp_nOpenParent a (by simp) sound.1) sound.2) ?_
  rintro ⟨srci, srcp⟩ t ⟨⟨a, both⟩, second⟩
  cases srci with
  | none =>
    rw [wp_bind]
    exact wp_derefOption a
  | some srci =>
    cases srcp with
    | none => exact absurd (both rfl) (Option.some_ne_none srci)
    | some srcp =>
      have look : Held (do
          modifyU (fun u => { u with rename := some srci })
          filenameOf dst) := by
        refine Keeps.bind (held_modifyU ?_ ?_) fun _ => held_filenameOf dst
        · exact fun _ => rfl
        · exact fun _ => rfl
      have run := wp_after (look t) (second srci srcp rfl)
      rw [wp_bind] at run
      rw [wp_bind]
      refine wp_mono run fun _ u run => ?_
      rw [wp_bind]
      refine wp_mono run ?_
      rintro fname v ⟨kept, third, other⟩
      rw [wp_bind]
      have few : [srci, srcp].length ≤ 8 := by simp
      refine wp_mono (wp_after (wp_nOpenParent (kept.acc a) few third) other) ?_
      rintro ⟨dsti, dstp⟩ w ⟨⟨a, both⟩, other⟩
      have found : wp Counted (renameFound src srci srcp dsti dstp fname)
          (fun _ t => RefAcc t [srci, srcp] []) w := by
        unfold renameFound
        rw [if_neg other]
        cases dstp with
        | none =>
          obtain rfl := both rfl
          exact a
        | some dstp =>
          refine wp_renameInto ?_ src srci srcp fname
          have a : RefAcc w (dsti.toList ++ [dstp] ++ [srci, srcp]) [] := a
          rwa [List.append_assoc] at a
      rw [wp_bind]
      exact wp_mono found fun ret x a => wp_drop₂ a ret

/-! ## mkdir and rmdir -/

/-- The new directory can be made: when it cannot, the parent is given back twice. -/
def mkdirSound (s : Kernel) (name : Path) : Prop :=
  pathSound name s ∧ After (nOpenParent name) s fun r t => ∀ parent, r = (none, some parent) →
    (t.itab parent).node.nlink ≠ 0xFFFF →
      After (do
        let fname ← filenameOf name
        iRef parent
        newfile parent fname) t fun made _ => made ≠ none

theorem held_mkdirEntries (ino parent : Nat) : Held (mkdirEntries ino parent) :=
  (held_chLink _ _ _ _).bind fun _ => Keeps.ite (held_chLink _ _ _ _) (held_pure _)

theorem wp_mkdirFill {ino parent : Nat} (a : RefAcc s (ino :: parent :: X) []) (mode : Nat)
    (fname : List UInt8) :
    wp Counted (mkdirFill ino parent mode fname) (fun _ t => RefAcc t X []) s := by
  unfold mkdirFill
  rw [wp_bind]
  refine wp_mono (held_modifyNode ino _ s) fun _ t kept₁ => ?_
  rw [wp_bind]
  refine wp_mono (held_setftime ino _ t) fun _ u kept₂ => ?_
  rw [wp_bind]
  refine wp_mono (held_mkdirEntries ino parent u) fun filled v kept₃ => ?_
  have a := ((kept₁.trans kept₂).trans kept₃).acc a
  rw [wp_ite]
  refine ⟨fun _ => ?_, fun _ => ?_⟩
  · rw [wp_bind, wp_get]
    have update : ∀ f g h, Held (do
        modifyNode ino f
        modifyNode parent g
        modifyNode ino h) := fun f g h =>
      (held_modifyNode ino f).bind fun _ => (held_modifyNode parent g).bind fun _ =>
        held_modifyNode ino h
    have run := wp_held (update (fun d => { d with nlink := 2 })
      (fun d => { d with nlink := (d.nlink + 1) % 65536 })
      (fun d => { d with mode := andNot (mode % 65536) v.u.mask % 4096 + F_DIR })) a
    simp only [wp_bind] at run ⊢
    refine wp_mono run fun _ w run => ?_
    refine wp_mono run fun _ w run => ?_
    refine wp_mono run fun _ w a => ?_
    refine wp_mono (wp_iDeref (a.perm (List.Perm.swap parent ino X))) fun _ x a => ?_
    refine wp_mono (held_wrInode ino x) fun _ y kept => ?_
    exact wp_iDeref (kept.acc a)
  · rw [wp_bind]
    refine wp_mono (held_chLink parent fname [] none v) fun _ w kept₁ => ?_
    rw [wp_bind]
    refine wp_mono (held_modifyNode ino _ w) fun _ x kept₂ => ?_
    rw [wp_bind]
    refine wp_mono (held_wrInode ino x) fun _ y kept₃ => ?_
    exact wp_drop₂ (((kept₁.trans kept₂).trans kept₃).acc a) none

theorem wp_mkdir (a : RefAcc s [] []) {name : Path} (mode : Nat) (sound : mkdirSound s name) :
    wp Counted (mkdir name mode) (fun _ t => RefAcc t [] []) s := by
  unfold mkdir
  rw [wp_bind]
  refine wp_mono (wp_after (wp_nOpenParent a (by simp) sound.1) sound.2) ?_
  rintro ⟨ino, parent⟩ t ⟨⟨a, both⟩, made⟩
  cases parent with
  | none =>
    obtain rfl := both rfl
    rw [wp_bind]
    exact wp_held (held_setError ENOENT) a
  | some parent =>
    cases ino with
    | some ino =>
      rw [wp_bind]
      exact wp_mono (held_setError EEXIST t) fun _ u kept => wp_drop₂ (kept.acc a) none
    | none =>
      have a : RefAcc t [parent] [] := a
      rw [wp_bind, wp_get, wp_ite]
      refine ⟨fun _ => wp_refuse a EMLINK none, fun room => ?_⟩
      have create : wp Counted (do
          let fname ← filenameOf name
          iRef parent
          newfile parent fname) (fun r u => RefAcc u (r.toList ++ [parent]) []) t := by
        rw [wp_bind]
        refine wp_mono (held_filenameOf name t) fun fname u kept => ?_
        rw [wp_bind]
        refine wp_mono (wp_iRef (kept.acc a) (by simp) parent) fun _ v a => ?_
        exact wp_newfile a (by simp) fname
      have run := wp_after create (made parent rfl room)
      rw [wp_bind] at run
      rw [wp_bind]
      refine wp_mono run fun fname u run => ?_
      rw [wp_bind] at run
      rw [wp_bind]
      refine wp_mono run fun _ v run => ?_
      rw [wp_bind]
      refine wp_mono run ?_
      rintro found w ⟨a, made⟩
      cases found with
      | none => exact absurd rfl made
      | some ino => exact wp_mkdirFill a mode fname

theorem held_rmdirDenied (s : Kernel) (ino parent : Nat) : Held (rmdirDenied s ino parent) := by
  refine Keeps.ite ((held_setError _).bind fun _ => held_pure _) ?_
  exact Keeps.ite ((held_setError _).bind fun _ => held_pure _) (held_pure _)

theorem wp_rmdir (a : RefAcc s [] []) {path : Path} (sound : pathSound path s) :
    wp Counted (rmdir path) (fun _ t => RefAcc t [] []) s := by
  unfold rmdir
  rw [wp_bind]
  refine wp_mono (wp_nOpenParent a (by simp) sound) ?_
  rintro ⟨ino, parent⟩ t ⟨a, both⟩
  cases ino with
  | none =>
    exact wp_noent a
  | some ino =>
    cases parent with
    | none => exact absurd (both rfl) (Option.some_ne_none ino)
    | some parent =>
      have a : RefAcc t [parent, ino] [] := a.perm (List.Perm.swap parent ino [])
      rw [wp_bind, wp_get, wp_bind]
      refine wp_mono (held_rmdirDenied t ino parent t) fun denied u kept₁ => ?_
      rw [wp_ite]
      refine ⟨fun _ => wp_drop₂ (kept₁.acc a) none, fun _ => ?_⟩
      rw [wp_bind]
      refine wp_mono (held_filenameOf path u) fun fname v kept₂ => ?_
      rw [wp_bind]
      refine wp_mono (held_chLink parent fname [] none v) fun removed w kept₃ => ?_
      have a := ((kept₁.trans kept₂).trans kept₃).acc a
      rw [wp_ite]
      refine ⟨fun _ => ?_, fun _ => wp_drop₂ a none⟩
      have update : Held (do
          modifyNode ino (fun d => { d with nlink := 0 })
          modifyNode parent (fun d => { d with nlink := if d.nlink = 0 then 1 else d.nlink - 1 })
          setftime ino ⟨false, false, true⟩
          wrInode parent
          wrInode ino) :=
        (held_modifyNode ino _).bind fun _ => (held_modifyNode parent _).bind fun _ =>
          (held_setftime ino _).bind fun _ => (held_wrInode parent).bind fun _ =>
            held_wrInode ino
      have run := wp_held update a
      simp only [wp_bind] at run ⊢
      refine wp_mono run fun _ x run => ?_
      refine wp_mono run fun _ x run => ?_
      refine wp_mono run fun _ x run => ?_
      refine wp_mono run fun _ x run => ?_
      refine wp_mono run fun _ x a => ?_
      exact wp_mono (wp_iDeref a) fun _ y a => wp_iDeref a

/-! ## mount and umount -/

theorem held_sync : Held sync := held_of_quiet quiet_sync

theorem held_fopen (dev : Nat) (drv : Driver) : Held (fopen dev drv) := by
  refine Keeps.ite ((held_setError _).bind fun _ => held_pure _) ?_
  cases drv with
  | opens _ => exact held_pure _
  | refuses _ => exact held_pure _
  | waits => exact held_pure _

theorem wp_fopen_valid (s : Kernel) (dev : Nat) (drv : Driver) :
    wp Counted (fopen dev drv) (fun r _ => r = true → validdev dev = true) s := by
  unfold fopen
  rw [wp_ite]
  refine ⟨fun _ => ?_, fun valid => ?_⟩
  · rw [wp_bind]
    exact wp_mono (held_setError ENXIO s) fun _ t _ no => absurd no Bool.false_ne_true
  · have valid := Bool.eq_true_of_not_eq_false valid
    cases drv with
    | opens _ => exact fun _ => valid
    | refuses _ => exact fun _ => valid
    | waits => exact fun _ => valid

theorem valid_ne {dev : Nat} (valid : validdev dev = true) : dev ≠ NO_DEVICE := by
  rintro rfl
  rw [Build.noDevice] at valid
  exact Bool.false_ne_true valid

theorem fsTabGet_some {dev m : Nat} (found : fsTabGet s dev = some m) :
    m < NMOUNTS ∧ (s.fstab m).dev = dev := by
  have same := List.find?_some found
  have inRange := List.mem_range.mp (List.mem_of_find?_eq_some found)
  exact ⟨inRange, of_decide_eq_true same⟩

theorem Mount.holds_free {m : Mount} (free : m.dev = NO_DEVICE) (i : Nat) : m.holds i = 0 :=
  if_neg fun h => h.1 free

theorem Mount.holds_used {m : Mount} (used : m.dev ≠ NO_DEVICE) (i : Nat) :
    m.holds i = m.fs.mntpt.toList.count i := by
  unfold Mount.holds
  cases m.fs.mntpt with
  | none => rw [if_neg (by simp)]; rfl
  | some j =>
    rw [Option.toList_some, count_one]
    by_cases same : j = i
    · rw [if_pos same, if_pos ⟨used, congrArg some same⟩]
    · rw [if_neg same, if_neg fun h => same (Option.some.inj h.2)]

theorem wp_refOption {ino : Option Nat} (a : RefAcc s X ino.toList) (few : X.length ≤ 14) :
    wp Counted (refOption ino) (fun _ t => RefAcc t X []) s := by
  cases ino with
  | none => exact a
  | some i => exact (a.incr few i rfl).pay

/-- A file system that is read into a free slot is not mounted yet. -/
theorem wp_modifyFs_free (a : RefAcc s X []) {m : Nat} (free : (s.fstab m).dev = NO_DEVICE)
    (f : Filesys → Filesys) :
    wp Counted (modifyFs m f) (fun _ t => RefAcc t X [] ∧ (t.fstab m).dev = NO_DEVICE) s := by
  have kept : RefsKept s { s with
      fstab := put s.fstab m { s.fstab m with fs := f (s.fstab m).fs } } :=
    { RefsKept.refl s with
      fstab := fun _ => put_fixed (by
        funext i
        rw [Mount.holds_free free]
        exact if_neg fun h => h.1 free) }
  refine ⟨kept.acc a, ?_⟩
  show (put s.fstab m _ m).dev = NO_DEVICE
  rw [put_same]
  exact free

/-- The slot that comes into use holds its mount point. -/
theorem wp_occupy (a : RefAcc s X []) (few : X.length ≤ 14) {m : Nat} (hm : m < NMOUNTS)
    (free : (s.fstab m).dev = NO_DEVICE) {mnt : Mount} (used : mnt.dev ≠ NO_DEVICE) :
    wp Counted (do
      modifyMount m (fun _ => mnt)
      refOption mnt.fs.mntpt
      sync
      return false) (fun _ t => RefAcc t X []) s := by
  have owed : RefAcc { s with fstab := put s.fstab m mnt } X mnt.fs.mntpt.toList := by
    refine a.remount hm fun i => ?_
    rw [Mount.holds_free free, Mount.holds_used used, List.count_nil]
    omega
  rw [wp_bind]
  show wp Counted _ _ { s with fstab := put s.fstab m mnt }
  rw [wp_bind]
  refine wp_mono (wp_refOption owed few) fun _ t a => ?_
  rw [wp_bind]
  exact wp_held held_sync a

theorem wp_fmount (a : RefAcc s X []) (few : X.length ≤ 14) (dev : Nat) (ino : Option Nat)
    (rdonly nosuid : Bool) (drv : Driver) :
    wp Counted (fmount dev ino rdonly nosuid drv) (fun _ t => RefAcc t X []) s := by
  unfold fmount
  rw [wp_bind]
  refine wp_mono (wp_and (held_fopen dev drv s) (wp_fopen_valid s dev drv)) ?_
  rintro opened t ⟨kept, valid⟩
  rw [wp_ite]
  refine ⟨fun yes => ?_, fun _ => kept.acc a⟩
  have used := valid_ne (valid yes)
  have a := kept.acc a
  rw [wp_bind, wp_get]
  split
  · rw [wp_bind]
    exact wp_held (held_setError EMFILE) a
  · rename_i m found
    obtain ⟨hm, free⟩ := fsTabGet_some found
    rw [wp_bind]
    have read : Keeps Counted DataOnly (bread dev 1) :=
      (quiet_bread dev 1).mono (fun _ calm => calm.2) fun _ _ kept => kept
    refine wp_mono (read t) fun buf u data => ?_
    have a := data.acc a
    have free : (u.fstab m).dev = NO_DEVICE := by
      rw [← free]
      exact congrArg Place.dev (data.fstab m)
    cases buf with
    | none => exact a
    | some b =>
      dsimp only
      rw [wp_bind]
      refine wp_mono (wp_modifyFs_free a free fun _ => Filesys.load b) ?_
      rintro _ v ⟨a, free⟩
      rw [wp_ite]
      refine ⟨fun _ => ?_, fun _ => ?_⟩
      · rw [wp_bind]
        exact wp_held (held_setError EINVAL) a
      · exact wp_occupy a few hm free used

theorem wp_mountOnto (a : RefAcc s X []) (few : X.length ≤ 14) (sino dino : Nat)
    (rdonly nosuid : Bool) (drv : Driver) :
    wp Counted (mountOnto sino dino rdonly nosuid drv) (fun _ t => RefAcc t X []) s := by
  have refuse : ∀ e u, RefAcc u X [] → wp Counted (do
      setError e
      return true) (fun _ t => RefAcc t X []) u := by
    intro e u a
    rw [wp_bind]
    exact wp_held (held_setError e) a
  unfold mountOnto
  rw [wp_bind, wp_get]
  dsimp only
  rw [wp_ite]
  refine ⟨fun _ => refuse ENOTBLK s a, fun _ => ?_⟩
  rw [wp_ite]
  refine ⟨fun _ => refuse ENOTDIR s a, fun _ => ?_⟩
  rw [wp_bind]
  refine wp_mono (held_fopen _ drv s) fun opened t kept => ?_
  have a := kept.acc a
  rw [wp_ite]
  refine ⟨fun _ => ?_, fun _ => refuse ENXIO t a⟩
  rw [wp_bind, wp_get, wp_ite]
  refine ⟨fun _ => refuse EBUSY t a, fun _ => ?_⟩
  rw [wp_bind]
  refine wp_mono (held_sync t) fun _ u kept => ?_
  rw [wp_bind]
  refine wp_mono (wp_fmount (kept.acc a) few _ _ _ _ _) fun failed v a => ?_
  rw [wp_ite]
  exact ⟨fun _ => refuse EBUSY v a, fun _ => a⟩

def mountSound (s : Kernel) (spec dir : Path) : Prop :=
  super s = true → pathSound spec s ∧ After (nOpen spec) s fun r t =>
    ∀ sino, r = some sino → pathSound dir t

theorem wp_mount (a : RefAcc s [] []) {spec dir : Path} (flags : Nat) (drv : Driver)
    (sound : mountSound s spec dir) :
    wp Counted (mount spec dir flags drv) (fun _ t => RefAcc t [] []) s := by
  unfold mount
  rw [wp_bind]
  refine wp_esuper (fun t kept => kept.acc a) fun allowed => ?_
  obtain ⟨first, second⟩ := sound allowed
  rw [if_neg Bool.false_ne_true, wp_bind]
  refine wp_mono (wp_after (wp_nOpen a (by simp) first) second) ?_
  rintro found t ⟨a, second⟩
  cases found with
  | none => exact a
  | some sino =>
    rw [wp_bind]
    refine wp_mono (wp_nOpen a (by simp) (second sino rfl)) fun found u a => ?_
    cases found with
    | none => exact wp_drop a none
    | some dino =>
      rw [wp_bind]
      refine wp_mono (wp_mountOnto a (by simp) sino dino _ _ drv) fun failed v a => ?_
      exact wp_drop₂ a _

theorem held_remountInodes (dev : Nat) (rdonly : Bool) : Held (remountInodes dev rdonly) :=
  Keeps.modify fun s => { RefsKept.refl s with
    itab := fun i => by
      dsimp only
      split
      · split <;> rfl
      · rfl }

theorem held_modifyMount (m : Nat) {f : Mount → Mount} (h : ∀ mnt, (f mnt).holds = mnt.holds) :
    Held (modifyMount m f) :=
  Keeps.modify fun s => { RefsKept.refl s with fstab := fun _ => put_fixed (h _) }

theorem held_remount (m : Nat) (rdonly nosuid : Bool) : Held (remount m rdonly nosuid) := by
  refine Keeps.bind (held_modifyMount m ?_) fun _ => Keeps.ite (held_modifyMount m ?_) (held_pure _)
  · exact fun _ => rfl
  · exact fun _ => rfl

/-- The slot that goes out of use no longer holds its mount point. -/
theorem RefAcc.vacate {m i : Nat} (a : RefAcc s X [i]) (hm : m < NMOUNTS)
    (holder : (s.fstab m).holds = fun j => [i].count j) {mnt : Mount}
    (free : mnt.dev = NO_DEVICE) : RefAcc { s with fstab := put s.fstab m mnt } X [] := by
  refine a.remount hm fun j => ?_
  rw [holder, Mount.holds_free free]
  exact Nat.add_comm 0 _

theorem wp_doUmount (a : RefAcc s X []) {dev : Nat} (valid : validdev dev = true) (flags : Nat) :
    wp Counted (doUmount dev flags) (fun _ t => RefAcc t X []) s := by
  unfold doUmount
  rw [wp_bind, wp_get]
  split
  · rw [wp_bind]
    exact wp_held (held_setError EINVAL) a
  · rename_i m found
    obtain ⟨hm, mounted⟩ := fsTabGet_some found
    rw [wp_ite]
    refine ⟨fun _ => ?_, fun _ => ?_⟩
    · rw [wp_bind]
      exact wp_held (held_setError EBUSY) a
    · rw [wp_ite]
      refine ⟨fun _ => ?_, fun _ => ?_⟩
      · have again : Held (do
            remountInodes dev (hasFlag flags 0)
            sync
            remount m (hasFlag flags 0) (hasFlag flags 1)
            return some 0) :=
          (held_remountInodes dev _).bind fun _ => held_sync.bind fun _ =>
            (held_remount m _ _).bind fun _ => held_pure _
        exact wp_held again a
      · rw [wp_ite]
        refine ⟨fun _ => ?_, fun _ => ?_⟩
        · rw [wp_bind]
          exact wp_held (held_setError EBUSY) a
        · rw [wp_bind]
          have clean : Held (modifyFs m fun fs => { fs with fmod := .goClean }) :=
            held_modifyMount m fun _ => rfl
          refine wp_mono (clean s) fun _ t kept₁ => ?_
          rw [wp_bind]
          refine wp_mono (held_sync t) fun _ u kept₂ => ?_
          have kept := kept₁.trans kept₂
          have a := kept.acc a
          split
          · exact Counted.null
          · rename_i i mntpt
            have holder : (u.fstab m).holds = fun j => [i].count j := by
              rw [kept.fstab]
              funext j
              rw [Mount.holds_used (by rw [mounted]; exact valid_ne valid), mntpt]
              rfl
            have one := mount_holds_le (s := u) hm i
            rw [holder] at one
            dsimp only at one
            rw [List.count_singleton_self] at one
            rw [wp_bind]
            refine wp_mono (wp_iDeref_owed a (Nat.lt_of_lt_of_le Nat.one_pos one)) ?_
            rintro _ v ⟨a, data⟩
            have holder : (v.fstab m).holds = fun j => [i].count j :=
              (data.refsKept.fstab m).trans holder
            exact a.vacate hm holder rfl

theorem wp_umount (a : RefAcc s [] []) {spec : Path} (flags : Nat)
    (sound : super s = true → pathSound spec s) :
    wp Counted (umount spec flags) (fun _ t => RefAcc t [] []) s := by
  unfold umount
  rw [wp_bind]
  refine wp_esuper (fun t kept => kept.acc a) fun allowed => ?_
  rw [if_neg Bool.false_ne_true, wp_bind]
  refine wp_mono (wp_nOpen a (by simp) (sound allowed)) fun found t a => ?_
  cases found with
  | none => exact a
  | some sino =>
    have a : RefAcc t [sino] [] := a
    rw [wp_bind, wp_get, wp_bind]
    have done : wp Counted (umountFrom t sino flags) (fun _ u => RefAcc u [sino] []) t := by
      unfold umountFrom
      rw [wp_ite]
      refine ⟨fun _ => ?_, fun _ => ?_⟩
      · rw [wp_bind]
        exact wp_held (held_setError ENOTBLK) a
      · rw [wp_ite]
        refine ⟨fun _ => ?_, fun valid => ?_⟩
        · rw [wp_bind]
          exact wp_held (held_setError ENXIO) a
        · exact wp_doUmount a (Bool.eq_true_of_not_eq_false valid) flags
    exact wp_mono done fun ret u a => wp_drop a ret

end Names

end Fuzix
