import Fuzix.Walks

/-!
# Calls that leave the open files alone

Path walks take and drop references to inodes, and the calls on directories and
mounts change them, but none of these touches a descriptor, an entry of the open
file table or a count of readers and writers: `FilesKept`.
-/

set_option linter.unusedSectionVars false

namespace Fuzix

open Wp Table Words

/-- What the open-file accounting reads of a process. -/
structure Desk where
  status : Status
  parent : Nat
  ignoresChild : Bool
  wait : Option Wait
  files : Nat → Nat

def Proc.desk (p : Proc) : Desk := ⟨p.status, p.parent, p.ignoresChild, p.wait, p.u.files⟩

def Cinode.users (c : Cinode) : Nat × Nat := (c.readers, c.writers)

structure FilesKept (s t : Kernel) : Prop where
  oftab : t.oftab = s.oftab
  acctFh : t.acctFh = s.acctFh
  cur : t.cur = s.cur
  ptab : ∀ p, (t.ptab p).desk = (s.ptab p).desk
  itab : ∀ i, (t.itab i).users = (s.itab i).users

theorem FilesKept.refl (s : Kernel) : FilesKept s s :=
  ⟨rfl, rfl, rfl, fun _ => rfl, fun _ => rfl⟩

theorem FilesKept.trans {s t u : Kernel} (h : FilesKept s t) (k : FilesKept t u) :
    FilesKept s u where
  oftab := k.oftab.trans h.oftab
  acctFh := k.acctFh.trans h.acctFh
  cur := k.cur.trans h.cur
  ptab := fun p => (k.ptab p).trans (h.ptab p)
  itab := fun i => (k.itab i).trans (h.itab i)

instance : IsTrans Kernel FilesKept := ⟨fun _ _ _ => FilesKept.trans⟩

instance : Std.Refl FilesKept := ⟨FilesKept.refl⟩

theorem DataOnly.filesKept {s t : Kernel} (h : DataOnly s t) : FilesKept s t where
  oftab := h.oftab
  acctFh := h.acctFh
  cur := h.cur
  ptab := fun p => by
    have same := h.ptab p
    simp only [Proc.fixed, Udata.fixed, Proc.mk.injEq, Udata.mk.injEq] at same
    simp only [Proc.desk, same]
  itab := fun i => congrArg (fun u => (u.readers, u.writers)) (h.itab i)

abbrev Steady {α : Type} (m : K α) : Prop := Keeps Tame FilesKept m

theorem steady_of_quiet {α : Type} {m : K α} (h : Quiet m) : Steady m :=
  h.mono (fun _ calm => calm.1) fun _ _ => DataOnly.filesKept

theorem steady_get : Steady get := Keeps.get

theorem steady_pure {α : Type} (a : α) : Steady (pure a) := Keeps.pure a

theorem steady_null {α : Type} : Steady (throw .null : K α) := steady_of_quiet quiet_null

theorem steady_setError (e : Nat) : Steady (setError e) := steady_of_quiet (quiet_setError e)

theorem steady_modifyInode (i : Nat) {f : Cinode → Cinode}
    (h : ∀ c, (f c).users = c.users) : Steady (modifyInode i f) :=
  Keeps.modify fun s => { FilesKept.refl s with itab := fun _ => put_fixed (h _) }

theorem steady_modifyU {f : Udata → Udata} (h : ∀ u, (f u).files = u.files) :
    Steady (modifyU f) :=
  Keeps.modify fun s => { FilesKept.refl s with
    ptab := fun _ => put_fixed (congrArg (Desk.mk _ _ _ _) (h _)) }

theorem steady_modifyMount (m : Nat) (f : Mount → Mount) : Steady (modifyMount m f) :=
  Keeps.modify fun s => { FilesKept.refl s with }

theorem steady_onlyIf {c : Prop} {_ : Decidable c} {m : K Unit} (h : Steady m) :
    Steady (onlyIf c m) :=
  Keeps.ite h (steady_pure _)

variable [Build]

/-! ## Path walks -/

omit [Build] in
theorem steady_walks : Walks Tame FilesKept where
  stops _ tame := tame
  data _ _ := DataOnly.filesKept
  inode s _ _ readers writers := { FilesKept.refl s with
    itab := fun _ => put_fixed (Prod.ext readers writers) }

theorem steady_iRef (i : Nat) : Steady (iRef i) := steady_walks.iRef i

theorem steady_refOption (i : Option Nat) : Steady (refOption i) := by
  cases i with
  | none => exact steady_pure _
  | some i => exact steady_iRef i

theorem steady_iDeref (i : Nat) : Steady (iDeref i) := steady_walks.iDeref i

theorem steady_derefOption (i : Option Nat) : Steady (derefOption i) := by
  cases i with
  | none => exact steady_pure _
  | some i => exact steady_iDeref i

theorem steady_iOpen (dev ino : Nat) : Steady (iOpen dev ino) := steady_walks.iOpen dev ino

theorem steady_nOpenParent (name : Path) : Steady (nOpenParent name) := steady_walks.nOpenParent name

theorem steady_nOpen (name : Path) : Steady (nOpen name) := steady_walks.nOpen name

theorem steady_newfile (pino : Nat) (name : List UInt8) : Steady (newfile pino name) := steady_walks.newfile pino name

/-! ## Calls on the data -/

theorem steady_filenameOf (name : Path) : Steady (filenameOf name) :=
  steady_of_quiet (quiet_filenameOf name)

theorem steady_chLink (wd : Nat) (oldname newname : List UInt8) (nindex : Option Nat) :
    Steady (chLink wd oldname newname nindex) :=
  steady_of_quiet (quiet_chLink _ _ _ _)

theorem steady_wrInode (i : Nat) : Steady (wrInode i) := steady_of_quiet (quiet_wrInode i)

theorem steady_setftime (i : Nat) (flag : Times) : Steady (setftime i flag) :=
  steady_of_quiet (quiet_setftime i flag)

theorem steady_modifyNode (i : Nat) (f : Dinode → Dinode) : Steady (modifyNode i f) :=
  steady_of_quiet (quiet_modifyNode i f)

theorem steady_esuper : Steady esuper := steady_of_quiet quiet_esuper

theorem steady_sync : Steady sync := steady_of_quiet quiet_sync

theorem steady_getinode (fd : Nat) : Steady (getinode fd) := steady_of_quiet (quiet_getinode fd)

/-! ## Calls on directories -/

theorem steady_link (name1 name2 : Path) : Steady (link name1 name2) := by
  refine (steady_nOpen _).bind fun r => ?_
  cases r with
  | none => exact steady_pure _
  | some ino =>
    refine steady_get.bind fun s => Keeps.bind (Keeps.ite steady_esuper (steady_pure _)) fun no => ?_
    refine Keeps.ite ((steady_iDeref _).bind fun _ => steady_pure _) (Keeps.ite ?_ ?_)
    · exact (steady_setError _).bind fun _ => (steady_iDeref _).bind fun _ => steady_pure _
    · refine (steady_nOpenParent _).bind fun r => ?_
      split
      · exact steady_null
      · refine (steady_iDeref _).bind fun _ => (steady_iDeref _).bind fun _ => ?_
        exact (steady_setError _).bind fun _ => (steady_iDeref _).bind fun _ => steady_pure _
      · exact (steady_iDeref _).bind fun _ => steady_pure _
      · refine steady_get.bind fun s => Keeps.ite ?_ ((steady_filenameOf _).bind fun fname => ?_)
        · refine (steady_iDeref _).bind fun _ => (steady_setError _).bind fun _ => ?_
          exact (steady_iDeref _).bind fun _ => steady_pure _
        · refine (steady_chLink _ _ _ _).bind fun ok => Keeps.ite ?_ ?_
          · refine (steady_modifyNode _ _).bind fun _ => (steady_wrInode _).bind fun _ => ?_
            refine (steady_setftime _ _).bind fun _ => (steady_iDeref _).bind fun _ => ?_
            exact (steady_iDeref _).bind fun _ => steady_pure _
          · exact (steady_iDeref _).bind fun _ => (steady_iDeref _).bind fun _ => steady_pure _

theorem steady_unlink (path : Path) : Steady (unlink path) := by
  refine (steady_nOpenParent _).bind fun r => ?_
  split
  · refine (steady_filenameOf _).bind fun fname => ?_
    refine (steady_of_quiet (quiet_unlinki _ _ _)).bind fun failed => ?_
    exact (steady_iDeref _).bind fun _ => (steady_iDeref _).bind fun _ => steady_pure _
  · exact (steady_derefOption _).bind fun _ => (steady_setError _).bind fun _ => steady_pure _

theorem steady_mknod (name : Path) (mode dev : Nat) : Steady (mknod name mode dev) := by
  refine (steady_setError _).bind fun _ => steady_get.bind fun s => Keeps.ite ?_ ?_
  · exact (steady_setError _).bind fun _ => steady_pure _
  · refine (steady_nOpenParent _).bind fun r => ?_
    split
    · exact steady_null
    · refine (steady_setError _).bind fun _ => (steady_iDeref _).bind fun _ => ?_
      exact (steady_iDeref _).bind fun _ => steady_pure _
    · exact (steady_setError _).bind fun _ => steady_pure _
    · refine (steady_filenameOf _).bind fun fname => (steady_newfile _ _).bind fun r => ?_
      cases r with
      | none => exact steady_pure _
      | some ino =>
        refine steady_get.bind fun s => (steady_modifyNode _ _).bind fun _ => ?_
        refine Keeps.bind (steady_modifyInode ino fun _ => rfl) fun _ => ?_
        refine (steady_setftime _ _).bind fun _ => (steady_wrInode _).bind fun _ => ?_
        exact (steady_iDeref _).bind fun _ => steady_pure _

theorem steady_chdiroot (ino old : Nat) {move : Udata → Udata}
    (h : ∀ u, (move u).files = u.files) : Steady (chdiroot ino old move) := by
  refine steady_get.bind fun s => Keeps.ite ?_ ?_
  · exact (steady_setError _).bind fun _ => (steady_iDeref _).bind fun _ => steady_pure _
  · exact (steady_iDeref _).bind fun _ => (steady_modifyU h).bind fun _ => steady_pure _

theorem steady_chdir (dir : Path) : Steady (chdir dir) := by
  refine (steady_nOpen _).bind fun r => ?_
  cases r with
  | none => exact steady_pure _
  | some ino => exact steady_get.bind fun s => steady_chdiroot _ _ fun _ => rfl

theorem steady_chroot (dir : Path) : Steady (chroot dir) := by
  refine steady_esuper.bind fun no => Keeps.ite (steady_pure _) ?_
  refine (steady_nOpen _).bind fun r => ?_
  cases r with
  | none => exact steady_pure _
  | some ino => exact steady_get.bind fun s => steady_chdiroot _ _ fun _ => rfl

theorem steady_renameOver (dsti dstp : Nat) (fname : List UInt8) :
    Steady (renameOver dsti dstp fname) := by
  refine steady_get.bind fun s => Keeps.ite ?_ ?_
  · exact (steady_setError _).bind fun _ => (steady_iDeref _).bind fun _ => steady_pure _
  · refine (steady_of_quiet (quiet_unlinki _ _ _)).bind fun failed => Keeps.ite ?_ ?_
    · exact (steady_iDeref _).bind fun _ => steady_pure _
    · exact (steady_iDeref _).bind fun _ => steady_pure _

theorem steady_renameLinks (src : Path) (srci srcp dstp : Nat) (fname : List UInt8) :
    Steady (renameLinks src srci srcp dstp fname) := by
  refine (steady_chLink _ _ _ _).bind fun ok => Keeps.ite ?_ (steady_pure _)
  refine (steady_filenameOf _).bind fun old => (steady_chLink _ _ _ _).bind fun ok => ?_
  refine Keeps.ite ?_ (steady_pure _)
  refine (steady_wrInode _).bind fun _ => (steady_wrInode _).bind fun _ => ?_
  exact steady_sync.bind fun _ => steady_pure _

theorem steady_renameInto (src : Path) (srci srcp : Nat) (dsti : Option Nat) (dstp : Nat)
    (fname : List UInt8) : Steady (renameInto src srci srcp dsti dstp fname) := by
  refine steady_get.bind fun s => ?_
  split
  · refine (steady_setError _).bind fun _ => (steady_derefOption _).bind fun _ => ?_
    exact (steady_iDeref _).bind fun _ => steady_pure _
  · refine Keeps.bind (?_ : Steady (renameRemove dsti dstp fname)) fun stays => ?_
    · cases dsti with
      | none => exact steady_pure _
      | some dsti => exact steady_renameOver _ _ _
    · refine Keeps.ite ((steady_iDeref _).bind fun _ => steady_pure _) ?_
      refine (steady_renameLinks _ _ _ _ _).bind fun ret => ?_
      exact (steady_iDeref _).bind fun _ => steady_pure _

theorem steady_renameFound (src : Path) (srci srcp : Nat) (dsti dstp : Option Nat)
    (fname : List UInt8) : Steady (renameFound src srci srcp dsti dstp fname) := by
  refine Keeps.ite (steady_pure _) ?_
  cases dstp with
  | none => exact steady_pure _
  | some dstp => exact steady_renameInto _ _ _ _ _ _

theorem steady_rename (src dst : Path) : Steady (rename src dst) := by
  refine (steady_nOpenParent _).bind fun r => ?_
  split
  · exact (steady_derefOption _).bind fun _ => steady_pure _
  · exact steady_null
  · refine Keeps.bind (steady_modifyU fun _ => rfl) fun _ => ?_
    refine (steady_filenameOf _).bind fun fname => (steady_nOpenParent _).bind fun r => ?_
    refine (steady_renameFound _ _ _ _ _ _).bind fun ret => ?_
    exact (steady_iDeref _).bind fun _ => (steady_iDeref _).bind fun _ => steady_pure _

theorem steady_mkdirFill (ino parent mode : Nat) (fname : List UInt8) :
    Steady (mkdirFill ino parent mode fname) := by
  refine (steady_modifyNode _ _).bind fun _ => (steady_setftime _ _).bind fun _ => ?_
  refine Keeps.bind ((steady_chLink _ _ _ _).bind fun ok => Keeps.ite (steady_chLink _ _ _ _)
    (steady_pure _)) fun ok => Keeps.ite ?_ ?_
  · refine steady_get.bind fun s => (steady_modifyNode _ _).bind fun _ => ?_
    refine (steady_modifyNode _ _).bind fun _ => (steady_modifyNode _ _).bind fun _ => ?_
    refine (steady_iDeref _).bind fun _ => (steady_wrInode _).bind fun _ => ?_
    exact (steady_iDeref _).bind fun _ => steady_pure _
  · refine (steady_chLink _ _ _ _).bind fun _ => (steady_modifyNode _ _).bind fun _ => ?_
    refine (steady_wrInode _).bind fun _ => (steady_iDeref _).bind fun _ => ?_
    exact (steady_iDeref _).bind fun _ => steady_pure _

theorem steady_mkdir (name : Path) (mode : Nat) : Steady (mkdir name mode) := by
  refine (steady_nOpenParent _).bind fun r => ?_
  split
  · exact steady_null
  · refine (steady_setError _).bind fun _ => (steady_iDeref _).bind fun _ => ?_
    exact (steady_iDeref _).bind fun _ => steady_pure _
  · exact (steady_setError _).bind fun _ => steady_pure _
  · refine steady_get.bind fun s => Keeps.ite ?_ ?_
    · exact (steady_setError _).bind fun _ => (steady_iDeref _).bind fun _ => steady_pure _
    · refine (steady_filenameOf _).bind fun fname => (steady_iRef _).bind fun _ => ?_
      refine (steady_newfile _ _).bind fun r => ?_
      cases r with
      | none => exact (steady_iDeref _).bind fun _ => (steady_iDeref _).bind fun _ => steady_pure _
      | some ino => exact steady_mkdirFill _ _ _ _

theorem steady_rmdir (path : Path) : Steady (rmdir path) := by
  refine (steady_nOpenParent _).bind fun r => ?_
  split
  · refine steady_get.bind fun s => Keeps.bind ?_ fun no => Keeps.ite ?_ ?_
    · refine Keeps.ite ?_ (Keeps.ite ?_ (steady_pure _))
      · exact (steady_setError _).bind fun _ => steady_pure _
      · exact (steady_setError _).bind fun _ => steady_pure _
    · exact (steady_iDeref _).bind fun _ => (steady_iDeref _).bind fun _ => steady_pure _
    · refine (steady_filenameOf _).bind fun fname => (steady_chLink _ _ _ _).bind fun ok => ?_
      refine Keeps.ite ?_ ?_
      · refine (steady_modifyNode _ _).bind fun _ => (steady_modifyNode _ _).bind fun _ => ?_
        refine (steady_setftime _ _).bind fun _ => (steady_wrInode _).bind fun _ => ?_
        refine (steady_wrInode _).bind fun _ => (steady_iDeref _).bind fun _ => ?_
        exact (steady_iDeref _).bind fun _ => steady_pure _
      · exact (steady_iDeref _).bind fun _ => (steady_iDeref _).bind fun _ => steady_pure _
  · exact (steady_derefOption _).bind fun _ => (steady_setError _).bind fun _ => steady_pure _

/-! ## Mounts -/

theorem steady_fopen (dev : Nat) (drv : Driver) : Steady (fopen dev drv) := by
  refine Keeps.ite ((steady_setError _).bind fun _ => steady_pure _) ?_
  cases drv with
  | opens ctty => exact steady_pure _
  | refuses e => exact steady_pure _
  | waits => exact steady_pure _

theorem steady_fmount (dev : Nat) (ino : Option Nat) (rdonly nosuid : Bool) (drv : Driver) :
    Steady (fmount dev ino rdonly nosuid drv) := by
  refine (steady_fopen _ _).bind fun ok => Keeps.ite (steady_get.bind fun s => ?_) (steady_pure _)
  split
  · exact (steady_setError _).bind fun _ => steady_pure _
  · refine (steady_of_quiet (quiet_bread _ _)).bind fun buf => ?_
    cases buf with
    | none => exact steady_pure _
    | some buf =>
      refine (steady_modifyMount _ _).bind fun _ => Keeps.ite ?_ ?_
      · exact (steady_setError _).bind fun _ => steady_pure _
      · refine (steady_modifyMount _ _).bind fun _ => (steady_refOption _).bind fun _ => ?_
        exact steady_sync.bind fun _ => steady_pure _

theorem steady_mount (spec dir : Path) (flags : Nat) (drv : Driver) :
    Steady (mount spec dir flags drv) := by
  refine steady_esuper.bind fun no => Keeps.ite (steady_pure _) ((steady_nOpen _).bind fun r => ?_)
  cases r with
  | none => exact steady_pure _
  | some sino =>
    refine (steady_nOpen _).bind fun r => ?_
    cases r with
    | none => exact (steady_iDeref _).bind fun _ => steady_pure _
    | some dino =>
      refine Keeps.bind (steady_get.bind fun s => ?_) fun failed => ?_
      · refine Keeps.ite ?_ (Keeps.ite ?_ ((steady_fopen _ _).bind fun ok => Keeps.ite ?_ ?_))
        · exact (steady_setError _).bind fun _ => steady_pure _
        · exact (steady_setError _).bind fun _ => steady_pure _
        · refine steady_get.bind fun s => Keeps.ite ?_ (steady_sync.bind fun _ => ?_)
          · exact (steady_setError _).bind fun _ => steady_pure _
          · refine (steady_fmount _ _ _ _ _).bind fun no => Keeps.ite ?_ (steady_pure _)
            exact (steady_setError _).bind fun _ => steady_pure _
        · exact (steady_setError _).bind fun _ => steady_pure _
      · exact (steady_iDeref _).bind fun _ => (steady_iDeref _).bind fun _ => steady_pure _

theorem steady_remountInodes (dev : Nat) (rdonly : Bool) : Steady (remountInodes dev rdonly) :=
  Keeps.modify fun s => { FilesKept.refl s with
    itab := fun i => by
      dsimp only
      split
      · split <;> rfl
      · rfl }

theorem steady_doUmount (dev flags : Nat) : Steady (doUmount dev flags) := by
  refine steady_get.bind fun s => ?_
  split
  · exact (steady_setError _).bind fun _ => steady_pure _
  · refine Keeps.ite ?_ (Keeps.ite ?_ (Keeps.ite ?_ ?_))
    · exact (steady_setError _).bind fun _ => steady_pure _
    · refine (steady_remountInodes _ _).bind fun _ => steady_sync.bind fun _ => ?_
      refine Keeps.bind ((steady_modifyMount _ _).bind fun _ => ?_) fun _ => steady_pure _
      exact Keeps.ite (steady_modifyMount _ _) (steady_pure _)
    · exact (steady_setError _).bind fun _ => steady_pure _
    · refine (steady_modifyMount _ _).bind fun _ => steady_sync.bind fun _ => ?_
      split
      · exact steady_null
      · refine (steady_iDeref _).bind fun _ => (steady_modifyMount _ _).bind fun _ => ?_
        exact steady_pure _

theorem steady_umount (spec : Path) (flags : Nat) : Steady (umount spec flags) := by
  refine steady_esuper.bind fun no => Keeps.ite (steady_pure _) ((steady_nOpen _).bind fun r => ?_)
  cases r with
  | none => exact steady_pure _
  | some sino =>
    refine steady_get.bind fun s => Keeps.bind ?_ fun ret => ?_
    · refine Keeps.ite ?_ (Keeps.ite ?_ (steady_doUmount _ _))
      · exact (steady_setError _).bind fun _ => steady_pure _
      · exact (steady_setError _).bind fun _ => steady_pure _
    · exact (steady_iDeref _).bind fun _ => steady_pure _

end Fuzix
