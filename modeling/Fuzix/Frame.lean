import Fuzix.Syscall

/-!
# What the data paths leave alone

Reading, writing and allocating change blocks, inode contents, free lists and
the transfer fields of the running process. They leave every table of references
as it is: `DataOnly` relates two states that agree on all of these.
-/

set_option linter.unusedSectionVars false

namespace Fuzix

open Wp Table Words

def Udata.fixed (u : Udata) : Udata :=
  { u with error := 0, count := 0, offset := 0, rename := none }

def Proc.fixed (p : Proc) : Proc := { p with u := p.u.fixed }

/-- The identity, the counts and the place of an in-core inode. -/
structure Users where
  magic : Nat
  dev : Nat
  num : Nat
  refs : Nat
  readers : Nat
  writers : Nat

def Cinode.fixed (c : Cinode) : Users :=
  ⟨c.magic, c.dev, c.num, c.refs, c.readers, c.writers⟩

structure Volume where
  isize : Nat
  fsize : Nat
  mntpt : Option Nat

def Filesys.fixed (fs : Filesys) : Volume := ⟨fs.isize, fs.fsize, fs.mntpt⟩

structure Place where
  dev : Nat
  rdonly : Bool
  volume : Volume

def Mount.fixed (m : Mount) : Place := ⟨m.dev, m.rdonly, m.fs.fixed⟩

structure DataOnly (s t : Kernel) : Prop where
  oftab : t.oftab = s.oftab
  acctFh : t.acctFh = s.acctFh
  cur : t.cur = s.cur
  root : t.root = s.root
  rootDev : t.rootDev = s.rootDev
  io : t.io = s.io
  ptab : ∀ p, (t.ptab p).fixed = (s.ptab p).fixed
  itab : ∀ i, (t.itab i).fixed = (s.itab i).fixed
  fstab : ∀ m, (t.fstab m).fixed = (s.fstab m).fixed

theorem DataOnly.refl (s : Kernel) : DataOnly s s :=
  ⟨rfl, rfl, rfl, rfl, rfl, rfl, fun _ => rfl, fun _ => rfl, fun _ => rfl⟩

theorem DataOnly.trans {s t u : Kernel} (h : DataOnly s t) (k : DataOnly t u) :
    DataOnly s u where
  oftab := k.oftab.trans h.oftab
  acctFh := k.acctFh.trans h.acctFh
  cur := k.cur.trans h.cur
  root := k.root.trans h.root
  rootDev := k.rootDev.trans h.rootDev
  io := k.io.trans h.io
  ptab := fun p => (k.ptab p).trans (h.ptab p)
  itab := fun i => (k.itab i).trans (h.itab i)
  fstab := fun m => (k.fstab m).trans (h.fstab m)

instance : IsTrans Kernel DataOnly := ⟨fun _ _ _ => DataOnly.trans⟩

instance : Std.Refl DataOnly := ⟨DataOnly.refl⟩

/-- No index outside the descriptor tables was used. -/
def Tame (e : Stop) : Prop := e ≠ .wild

theorem Tame.panic (e : Panic) : Tame (.panic e) := Stop.noConfusion

theorem Tame.null : Tame .null := Stop.noConfusion

/-- Nor did a reference count go below zero. -/
def Calm (e : Stop) : Prop := e ≠ .wild ∧ e ≠ .panic .inodeFreed

/-- A program of the data paths. -/
abbrev Quiet {α : Type} (m : K α) : Prop := Keeps Calm DataOnly m

theorem put_fixed {α β : Type} {f : Nat → α} {g : α → β} {i j : Nat} {a : α}
    (h : g a = g (f i)) : g (put f i a j) = g (f j) := by
  by_cases here : j = i
  · subst here
    simpa using h
  · rw [put_ne f a here]

/-! ## Primitives -/

theorem quiet_modifyInode (i : Nat) {f : Cinode → Cinode}
    (h : ∀ c, (f c).fixed = c.fixed) : Quiet (modifyInode i f) :=
  Keeps.modify fun s => { DataOnly.refl s with itab := fun _ => put_fixed (h _) }

theorem quiet_modifyNode (i : Nat) (f : Dinode → Dinode) : Quiet (modifyNode i f) :=
  quiet_modifyInode i fun _ => rfl

theorem quiet_modifyFs (m : Nat) {f : Filesys → Filesys}
    (h : ∀ fs, (f fs).fixed = fs.fixed) : Quiet (modifyFs m f) :=
  Keeps.modify fun s => { DataOnly.refl s with
    fstab := fun _ => put_fixed (congrArg (Place.mk _ _) (h _)) }

theorem quiet_modifyU {f : Udata → Udata}
    (h : ∀ u, (f u).fixed = u.fixed) : Quiet (modifyU f) :=
  Keeps.modify fun s => { DataOnly.refl s with
    ptab := fun _ => put_fixed (congrArg (fun u => { s.ptab s.cur with u := u }) (h _)) }

theorem quiet_setError (e : Nat) : Quiet (setError e) := quiet_modifyU fun _ => rfl

theorem quiet_get : Quiet get := Keeps.get

theorem quiet_pure {α : Type} (a : α) : Quiet (pure a) := Keeps.pure a

theorem quiet_null {α : Type} : Quiet (throw .null : K α) := Keeps.throw (by simp [Calm])

theorem quiet_overrun {α : Type} : Quiet (throw .overrun : K α) := Keeps.throw (by simp [Calm])

theorem quiet_hang {α : Type} : Quiet (throw .hang : K α) := Keeps.throw (by simp [Calm])

theorem quiet_panic {α : Type} {e : Panic} (h : e ≠ .inodeFreed) : Quiet (panic e : K α) :=
  Keeps.throw (by simp [Calm, h])

theorem quiet_onlyIf {c : Prop} {_ : Decidable c} {m : K Unit} (h : Quiet m) :
    Quiet (onlyIf c m) :=
  Keeps.ite h (quiet_pure _)

theorem quiet_forUp {f : Nat → K Unit} (h : ∀ n, Quiet (f n)) : ∀ n, Quiet (forUp f n)
  | 0 => quiet_pure _
  | n + 1 => (quiet_forUp h n).bind fun _ => h n

theorem quiet_forDown {f : Nat → K Unit} (h : ∀ n, Quiet (f n)) : ∀ n, Quiet (forDown f n)
  | 0 => quiet_pure _
  | n + 1 => (h n).bind fun _ => quiet_forDown h n

/-! ## Buffers -/

theorem quiet_bawrite (dev blk : Nat) (b : Block) : Quiet (bawrite dev blk b) :=
  Keeps.modify fun s => { DataOnly.refl s with }

theorem quiet_evict : Quiet evict := by
  refine quiet_get.bind fun s => .bind (Keeps.modify fun s => { DataOnly.refl s with }) fun _ => ?_
  refine Keeps.bind ?_ fun _ => quiet_pure _
  unfold loseBlock
  split
  · exact quiet_pure _
  · exact (quiet_bawrite _ _ _).bind fun _ => quiet_setError _

theorem quiet_bread (dev blk : Nat) : Quiet (bread dev blk) := by
  refine quiet_evict.bind fun x => Keeps.ite ?_ ?_
  · exact (quiet_setError _).bind fun _ => quiet_pure _
  · exact quiet_get.bind fun _ => quiet_pure _

theorem quiet_breadRewrite : Quiet breadRewrite := quiet_evict.bind fun _ => quiet_pure _

theorem quiet_zerobuf : Quiet zerobuf := quiet_evict.bind fun _ => quiet_pure _

theorem quiet_bfreeSync (dev blk : Nat) (b : Block) : Quiet (bfreeSync dev blk b) := by
  refine (quiet_bawrite _ _ _).bind fun _ => quiet_get.bind fun s => ?_
  refine Keeps.bind (Keeps.modify fun s => { DataOnly.refl s with }) fun _ => Keeps.ite ?_ ?_
  · exact (quiet_setError _).bind fun _ => quiet_pure _
  · exact quiet_pure _

variable [Build]

/-! ## Blocks -/

theorem quiet_corruptFs (dev : Nat) : Quiet (corruptFs dev) := by
  refine quiet_get.bind fun s => ?_
  cases fsTabGet s dev with
  | none => exact quiet_null
  | some m => exact quiet_modifyFs m fun _ => rfl

theorem quiet_getdev (dev : Nat) : Quiet (getdev dev) := by
  refine quiet_get.bind fun s => ?_
  cases fsTabGet s dev with
  | none => exact quiet_panic (by decide)
  | some m =>
    refine Keeps.ite (quiet_panic (by decide)) ?_
    exact Keeps.bind (quiet_onlyIf (quiet_modifyFs m fun _ => rfl)) fun _ => quiet_pure _

theorem quiet_validblk (dev num : Nat) : Quiet (validblk dev num) := by
  refine quiet_get.bind fun s => ?_
  cases fsTabGet s dev with
  | none => exact quiet_panic (by decide)
  | some m =>
    exact Keeps.ite (quiet_panic (by decide)) (Keeps.ite (quiet_panic (by decide)) (quiet_pure _))

theorem quiet_noSpace : Quiet noSpace := (quiet_setError _).bind fun _ => quiet_pure _

theorem quiet_corrupt (m : Nat) : Quiet (corrupt m) :=
  Keeps.bind (quiet_modifyFs m fun _ => rfl) fun _ => quiet_noSpace

theorem quiet_refill (devno m newno : Nat) : Quiet (refill devno m newno) := by
  refine quiet_get.bind fun s => Keeps.ite ?_ (quiet_pure _)
  refine (quiet_bread _ _).bind fun buf => ?_
  cases buf with
  | none => exact quiet_pure _
  | some b => exact Keeps.bind (quiet_modifyFs m fun _ => rfl) fun _ => quiet_pure _

theorem quiet_blkAlloc (devno : Nat) : Quiet (blkAlloc devno) := by
  refine (quiet_getdev _).bind fun m => quiet_get.bind fun s => ?_
  refine Keeps.ite quiet_noSpace (Keeps.ite (quiet_corrupt m) ?_)
  refine Keeps.bind (quiet_modifyFs m fun _ => rfl) fun _ => Keeps.ite ?_ ?_
  · refine Keeps.ite (quiet_corrupt m) ?_
    exact Keeps.bind (quiet_modifyFs m fun _ => rfl) fun _ => quiet_noSpace
  · refine (quiet_refill _ _ _).bind fun ok => Keeps.ite ?_ (quiet_corrupt m)
    refine (quiet_validblk _ _).bind fun _ => quiet_get.bind fun s => ?_
    refine Keeps.ite (quiet_corrupt m) ?_
    refine Keeps.bind (quiet_modifyFs m fun _ => rfl) fun _ => quiet_breadRewrite.bind fun _ => ?_
    exact (quiet_bawrite _ _ _).bind fun _ => quiet_pure _

theorem quiet_spill (devno m blk : Nat) : Quiet (spill devno m blk) := by
  refine quiet_get.bind fun s => Keeps.ite ?_ (quiet_pure _)
  refine quiet_breadRewrite.bind fun _ => (quiet_bawrite _ _ _).bind fun _ => ?_
  exact quiet_modifyFs m fun _ => rfl

theorem quiet_blkFree (devno blk : Nat) : Quiet (blkFree devno blk) := by
  refine Keeps.ite (quiet_pure _) ?_
  refine (quiet_getdev _).bind fun m => quiet_get.bind fun s => Keeps.ite (quiet_pure _) ?_
  refine (quiet_validblk _ _).bind fun _ => (quiet_spill _ _ _).bind fun _ => ?_
  refine quiet_get.bind fun s => Keeps.ite (quiet_overrun) ?_
  exact quiet_modifyFs m fun _ => rfl

theorem quiet_freeblk (dev : Nat) : ∀ level blk, Quiet (freeblk dev level blk)
  | 0, blk => Keeps.ite (quiet_pure _) (quiet_blkFree _ _)
  | level + 1, blk => by
    refine Keeps.ite (quiet_pure _) ((quiet_bread _ _).bind fun buf => ?_)
    cases buf with
    | none => exact quiet_corruptFs _
    | some b =>
      refine (quiet_forDown (fun j => quiet_freeblk dev level _) 256).bind fun _ => ?_
      exact quiet_blkFree _ _

theorem quiet_fTrunc (i : Nat) : Quiet (fTrunc i) := by
  refine quiet_get.bind fun s => Keeps.ite ?_ ?_
  · exact (quiet_setError _).bind fun _ => quiet_pure _
  · refine (quiet_freeblk _ _ _).bind fun _ => (quiet_freeblk _ _ _).bind fun _ => ?_
    refine (quiet_forDown (fun j => quiet_freeblk _ _ _) 18).bind fun _ => ?_
    exact Keeps.bind (quiet_modifyInode i fun _ => rfl) fun _ => quiet_pure _

theorem quiet_bmapSlot (ip slot : Nat) (rwflg : Bool) : Quiet (bmapSlot ip slot rwflg) := by
  refine quiet_get.bind fun s => Keeps.ite (quiet_pure _) (Keeps.ite (quiet_pure _) ?_)
  refine (quiet_blkAlloc _).bind fun nb => Keeps.ite (quiet_pure _) ?_
  exact Keeps.bind (quiet_modifyInode ip fun _ => rfl) fun _ => quiet_pure _

theorem quiet_bmapIndirect (dev nb k : Nat) (rwflg : Bool) :
    Quiet (bmapIndirect dev nb k rwflg) := by
  refine (quiet_bread _ _).bind fun buf => ?_
  cases buf with
  | none => exact (quiet_corruptFs _).bind fun _ => quiet_pure _
  | some bp =>
    refine Keeps.ite (quiet_pure _) (Keeps.ite (quiet_pure _) ?_)
    refine (quiet_blkAlloc _).bind fun nb => Keeps.ite (quiet_pure _) ?_
    exact (quiet_bawrite _ _ _).bind fun _ => quiet_pure _

theorem quiet_bmap (ip bn : Nat) (rwflg : Bool) : Quiet (bmap ip bn rwflg) := by
  refine quiet_get.bind fun s => Keeps.ite (quiet_pure _) (Keeps.bind ?_ fun _ => quiet_pure _)
  refine quiet_get.bind fun s => Keeps.ite (quiet_bmapSlot _ _ _) (Keeps.ite ?_ ?_)
  · refine (quiet_bmapSlot _ _ _).bind fun nb => ?_
    cases nb with
    | none => exact quiet_pure _
    | some nb => exact quiet_bmapIndirect _ _ _ _
  · refine (quiet_bmapSlot _ _ _).bind fun nb => ?_
    cases nb with
    | none => exact quiet_pure _
    | some nb =>
      refine (quiet_bmapIndirect _ _ _ _).bind fun nb => ?_
      split
      · exact quiet_pure _
      · exact quiet_pure _
      · exact quiet_bmapIndirect _ _ _ _

/-! ## Inodes -/

theorem quiet_magic (i : Nat) : Quiet (magic i) :=
  quiet_get.bind fun _ => Keeps.ite (quiet_panic (by decide)) (quiet_pure _)

theorem quiet_getinode (fd : Nat) : Quiet (getinode fd) := by
  refine quiet_get.bind fun s => ?_
  refine Keeps.ite ((quiet_setError _).bind fun _ => quiet_pure _) ?_
  refine Keeps.ite (quiet_panic (by decide)) ?_
  split
  · exact quiet_panic (by decide)
  · refine Keeps.ite (quiet_panic (by decide)) ?_
    exact (quiet_magic _).bind fun _ => quiet_pure _

theorem quiet_wrInode (i : Nat) : Quiet (wrInode i) := by
  refine (quiet_magic i).bind fun _ => quiet_get.bind fun s => ?_
  refine (quiet_bread _ _).bind fun buf => ?_
  cases buf with
  | none => exact quiet_corruptFs _
  | some b =>
    refine (quiet_bfreeSync _ _ _).bind fun _ => ?_
    exact quiet_modifyInode i fun _ => rfl

theorem quiet_sync : Quiet sync := by
  refine (quiet_forUp (fun i => ?_) _).bind fun _ => quiet_forUp (fun m => ?_) _
  · refine quiet_get.bind fun s => Keeps.ite ?_ (quiet_pure _)
    exact (quiet_wrInode i).bind fun _ => quiet_modifyInode i fun _ => rfl
  · refine quiet_get.bind fun s => Keeps.ite ?_ (quiet_pure _)
    refine Keeps.bind (quiet_onlyIf (quiet_modifyFs m fun _ => rfl)) fun _ => ?_
    refine quiet_breadRewrite.bind fun junk => quiet_get.bind fun s => ?_
    exact (quiet_bfreeSync _ _ _).bind fun _ => quiet_pure _

theorem quiet_scanBlock (m blk : Nat) (b : Block) :
    ∀ l k, Quiet (scanBlock m blk b l k)
  | [], k => quiet_pure _
  | j :: rest, k => by
    refine Keeps.ite ?_ (quiet_scanBlock m blk b rest k)
    refine Keeps.bind (quiet_modifyFs m fun _ => rfl) fun _ => Keeps.ite (quiet_pure _) ?_
    exact quiet_scanBlock m blk b rest (k + 1)

theorem quiet_scanInodes (devno m isize : Nat) :
    ∀ n k, Quiet (scanInodes devno m isize n k)
  | 0, k => quiet_pure _
  | n + 1, k => by
    refine (quiet_bread _ _).bind fun buf => ?_
    cases buf with
    | none => exact quiet_pure _
    | some b =>
      refine (quiet_scanBlock _ _ _ _ _).bind fun k => Keeps.ite (quiet_pure _) ?_
      exact quiet_scanInodes devno m isize n k

theorem quiet_takeInode (m : Nat) : Quiet (takeInode m) := by
  refine quiet_get.bind fun s => Keeps.ite (quiet_corrupt m) (Keeps.ite (quiet_overrun) ?_)
  refine Keeps.bind (quiet_modifyFs m fun _ => rfl) fun _ => Keeps.ite (quiet_corrupt m) ?_
  exact Keeps.bind (quiet_modifyFs m fun _ => rfl) fun _ => quiet_pure _

theorem quiet_iAlloc (devno : Nat) : Quiet (iAlloc devno) := by
  refine (quiet_getdev _).bind fun m => quiet_get.bind fun s => ?_
  refine Keeps.ite (quiet_corrupt m) (Keeps.ite (quiet_takeInode m) ?_)
  refine quiet_sync.bind fun _ => (quiet_scanInodes _ _ _ _ _).bind fun k => ?_
  split
  · exact quiet_corrupt m
  · exact Keeps.ite (quiet_corrupt m) quiet_noSpace
  · exact Keeps.bind (quiet_modifyFs m fun _ => rfl) fun _ => quiet_takeInode m

theorem quiet_iFree (devno ino : Nat) : Quiet (iFree devno ino) := by
  refine (quiet_getdev _).bind fun m => quiet_get.bind fun s => ?_
  refine Keeps.ite (quiet_pure _) (Keeps.ite (quiet_panic (by decide)) (Keeps.ite ?_ ?_))
  · exact quiet_modifyFs m fun _ => rfl
  · exact quiet_modifyFs m fun _ => rfl

theorem quiet_iRelease (i : Nat) : Quiet (iRelease i) := by
  refine quiet_get.bind fun s => Keeps.ite ?_ (quiet_pure _)
  refine (quiet_onlyIf ?_).bind fun _ => quiet_wrInode i
  exact (quiet_modifyNode i _).bind fun _ => quiet_get.bind fun s => quiet_iFree _ _

theorem quiet_setftime (i : Nat) (flag : Times) : Quiet (setftime i flag) :=
  quiet_get.bind fun _ => Keeps.ite (quiet_pure _) (quiet_modifyInode i fun _ => rfl)

theorem quiet_esuper : Quiet esuper := by
  refine quiet_get.bind fun s => Keeps.ite (quiet_pure _) ?_
  exact (quiet_setError _).bind fun _ => quiet_pure _

/-! ## Transfers -/

theorem quiet_settleCount (left : Nat) : Quiet (settleCount left) :=
  quiet_get.bind fun _ => quiet_modifyU fun _ => rfl

theorem quiet_advance (ispipe : Bool) (amount : Nat) : Quiet (advance ispipe amount) :=
  quiet_modifyU fun _ => rfl

theorem quiet_readLoop (i dev : Nat) (ispipe : Bool) :
    ∀ rounds toread data, Quiet (readLoop i dev ispipe rounds toread data)
  | 0, toread, data => quiet_pure _
  | rounds + 1, toread, data => by
    refine Keeps.ite (quiet_pure _) (quiet_get.bind fun s => ?_)
    refine (quiet_bmap _ _ _).bind fun pblk => Keeps.bind ?_ fun buf => ?_
    · exact Keeps.ite (quiet_zerobuf.map _) (quiet_bread _ _)
    · cases buf with
      | none => exact quiet_pure _
      | some bp =>
        refine (quiet_advance _ _).bind fun _ => ?_
        refine (quiet_onlyIf (quiet_modifyNode _ _)).bind fun _ => ?_
        exact quiet_readLoop i dev ispipe rounds _ _

theorem quiet_readBlocks (i dev : Nat) (ispipe : Bool) : Quiet (readBlocks i dev ispipe) := by
  refine quiet_get.bind fun s => (quiet_readLoop _ _ _ _ _ _).bind fun r => ?_
  exact (quiet_settleCount _).bind fun _ => quiet_pure _

theorem quiet_pipewait (i : Nat) (ndelay : Bool) : Quiet (pipewait i ndelay) := by
  refine quiet_get.bind fun s => Keeps.ite ?_ (Keeps.ite ?_ (Keeps.ite ?_ (quiet_pure _)))
  · exact Keeps.bind (quiet_modifyU fun _ => rfl) fun _ => quiet_pure _
  · exact Keeps.bind (quiet_modifyU fun _ => rfl) fun _ => quiet_pure _
  · exact Keeps.bind (quiet_modifyU fun _ => rfl) fun _ => quiet_pure _

theorem quiet_cdevXfer : Quiet cdevXfer := by
  refine quiet_get.bind fun s => Keeps.bind (Keeps.modify fun s => { DataOnly.refl s with }) ?_
  exact fun _ => Keeps.bind (quiet_modifyU fun _ => rfl) fun _ => quiet_pure _

theorem quiet_readi (i : Nat) (ndelay : Bool) : Quiet (readi i ndelay) := by
  refine quiet_get.bind fun s => Keeps.ite ?_ (Keeps.ite ?_ (Keeps.ite ?_ (Keeps.ite ?_ ?_)))
  · refine Keeps.bind (quiet_get.bind fun s => quiet_modifyU fun _ => rfl) fun _ => ?_
    exact quiet_readBlocks _ _ _
  · refine (quiet_pipewait _ _).bind fun r => ?_
    split
    · exact quiet_pure _
    · exact quiet_pure _
    · exact quiet_readBlocks _ _ _
  · exact quiet_readBlocks _ _ _
  · exact quiet_cdevXfer
  · exact (quiet_setError _).bind fun _ => quiet_pure _

theorem quiet_putBlock (dev blk : Nat) (b : Block) (osync : Bool) :
    Quiet (putBlock dev blk b osync) :=
  Keeps.ite (quiet_bfreeSync _ _ _) ((quiet_bawrite _ _ _).bind fun _ => quiet_pure _)

theorem quiet_writeLoop (i dev : Nat) (ispipe osync : Bool) :
    ∀ rounds src, Quiet (writeLoop i dev ispipe osync rounds src)
  | 0, src => quiet_pure _
  | rounds + 1, src => by
    refine Keeps.ite (quiet_pure _) (quiet_get.bind fun s => Keeps.ite ?_ ?_)
    · exact (quiet_setError _).bind fun _ => quiet_pure _
    · refine (quiet_bmap _ _ _).bind fun pblk => Keeps.ite (quiet_pure _) ?_
      refine Keeps.bind (Keeps.ite (quiet_breadRewrite.map _) (quiet_bread _ _)) fun buf => ?_
      cases buf with
      | none => exact quiet_pure _
      | some bp =>
        refine (quiet_putBlock _ _ _ _).bind fun ok => Keeps.ite ?_ (quiet_pure _)
        refine (quiet_advance _ _).bind fun _ => ?_
        refine (quiet_onlyIf (quiet_modifyNode _ _)).bind fun _ => ?_
        exact quiet_writeLoop i dev ispipe osync rounds _

theorem quiet_writeBlocks (i dev : Nat) (ispipe osync : Bool) (src : List UInt8) :
    Quiet (writeBlocks i dev ispipe osync src) := by
  refine (quiet_writeLoop _ _ _ _ _ _).bind fun left => ?_
  refine (quiet_onlyIf (quiet_get.bind fun s => Keeps.ite ?_ (quiet_pure _))).bind fun _ => ?_
  · exact quiet_modifyInode i fun _ => rfl
  · exact (quiet_settleCount _).bind fun _ => quiet_pure _

theorem quiet_pipeRoom (i count : Nat) (ndelay : Bool) : Quiet (pipeRoom i count ndelay) := by
  refine quiet_get.bind fun s => Keeps.ite (quiet_pure _) (Keeps.ite ?_ (Keeps.ite ?_ (quiet_pure _)))
  · exact Keeps.bind (quiet_modifyU fun _ => rfl) fun _ => quiet_pure _
  · exact (quiet_setError _).bind fun _ => quiet_pure _

theorem quiet_writei (i : Nat) (access : Access) (src : List UInt8) :
    Quiet (writei i access src) := by
  refine quiet_get.bind fun s => Keeps.ite ?_ (Keeps.ite ?_ (Keeps.ite ?_ (Keeps.ite ?_ ?_)))
  · exact quiet_writeBlocks _ _ _ _ _
  · exact quiet_writeBlocks _ _ _ _ _
  · refine (quiet_pipeRoom _ _ _).bind fun r => ?_
    split
    · exact quiet_pure _
    · exact quiet_pure _
    · exact quiet_writeBlocks _ _ _ _ _
  · exact quiet_cdevXfer
  · exact (quiet_setError _).bind fun _ => quiet_pure _

/-! ## Directory entries -/

theorem quiet_filenameOf (name : Path) : Quiet (filenameOf name) := by
  refine quiet_evict.bind fun _ => ?_
  cases name with
  | none => exact quiet_pure _
  | some path => exact quiet_pure _

theorem quiet_findEntry (wd : Nat) (oldname : List UInt8) :
    ∀ rounds entry, Quiet (findEntry wd oldname rounds entry)
  | 0, entry => quiet_hang
  | rounds + 1, entry => by
    refine Keeps.bind (quiet_modifyU fun _ => rfl) fun _ => (quiet_readi _ _).bind fun r => ?_
    cases r with
    | sleep => exact quiet_hang
    | done data =>
      refine quiet_get.bind fun s => Keeps.ite (quiet_pure _) ?_
      exact quiet_findEntry wd oldname rounds _

theorem quiet_putEntry (wd : Nat) (newname : List UInt8) (nindex : Option Nat) :
    Quiet (putEntry wd newname nindex) := by
  refine Keeps.bind (quiet_modifyU fun _ => rfl) fun _ => Keeps.bind (quiet_modifyU fun _ => rfl) fun _ => ?_
  refine quiet_get.bind fun s => (quiet_writei _ _ _).bind fun r => ?_
  cases r with
  | sleep => exact quiet_hang
  | done data =>
    refine quiet_get.bind fun s => Keeps.ite (quiet_pure _) ?_
    exact (quiet_setftime _ _).bind fun _ => (quiet_modifyNode _ _).bind fun _ => quiet_pure _

theorem quiet_chLink (wd : Nat) (oldname newname : List UInt8) (nindex : Option Nat) :
    Quiet (chLink wd oldname newname nindex) := by
  refine quiet_get.bind fun s => Keeps.ite ?_ (Keeps.ite ?_ (Keeps.ite ?_ ?_))
  · exact (quiet_setError _).bind fun _ => quiet_pure _
  · exact (quiet_setError _).bind fun _ => quiet_pure _
  · exact (quiet_setError _).bind fun _ => quiet_pure _
  · refine Keeps.bind (quiet_modifyU fun _ => rfl) fun _ => (quiet_findEntry _ _ _ _).bind fun _ => ?_
    refine quiet_get.bind fun s => Keeps.ite ?_ (quiet_putEntry _ _ _)
    exact (quiet_setError _).bind fun _ => quiet_pure _

theorem quiet_unlinki (ino pino : Nat) (fname : List UInt8) : Quiet (unlinki ino pino fname) := by
  refine quiet_get.bind fun s => Keeps.ite ?_ ((quiet_chLink _ _ _ _).bind fun ok => Keeps.ite ?_ ?_)
  · exact (quiet_setError _).bind fun _ => quiet_pure _
  · exact (quiet_modifyNode _ _).bind fun _ => (quiet_setftime _ _).bind fun _ => quiet_pure _
  · exact quiet_pure _

theorem quiet_readImage (i offset count : Nat) : Quiet (readImage i offset count) := by
  refine Keeps.bind (quiet_modifyU fun _ => rfl) fun _ => (quiet_readi i false).bind fun answer => ?_
  cases answer with
  | sleep => exact quiet_hang
  | done data => exact quiet_get.bind fun s => quiet_pure _

theorem quiet_execBody (i : Nat) : Quiet (execBody i) := by
  refine quiet_get.bind fun s => Keeps.ite ?_ (quiet_pure _)
  exact (quiet_readImage i _ _).bind fun _ => quiet_pure _

end Fuzix
