import Fuzix.Frame

/-!
# What path walks keep

Looking a name up takes references to inodes and drops them. A relation of states that allows
this, and whatever the data paths do, is kept by every walk.
-/

set_option linter.unusedSectionVars false

namespace Fuzix

open Wp Table Words

/-- The relation says nothing of the references to an inode, nor of its data. -/
structure Walks (stop : Stop → Prop) (R : Kernel → Kernel → Prop) : Prop where
  stops : ∀ e, Tame e → stop e
  data : ∀ s t, DataOnly s t → R s t
  inode : ∀ (s : Kernel) (i : Nat) (c : Cinode), c.readers = (s.itab i).readers → c.writers = (s.itab i).writers →
    R s { s with itab := put s.itab i c }

section
variable {stop : Stop → Prop} {R : Kernel → Kernel → Prop} [IsTrans Kernel R] [Std.Refl R]

omit [IsTrans Kernel R] [Std.Refl R] in
theorem Walks.quiet (walks : Walks stop R) {α : Type} {m : K α} (h : Quiet m) : Keeps stop R m :=
  h.mono (fun e calm => walks.stops e calm.1) walks.data

omit [IsTrans Kernel R] [Std.Refl R] in
theorem Walks.null (walks : Walks stop R) {α : Type} : Keeps stop R (throw .null : K α) := walks.quiet quiet_null

omit [IsTrans Kernel R] [Std.Refl R] in
theorem Walks.panics (walks : Walks stop R) {α : Type} (e : Panic) : Keeps stop R (panic e : K α) :=
  Keeps.throw (walks.stops _ (Tame.panic e))

omit [IsTrans Kernel R] [Std.Refl R] in
theorem Walks.setError (walks : Walks stop R) (e : Nat) : Keeps stop R (setError e) := walks.quiet (quiet_setError e)

omit [IsTrans Kernel R] [Std.Refl R] in
theorem Walks.modifyInode (walks : Walks stop R) (i : Nat) {f : Cinode → Cinode}
    (readers : ∀ c, (f c).readers = c.readers) (writers : ∀ c, (f c).writers = c.writers) :
    Keeps stop R (modifyInode i f) :=
  Keeps.modify fun s => walks.inode s i _ (readers _) (writers _)

theorem Walks.onlyIf {c : Prop} {_ : Decidable c} {m : K Unit} (h : Keeps stop R m) : Keeps stop R (onlyIf c m) :=
  Keeps.ite h (Keeps.pure _)

variable [Build]

/-! ## References to inodes -/

theorem Walks.iRef (walks : Walks stop R) (i : Nat) : Keeps stop R (iRef i) :=
  walks.modifyInode i (fun _ => rfl) fun _ => rfl

theorem Walks.iDeref (walks : Walks stop R) (i : Nat) : Keeps stop R (iDeref i) := by
  refine (walks.quiet (quiet_magic i)).bind fun _ => Keeps.get.bind fun s => ?_
  refine Keeps.ite (walks.panics _) ?_
  refine Keeps.bind (walks.modifyInode i (fun _ => rfl) fun _ => rfl) fun _ => ?_
  refine Keeps.bind ?_ fun _ => walks.quiet (quiet_iRelease i)
  exact Walks.onlyIf (walks.quiet ((quiet_fTrunc i).map _))

theorem Walks.iCheck (walks : Walks stop R) (j : Nat) (isnew : Bool) : Keeps stop R (iCheck j isnew) := by
  refine Keeps.get.bind fun s => Keeps.ite ?_ (Keeps.pure _)
  exact Keeps.bind (walks.modifyInode j (fun _ => rfl) fun _ => rfl) fun _ => Keeps.pure _

theorem Walks.iGet (walks : Walks stop R) (dev ino : Nat) (isnew : Bool) : Keeps stop R (iGet dev ino isnew) := by
  refine Keeps.get.bind fun s => ?_
  split
  · exact walks.null
  · refine Keeps.ite (Keeps.pure _) ?_
    split
    · exact (walks.setError _).bind fun _ => Keeps.pure _
    · exact walks.iCheck _ _
    · refine (walks.quiet (quiet_bread _ _)).bind fun buf => ?_
      cases buf with
      | none => exact Keeps.pure _
      | some b =>
        exact Keeps.bind (walks.modifyInode _ (fun _ => rfl) fun _ => rfl) fun _ => walks.iCheck _ _

theorem Walks.iOpen (walks : Walks stop R) (dev ino : Nat) : Keeps stop R (iOpen dev ino) := by
  refine Keeps.ite (walks.panics _) (Keeps.ite ?_ (walks.iGet _ _ _))
  refine (walks.quiet (quiet_iAlloc _)).bind fun new => Keeps.ite ?_ (walks.iGet _ _ _)
  exact (walks.setError _).bind fun _ => Keeps.pure _

/-! ## Names -/

theorem Walks.srchFrom (walks : Walks stop R) (wd : Nat) (name : List UInt8) (nblocks : Nat) :
    ∀ n, Keeps stop R (srchFrom wd name nblocks n)
  | 0 => Keeps.pure _
  | n + 1 => by
    refine Keeps.get.bind fun s => (walks.quiet (quiet_bmap _ _ _)).bind fun blk => ?_
    refine (walks.quiet (quiet_bread _ _)).bind fun buf => ?_
    cases buf with
    | none => exact Keeps.pure _
    | some b =>
      dsimp only
      split
      · exact walks.iOpen _ _
      · exact Walks.srchFrom walks wd name nblocks n

theorem Walks.srchDir (walks : Walks stop R) (wd : Nat) (name : List UInt8) : Keeps stop R (srchDir wd name) :=
  Keeps.get.bind fun _ => walks.srchFrom _ _ _ _

theorem Walks.srchMt (walks : Walks stop R) (ino : Nat) : Keeps stop R (srchMt ino) := by
  refine Keeps.get.bind fun s => ?_
  split
  · exact Keeps.pure _
  · exact (walks.iDeref ino).bind fun _ => Keeps.get.bind fun s => walks.iOpen _ _

theorem Walks.enter (walks : Walks stop R) (ninode : Option Nat) : Keeps stop R (enter ninode) := by
  cases ninode with
  | none => exact Keeps.pure _
  | some n =>
    refine (walks.quiet (quiet_magic n)).bind fun _ => ?_
    exact Keeps.bind (walks.quiet (quiet_modifyU fun _ => rfl)) fun _ => walks.srchMt n

theorem Walks.leaveMount (walks : Walks stop R) (wd : Nat) : Keeps stop R (leaveMount wd) := by
  refine Keeps.get.bind fun s => ?_
  split
  · exact walks.null
  · split
    · exact walks.null
    · refine (walks.iRef _).bind fun _ => (walks.iDeref _).bind fun _ => Keeps.pure _

theorem Walks.lookup (walks : Walks stop R) (n : Nat) (name : List UInt8) : Keeps stop R (lookup n name) := by
  refine Keeps.get.bind fun s => Keeps.ite ?_ ?_
  · refine (walks.leaveMount n).bind fun wd => (walks.srchDir _ _).bind fun _ => ?_
    exact Keeps.pure _
  · exact (walks.srchDir _ _).bind fun _ => Keeps.pure _

theorem Walks.walk (walks : Walks stop R) : ∀ names wd ninode, Keeps stop R (walk names wd ninode)
  | [], wd, ninode => (walks.enter ninode).bind fun _ => Keeps.pure _
  | name :: rest, wd, ninode => by
    refine (walks.enter ninode).bind fun found => ?_
    cases found with
    | none =>
      refine (walks.setError _).bind fun _ => (walks.iDeref wd).bind fun _ => Keeps.pure _
    | some n =>
      refine (walks.iDeref wd).bind fun _ => Keeps.get.bind fun s => ?_
      refine Keeps.ite ?_ (Keeps.ite ?_ (Keeps.ite ?_ ?_))
      · refine (walks.setError _).bind fun _ => (walks.iDeref n).bind fun _ => Keeps.pure _
      · refine (walks.setError _).bind fun _ => (walks.iDeref n).bind fun _ => Keeps.pure _
      · exact Walks.walk walks rest n _
      · refine (walks.lookup n name).bind fun found => ?_
        exact Walks.walk walks rest found.1 found.2

theorem Walks.knWalk (walks : Walks stop R) (path : List UInt8) : Keeps stop R (knWalk path) := by
  refine Keeps.get.bind fun s => (walks.iRef _).bind fun _ => (walks.iRef _).bind fun _ => ?_
  exact walks.walk _ _ _

theorem Walks.nOpenParent (walks : Walks stop R) (name : Path) : Keeps stop R (nOpenParent name) := by
  refine (walks.quiet quiet_evict).bind fun _ => ?_
  cases name with
  | none => exact (walks.setError _).bind fun _ => Keeps.pure _
  | some path =>
    refine (walks.knWalk path).bind fun r => ?_
    cases r with
    | none => exact Keeps.pure _
    | some r => exact Keeps.pure _

theorem Walks.nOpen (walks : Walks stop R) (name : Path) : Keeps stop R (nOpen name) := by
  refine (walks.quiet quiet_evict).bind fun _ => ?_
  cases name with
  | none => exact (walks.setError _).bind fun _ => Keeps.pure _
  | some path =>
    refine (walks.knWalk path).bind fun r => ?_
    cases r with
    | none => exact Keeps.pure _
    | some r =>
      refine (walks.iDeref _).bind fun _ => ?_
      exact (Walks.onlyIf (walks.setError _)).bind fun _ => Keeps.pure _

theorem Walks.newfile (walks : Walks stop R) (pino : Nat) (name : List UInt8) : Keeps stop R (newfile pino name) := by
  refine Keeps.get.bind fun s => Keeps.ite ?_ (Keeps.ite ?_ ((walks.iOpen _ _).bind fun r => ?_))
  · refine (walks.setError _).bind fun _ => (walks.iDeref _).bind fun _ => Keeps.pure _
  · refine (walks.setError _).bind fun _ => (walks.iDeref _).bind fun _ => Keeps.pure _
  · cases r with
    | none =>
      refine (walks.setError _).bind fun _ => (walks.iDeref _).bind fun _ => Keeps.pure _
    | some nindex =>
      refine (walks.quiet (quiet_modifyNode _ _)).bind fun _ => (walks.quiet (quiet_wrInode _)).bind fun _ => ?_
      refine (walks.quiet (quiet_chLink _ _ _ _)).bind fun ok => Keeps.ite ?_ ?_
      · exact (walks.iDeref _).bind fun _ => Keeps.pure _
      · exact (walks.iDeref _).bind fun _ => (walks.iDeref _).bind fun _ => Keeps.pure _

theorem Walks.openInode (walks : Walks stop R) (name : Path) (flag mode : Nat) :
    Keeps stop R (openInode name flag mode) := by
  refine (walks.nOpenParent name).bind fun found => ?_
  obtain ⟨ino, parent⟩ := found
  cases ino with
  | some ino =>
    cases parent with
    | none => exact walks.null
    | some parent =>
      refine (walks.iDeref parent).bind fun _ => Keeps.ite ?_ (Keeps.pure _)
      refine (walks.setError _).bind fun _ => (walks.iDeref ino).bind fun _ => Keeps.pure _
  | none =>
    cases parent with
    | none => exact Keeps.pure _
    | some parent =>
      refine Keeps.get.bind fun s => Keeps.ite (Keeps.pure _) (Keeps.ite ?_ ?_)
      · exact (walks.setError _).bind fun _ => Keeps.pure _
      · refine (walks.quiet (quiet_filenameOf name)).bind fun fname => ?_
        refine (walks.newfile parent fname).bind fun made => ?_
        cases made with
        | none => exact Keeps.pure _
        | some ino =>
          refine Keeps.get.bind fun s => (walks.quiet (quiet_modifyNode ino _)).bind fun _ => ?_
          refine (walks.quiet (quiet_setftime ino _)).bind fun _ => (walks.quiet (quiet_wrInode ino)).bind fun _ => ?_
          exact Keeps.pure _

end

end Fuzix
