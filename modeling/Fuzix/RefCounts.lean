import Fuzix.Lib.Total
import Fuzix.Steady

/-!
# Reference counts of inodes

`c_refs` counts the holders of an in-core inode: the working and root directories of
live processes, the entries of the open file table, the mount points and the root
pointer. `RefAcc s X Y` is the accounting in the middle of a call: `X` lists the
references the call has taken itself, `Y` those it has given back for holders that
still name the inode.
-/

set_option linter.unusedSectionVars false

namespace Fuzix

open Wp Table Words

/-! ## Holders -/

def Udata.holds (u : Udata) (i : Nat) : Nat :=
  (if u.cwd = i then 1 else 0) + (if u.root = i then 1 else 0)

def Proc.holds (q : Proc) (i : Nat) : Nat := if q.status = .live then q.u.holds i else 0

def Oft.holds (o : Oft) (i : Nat) : Nat := if o.inode = some i then 1 else 0

def Mount.holds (m : Mount) (i : Nat) : Nat :=
  if m.dev ≠ NO_DEVICE ∧ m.fs.mntpt = some i then 1 else 0

def rootHolds (s : Kernel) (i : Nat) : Nat := if s.root = i then 1 else 0

/-- A reference count below zero. -/
def Counted (e : Stop) : Prop := e ≠ .panic .inodeFreed

variable [Build]

def inodeHolders (s : Kernel) (i : Nat) : Nat :=
  total PTABSIZE (fun p => (s.ptab p).holds i) + total OFTSIZE (fun k => (s.oftab k).holds i) +
    total NMOUNTS (fun m => (s.fstab m).holds i) + rootHolds s i

structure RefAcc (s : Kernel) (X Y : List Nat) : Prop where
  count : ∀ i, (s.itab i).refs + Y.count i = inodeHolders s i + X.count i
  /-- A process that sleeps in `d_open` has booked an entry of the table. -/
  waits : ∀ p u k flag, (s.ptab p).wait = some (.opening u k flag) → k < OFTSIZE
  acctFh : ∀ k, s.acctFh = some k → k < OFTSIZE

/-! ## What does not change the counts -/

structure RefsKept (s t : Kernel) : Prop where
  itab : ∀ i, (t.itab i).refs = (s.itab i).refs
  ptab : ∀ p, (t.ptab p).holds = (s.ptab p).holds
  wait : ∀ p, (t.ptab p).wait = (s.ptab p).wait
  oftab : ∀ k, (t.oftab k).holds = (s.oftab k).holds
  fstab : ∀ m, (t.fstab m).holds = (s.fstab m).holds
  root : t.root = s.root
  acctFh : t.acctFh = s.acctFh

section Kept
variable {s t u : Kernel} {X Y : List Nat}

theorem RefsKept.refl (s : Kernel) : RefsKept s s :=
  ⟨fun _ => rfl, fun _ => rfl, fun _ => rfl, fun _ => rfl, fun _ => rfl, rfl, rfl⟩

theorem RefsKept.trans (h : RefsKept s t) (k : RefsKept t u) : RefsKept s u where
  itab := fun i => (k.itab i).trans (h.itab i)
  ptab := fun p => (k.ptab p).trans (h.ptab p)
  wait := fun p => (k.wait p).trans (h.wait p)
  oftab := fun j => (k.oftab j).trans (h.oftab j)
  fstab := fun m => (k.fstab m).trans (h.fstab m)
  root := k.root.trans h.root
  acctFh := k.acctFh.trans h.acctFh

instance : IsTrans Kernel RefsKept := ⟨fun _ _ _ => RefsKept.trans⟩

instance : Std.Refl RefsKept := ⟨RefsKept.refl⟩

theorem DataOnly.refsKept (h : DataOnly s t) : RefsKept s t where
  itab := fun i => congrArg Users.refs (h.itab i)
  ptab := fun p => by
    have same := h.ptab p
    simp only [Proc.fixed, Udata.fixed, Proc.mk.injEq, Udata.mk.injEq] at same
    funext i
    simp only [Proc.holds, Udata.holds, same]
  wait := fun p => by
    have same := h.ptab p
    simp only [Proc.fixed, Proc.mk.injEq] at same
    exact same.2.2.2.1
  oftab := fun k => by rw [h.oftab]
  fstab := fun m => by
    have dev := congrArg Place.dev (h.fstab m)
    have mntpt := congrArg (fun p => p.volume.mntpt) (h.fstab m)
    funext i
    show (if (t.fstab m).dev ≠ NO_DEVICE ∧ (t.fstab m).fs.mntpt = some i then 1 else 0) = _
    rw [show (t.fstab m).dev = (s.fstab m).dev from dev,
      show (t.fstab m).fs.mntpt = (s.fstab m).fs.mntpt from mntpt]
    rfl
  root := h.root
  acctFh := h.acctFh

theorem RefsKept.holders (h : RefsKept s t) (i : Nat) : inodeHolders t i = inodeHolders s i := by
  simp only [inodeHolders, rootHolds, h.ptab, h.oftab, h.fstab, h.root]

theorem RefsKept.acc (h : RefsKept s t) (a : RefAcc s X Y) : RefAcc t X Y where
  count := fun i => by
    rw [h.itab, h.holders]
    exact a.count i
  waits := fun p u k flag => by
    rw [h.wait]
    exact a.waits p u k flag
  acctFh := by
    rw [h.acctFh]
    exact a.acctFh

theorem DataOnly.dirs (h : DataOnly s t) : t.u.cwd = s.u.cwd ∧ t.u.root = s.u.root := by
  have same := h.ptab s.cur
  simp only [Proc.fixed, Udata.fixed, Proc.mk.injEq, Udata.mk.injEq] at same
  simp only [Kernel.u, h.cur, same, and_self]

theorem Proc.holds_live {q : Proc} (live : q.status = .live) (i : Nat) :
    q.holds i = q.u.holds i := if_pos live

theorem DataOnly.acc (h : DataOnly s t) (a : RefAcc s X Y) : RefAcc t X Y := h.refsKept.acc a

/-- A program that leaves every count and every holder as it is. -/
abbrev Held {α : Type} (m : K α) : Prop := Keeps Counted RefsKept m

theorem held_of_quiet {α : Type} {m : K α} (h : Quiet m) : Held m :=
  h.mono (fun _ calm => calm.2) fun _ _ => DataOnly.refsKept

theorem held_setError (e : Nat) : Held (setError e) := held_of_quiet (quiet_setError e)

theorem held_modifyU {f : Udata → Udata} (cwd : ∀ u, (f u).cwd = u.cwd)
    (root : ∀ u, (f u).root = u.root) : Held (modifyU f) :=
  Keeps.modify fun s => { RefsKept.refl s with
    ptab := fun p => put_fixed (by
      funext i
      simp only [Proc.holds, Udata.holds, cwd, root, Kernel.u])
    wait := fun p => put_fixed rfl }

theorem held_modifyInode (i : Nat) {f : Cinode → Cinode} (h : ∀ c, (f c).refs = c.refs) :
    Held (modifyInode i f) :=
  Keeps.modify fun s => { RefsKept.refl s with itab := fun _ => put_fixed (h _) }

theorem held_modifyOft (k : Nat) {f : Oft → Oft} (h : ∀ o, (f o).inode = o.inode) :
    Held (modifyOft k f) :=
  Keeps.modify fun s => { RefsKept.refl s with
    oftab := fun _ => put_fixed (by funext i; simp only [Oft.holds, h]) }

/-! ## The counts fit in 8 bits -/

theorem RefAcc.perm (a : RefAcc s X Y) {X' : List Nat} (h : X.Perm X') : RefAcc s X' Y where
  count := fun i => by
    rw [← h.count_eq]
    exact a.count i
  waits := a.waits
  acctFh := a.acctFh

theorem Proc.holds_le (q : Proc) (i : Nat) : q.holds i ≤ 2 := by
  unfold Proc.holds Udata.holds
  split
  · split <;> split <;> omega
  · omega

theorem inodeHolders_le (s : Kernel) (i : Nat) :
    inodeHolders s i ≤ 2 * PTABSIZE + OFTSIZE + NMOUNTS + 1 := by
  have procs : total PTABSIZE (fun p => (s.ptab p).holds i) ≤ PTABSIZE * 2 :=
    total_le fun p _ => Proc.holds_le _ i
  have files : total OFTSIZE (fun k => (s.oftab k).holds i) ≤ OFTSIZE * 1 :=
    total_le fun k _ => by unfold Oft.holds; split <;> omega
  have mounts : total NMOUNTS (fun m => (s.fstab m).holds i) ≤ NMOUNTS * 1 :=
    total_le fun m _ => by unfold Mount.holds; split <;> omega
  have root : rootHolds s i ≤ 1 := by unfold rootHolds; split <;> omega
  unfold inodeHolders
  omega

/-- A call holds a few references at most. -/
theorem RefAcc.refs_succ (a : RefAcc s X Y) (few : X.length ≤ 14) (i : Nat) :
    ((s.itab i).refs + 1) % 256 = (s.itab i).refs + 1 := by
  have sum := a.count i
  have holders := inodeHolders_le s i
  have count : X.count i ≤ X.length := List.count_le_length
  have bound := Build.inodeRefsBound
  omega

/-! ## Taking and giving back -/

theorem RefAcc.incr (a : RefAcc s X Y) (few : X.length ≤ 14) (i : Nat) {c : Cinode}
    (refs : c.refs = ((s.itab i).refs + 1) % 256) :
    RefAcc { s with itab := put s.itab i c } (i :: X) Y := by
  refine ⟨fun j => ?_, a.waits, a.acctFh⟩
  have before := a.count j
  have more := a.refs_succ few i
  show (put s.itab i c j).refs + Y.count j = inodeHolders s j + (i :: X).count j
  by_cases here : j = i
  · subst here
    rw [put_same, refs, more, List.count_cons_self]
    omega
  · rw [put_ne _ _ here, List.count_cons_of_ne (Ne.symm here)]
    exact before

theorem wp_iRef (a : RefAcc s X Y) (few : X.length ≤ 14) (i : Nat) :
    wp Counted (iRef i) (fun _ t => RefAcc t (i :: X) Y) s :=
  a.incr few i rfl

/-- A reference that was owed is paid. -/
theorem RefAcc.pay {i : Nat} (a : RefAcc s (i :: X) (i :: Y)) : RefAcc s X Y := by
  refine ⟨fun j => ?_, a.waits, a.acctFh⟩
  have sum := a.count j
  by_cases here : j = i
  · subst here
    rw [List.count_cons_self, List.count_cons_self] at sum
    omega
  · rw [List.count_cons_of_ne (Ne.symm here), List.count_cons_of_ne (Ne.symm here)] at sum
    exact sum

theorem wp_magic {stop : Stop → Prop} (i : Nat) {Q : Unit → Kernel → Prop}
    (h : stop (.panic .corrupti)) (post : Q () s) : wp stop (magic i) Q s := by
  unfold magic
  simp only [wp_bind, wp_get, wp_ite, wp_panic, wp_pure]
  exact ⟨fun _ => h, fun _ => post⟩

/-- `i_deref` takes one reference, and the rest of what it does changes no count. -/
theorem wp_iDeref_of_pos {i : Nat} (pos : 0 < (s.itab i).refs) :
    wp Counted (iDeref i) (fun _ t => DataOnly { s with
      itab := put s.itab i { s.itab i with refs := (s.itab i).refs - 1 } } t) s := by
  unfold iDeref
  rw [wp_bind]
  refine wp_magic i (by simp [Counted]) ?_
  simp only [wp_bind, wp_get, wp_ite]
  refine ⟨fun zero => absurd zero (by omega), fun _ => ?_⟩
  rw [wp_modifyInode]
  have rest : Quiet (do
      onlyIf ((s.itab i).refs = 1 ∧ (s.itab i).node.nlink = 0 ∧ ownsBlocks (s.itab i).node)
        (discard (fTrunc i))
      iRelease i) :=
    (quiet_onlyIf ((quiet_fTrunc i).map _)).bind fun _ => quiet_iRelease i
  have run : wp Counted _ _ _ :=
    wp_stop_mono (rest { s with
      itab := put s.itab i { s.itab i with refs := (s.itab i).refs - 1 } }) fun _ calm => calm.2
  rw [wp_bind] at run
  exact run

/-- A reference that is given back for a holder that still names the inode. -/
theorem wp_iDeref_owed {i : Nat} (a : RefAcc s X Y) (named : Y.count i < inodeHolders s i) :
    wp Counted (iDeref i) (fun _ t => RefAcc t X (i :: Y) ∧ DataOnly { s with
      itab := put s.itab i { s.itab i with refs := (s.itab i).refs - 1 } } t) s := by
  have sum := a.count i
  refine wp_mono (wp_iDeref_of_pos (by omega)) fun _ t kept => ?_
  refine ⟨kept.acc ⟨fun j => ?_, a.waits, a.acctFh⟩, kept⟩
  have before := a.count j
  show (put s.itab i _ j).refs + (i :: Y).count j = inodeHolders s j + X.count j
  by_cases here : j = i
  · subst here
    rw [put_same, List.count_cons_self]
    dsimp only
    omega
  · rw [put_ne _ _ here, List.count_cons_of_ne (Ne.symm here)]
    exact before

theorem wp_iDeref {i : Nat} (a : RefAcc s (i :: X) []) :
    wp Counted (iDeref i) (fun _ t => RefAcc t X []) s := by
  have sum := a.count i
  rw [List.count_cons_self, List.count_nil] at sum
  refine wp_mono (wp_iDeref_of_pos (by omega)) fun _ t kept =>
    kept.acc ⟨fun j => ?_, a.waits, a.acctFh⟩
  have before := a.count j
  show (put s.itab i _ j).refs + _ = inodeHolders s j + X.count j
  by_cases here : j = i
  · subst here
    rw [put_same, List.count_nil]
    dsimp only
    omega
  · rw [put_ne _ _ here]
    rw [List.count_cons_of_ne (Ne.symm here)] at before
    exact before

/-! ## Holders that change -/

theorem count_one (j i : Nat) : [j].count i = if j = i then 1 else 0 := by
  by_cases h : j = i
  · rw [if_pos h, h, List.count_singleton_self]
  · rw [if_neg h, List.count_cons_of_ne h, List.count_nil]

theorem proc_holds_le {p : Nat} (hp : p < PTABSIZE) (i : Nat) :
    (s.ptab p).holds i ≤ inodeHolders s i := by
  have one := le_total (f := fun p => (s.ptab p).holds i) hp
  unfold inodeHolders
  omega

theorem oft_holds_le {k : Nat} (hk : k < OFTSIZE) (i : Nat) :
    (s.oftab k).holds i ≤ inodeHolders s i := by
  have one := le_total (f := fun k => (s.oftab k).holds i) hk
  unfold inodeHolders
  omega

theorem mount_holds_le {m : Nat} (hm : m < NMOUNTS) (i : Nat) :
    (s.fstab m).holds i ≤ inodeHolders s i := by
  have one := le_total (f := fun m => (s.fstab m).holds i) hm
  unfold inodeHolders
  omega

variable {Z : List Nat}

/-- A process changes what it holds, and the debts change with it. -/
theorem RefAcc.reseat (a : RefAcc s X Y) {p : Nat} (hp : p < PTABSIZE) {q : Proc}
    (balance : ∀ i, Z.count i + (s.ptab p).holds i = Y.count i + q.holds i)
    (waits : ∀ u k flag, q.wait = some (.opening u k flag) → k < OFTSIZE) :
    RefAcc { s with ptab := put s.ptab p q } X Z := by
  refine ⟨fun i => ?_, fun j u k flag asleep => ?_, a.acctFh⟩
  rotate_left
  · by_cases here : j = p
    · subst here
      simp only [put_same] at asleep
      exact waits u k flag asleep
    · simp only [put_ne _ _ here] at asleep
      exact a.waits j u k flag asleep
  have before := a.count i
  have change := total_change (f := fun p => (s.ptab p).holds i)
    (g := fun j => (put s.ptab p q j).holds i) hp fun j _ other => by simp only [put_ne _ _ other]
  have here := balance i
  simp only [put_same] at change
  unfold inodeHolders rootHolds at before ⊢
  dsimp only
  omega

theorem RefAcc.refile (a : RefAcc s X Y) {k : Nat} (hk : k < OFTSIZE) {o : Oft}
    (balance : ∀ i, Z.count i + (s.oftab k).holds i = Y.count i + o.holds i) :
    RefAcc { s with oftab := put s.oftab k o } X Z := by
  refine ⟨fun i => ?_, a.waits, a.acctFh⟩
  have before := a.count i
  have change := total_change (f := fun k => (s.oftab k).holds i)
    (g := fun j => (put s.oftab k o j).holds i) hk fun j _ other => by simp only [put_ne _ _ other]
  have here := balance i
  simp only [put_same] at change
  unfold inodeHolders rootHolds at before ⊢
  dsimp only
  omega

theorem RefAcc.remount (a : RefAcc s X Y) {m : Nat} (hm : m < NMOUNTS) {mnt : Mount}
    (balance : ∀ i, Z.count i + (s.fstab m).holds i = Y.count i + mnt.holds i) :
    RefAcc { s with fstab := put s.fstab m mnt } X Z := by
  refine ⟨fun i => ?_, a.waits, a.acctFh⟩
  have before := a.count i
  have change := total_change (f := fun m => (s.fstab m).holds i)
    (g := fun j => (put s.fstab m mnt j).holds i) hm fun j _ other => by
      simp only [put_ne _ _ other]
  have here := balance i
  simp only [put_same] at change
  unfold inodeHolders rootHolds at before ⊢
  dsimp only
  omega

end Kept

end Fuzix
