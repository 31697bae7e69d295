import Fuzix.FileProcs
import Fuzix.RefFiles

/-!
# References of processes

Descriptors and processes come and go with the references of the entries and of
the working and root directories.
-/

set_option linter.unusedSectionVars false

namespace Fuzix

open Wp Table Words

variable [Build]

section Procs
variable {s t : Kernel} {X : List Nat}

/-! ## Descriptors -/

theorem held_oftOf (fd : Nat) : Held (oftOf fd) :=
  Keeps.get.bind fun _ => Keeps.ite (Keeps.throw (by simp [Counted])) (held_pure _)

theorem held_getOft (k : Nat) : Held (getOft k) :=
  Keeps.get.bind fun _ => Keeps.ite (Keeps.throw (by simp [Counted])) (held_pure _)

theorem held_dropUser (i m : Nat) : Held (dropUser i m) := held_modifyInode i fun _ => rfl

theorem RefAcc.doclose (a : RefAcc s X []) (fd : Nat) :
    wp Counted (doclose fd) (fun _ t => RefAcc t X []) s := by
  unfold Fuzix.doclose
  rw [wp_bind]
  refine wp_mono (wp_and_ok (held_getinode fd s) (wp_getinode s fd)) ?_
  rintro found t ⟨kept, _, isOpen, _⟩
  have a := kept.acc a
  cases found with
  | none => exact a
  | some i =>
    have hk : t.u.files (fd % 256) < OFTSIZE := (isOpen i rfl).entry
    rw [wp_bind, wp_get]
    have close : Held (do
        onlyIf ((t.oftab (t.u.files (fd % 256))).refs = 1)
          (dropUser i (t.oftab (t.u.files (fd % 256))).access.accmode)
        modifyU (fun u => { u with
          files := put u.files (fd % 256) NO_FILE
          cloexec := put u.cloexec (fd % 256) false })) := by
      refine Keeps.bind (Keeps.ite (held_dropUser _ _) (held_pure _)) fun _ => ?_
      exact held_modifyU (fun _ => rfl) fun _ => rfl
    have run := wp_held close a
    simp only [wp_bind] at run ⊢
    refine wp_mono run fun _ u run => ?_
    refine wp_mono run fun _ v a => ?_
    exact a.oftDeref hk

theorem RefAcc.close (a : RefAcc s [] []) (fd : Nat) :
    wp Counted (close fd) (fun _ t => RefAcc t [] []) s := by
  unfold Fuzix.close
  rw [wp_bind]
  refine wp_mono (a.doclose (fd % 256)) fun closed t a => ?_
  rw [wp_ite]
  exact ⟨fun _ => a, fun _ => a⟩

theorem held_share (k : Nat) : Held (do
    let _ ← getOft k
    modifyOft k (fun o => { o with refs := (o.refs + 1) % 256 })) :=
  (held_getOft k).bind fun _ => held_modifyOft k fun _ => rfl

theorem held_dupTo (fd newd : Nat) : Held (dupTo fd newd) :=
  (held_oftOf fd).bind fun k => (held_setFile newd k).bind fun _ => held_share k

theorem held_dup (oldd : Nat) : Held (dup oldd) := by
  refine (held_getinode oldd).bind fun found => ?_
  cases found with
  | none => exact held_pure _
  | some _ =>
    refine (held_ufAllocN 0).bind fun slot => ?_
    cases slot with
    | none => exact held_pure _
    | some newd => exact (held_dupTo oldd newd).bind fun _ => held_pure _

theorem RefAcc.dup2 (a : RefAcc s [] []) (oldd newd : Nat) :
    wp Counted (dup2 oldd newd) (fun _ t => RefAcc t [] []) s := by
  unfold Fuzix.dup2
  rw [wp_bind]
  refine wp_mono (wp_held (held_getinode oldd) a) fun found t a => ?_
  cases found with
  | none => exact a
  | some _ =>
    dsimp only
    rw [wp_ite]
    refine ⟨fun _ => ?_, fun _ => ?_⟩
    · rw [wp_bind]
      exact wp_held (held_setError EBADF) a
    · have finish : Held (do
          dupTo oldd newd
          return some 0) := (held_dupTo oldd newd).bind fun _ => held_pure _
      rw [wp_bind, wp_get, wp_bind, wp_onlyIf]
      refine ⟨fun _ => ?_, fun _ => wp_held finish a⟩
      rw [wp_discard]
      exact wp_mono (a.doclose newd) fun _ u a => wp_held finish a

theorem held_fcntl (fd : Nat) (request : Fcntl) (data : Nat) : Held (fcntl fd request data) := by
  refine (held_getinode fd).bind fun found => ?_
  cases found with
  | none => exact held_pure _
  | some _ =>
    refine (held_oftOf fd).bind fun k => (held_getOft k).bind fun _ => Keeps.get.bind fun s => ?_
    cases request with
    | setfl => exact Keeps.bind (held_modifyOft k fun _ => rfl) fun _ => held_pure _
    | getfl => exact held_pure _
    | getfd => exact held_pure _
    | setfd => exact Keeps.bind (held_modifyU (fun _ => rfl) fun _ => rfl) fun _ => held_pure _
    | dupfd =>
      refine (held_ufAllocN data).bind fun slot => ?_
      cases slot with
      | none => exact held_pure _
      | some newd => exact (held_dupTo fd newd).bind fun _ => held_pure _
    | other => exact (held_setError EINVAL).bind fun _ => held_pure _

/-! ## pipe -/

/-- Both entries that `_pipe` reserves name nothing. -/
def pipeSound (s : Kernel) : Prop :=
  After ufAlloc s fun u t => ∀ u1, u = some u1 → freshEntry t ∧
    After oftAlloc t fun k v => ∀ oft1, k = some oft1 →
      After (do
        setFile u1 oft1
        ufAlloc) v fun u2 w => u2 ≠ none → freshEntry w

theorem oftab_setFile (fd k : Nat) (s : Kernel) :
    wp Counted (setFile fd k) (fun _ t => t.oftab = s.oftab) s := rfl

theorem oftab_ufAlloc (s : Kernel) : wp Counted ufAlloc (fun _ t => t.oftab = s.oftab) s := by
  unfold ufAlloc ufAllocN
  rw [wp_bind, wp_get]
  split
  · rfl
  · rfl

theorem RefAcc.pipeSlots (a : RefAcc s [] []) (sound : pipeSound s) :
    wp Counted pipeSlots (fun r t => RefAcc t [] [] ∧ ∀ u1 oft1 u2 oft2,
      r = some (u1, oft1, u2, oft2) → Reserved t oft1 ∧ Reserved t oft2 ∧ oft1 ≠ oft2) s := by
  have failed : ∀ v k u, RefAcc v [] [] → k < OFTSIZE → wp Counted (do
      Fuzix.oftDeref k
      setFile u NO_FILE
      return (none : Option (Nat × Nat × Nat × Nat))) (fun r t => RefAcc t [] [] ∧
        ∀ u1 oft1 u2 oft2, r = some (u1, oft1, u2, oft2) →
          Reserved t oft1 ∧ Reserved t oft2 ∧ oft1 ≠ oft2) v := by
    intro v k u a hk
    rw [wp_bind]
    refine wp_mono (a.oftDeref hk) fun _ w a => ?_
    rw [wp_bind]
    refine wp_mono (wp_held (held_setFile u NO_FILE) a) fun _ x a => ⟨a, ?_⟩
    rintro _ _ _ _ no
    cases no
  unfold Fuzix.pipeSlots
  rw [wp_bind]
  refine wp_mono (wp_after (held_ufAllocN 0 s) sound) ?_
  rintro slot t ⟨kept, sound⟩
  have a := kept.acc a
  cases slot with
  | none =>
    refine ⟨a, ?_⟩
    rintro _ _ _ _ no
    cases no
  | some u1 =>
    obtain ⟨fresh, sound⟩ := sound u1 rfl
    rw [wp_bind]
    refine wp_mono (wp_after (a.oftAlloc fresh) sound) ?_
    rintro entry v ⟨⟨a, reserved⟩, sound⟩
    cases entry with
    | none =>
      refine ⟨a, ?_⟩
      rintro _ _ _ _ no
      cases no
    | some oft1 =>
      obtain ⟨⟨h1, empty1⟩, one, _, _⟩ := reserved oft1 rfl
      have second : wp Counted (do
          setFile u1 oft1
          ufAlloc) (fun _ w => RefAcc w [] [] ∧ w.oftab = v.oftab) v := by
        rw [wp_bind]
        refine wp_mono (wp_and (held_setFile u1 oft1 v) (oftab_setFile u1 oft1 v)) ?_
        rintro _ w ⟨kept, same⟩
        refine wp_mono (wp_and (held_ufAllocN 0 w) (oftab_ufAlloc w)) ?_
        rintro slot x ⟨kept', same'⟩
        exact ⟨(kept.trans kept').acc a, same'.trans same⟩
      have run := wp_after second (sound oft1 rfl)
      rw [wp_bind] at run
      rw [wp_bind]
      refine wp_mono run fun _ w run => ?_
      rw [wp_bind]
      refine wp_mono run ?_
      rintro slot x ⟨⟨a, same⟩, fresh⟩
      cases slot with
      | none => exact failed x oft1 u1 a h1
      | some u2 =>
        rw [wp_bind]
        refine wp_mono (a.oftAlloc (fresh (Option.some_ne_none u2))) ?_
        rintro entry y ⟨a, reserved⟩
        cases entry with
        | none => exact failed y oft1 u1 a h1
        | some oft2 =>
          obtain ⟨res, _, idle, others⟩ := reserved oft2 rfl
          have other : oft1 ≠ oft2 := by
            rintro rfl
            rw [same, one] at idle
            cases idle
          refine ⟨a, ?_⟩
          rintro _ _ _ _ same'
          cases same'
          refine ⟨⟨h1, ?_⟩, res, other⟩
          rw [others oft1 other, same]
          exact empty1

theorem RefAcc.pipe (a : RefAcc s [] []) (sound : pipeSound s) :
    wp Counted pipe (fun _ t => RefAcc t [] []) s := by
  unfold Fuzix.pipe
  rw [wp_bind]
  refine wp_mono (a.pipeSlots sound) ?_
  rintro slots t ⟨a, reserved⟩
  rcases slots with _ | ⟨u1, oft1, u2, oft2⟩
  · exact a
  · obtain ⟨⟨h1, empty1⟩, ⟨h2, empty2⟩, other⟩ := reserved u1 oft1 u2 oft2 rfl
    have fresh : wp Counted pipeInode (fun r v => RefAcc v r.toList [] ∧ v.oftab = t.oftab) t := by
      unfold pipeInode
      rw [wp_bind, wp_get]
      refine wp_mono (wp_and_ok (wp_iOpen a (by simp) t.rootDev 0) (steady_iOpen _ _ t)) ?_
      rintro found v ⟨a, kept⟩
      rw [List.append_nil] at a
      exact ⟨a, kept.oftab⟩
    rw [wp_bind]
    refine wp_mono fresh ?_
    rintro found v ⟨a, same⟩
    cases found with
    | none =>
      have a : RefAcc v [] [] := a
      rw [wp_bind]
      refine wp_mono (a.oftDeref h2) fun _ w a => ?_
      rw [wp_bind]
      refine wp_mono (a.oftDeref h1) fun _ x a => ?_
      rw [wp_bind]
      exact wp_held (held_setFile u1 NO_FILE) a
    | some ino =>
      have a : RefAcc v [ino] [] := a
      rw [wp_bind, wp_get, wp_ite]
      refine ⟨fun _ => ?_, fun _ => ?_⟩
      · rw [wp_bind]
        refine wp_mono (wp_held (held_setError EROFS) a) fun _ w a => ?_
        rw [wp_bind]
        refine wp_mono (wp_iDeref a) fun _ x a => ?_
        rw [wp_bind]
        refine wp_mono (a.oftDeref h1) fun _ y a => ?_
        rw [wp_bind]
        exact wp_held (held_setFile u1 NO_FILE) a
      · rw [wp_bind]
        have files : wp Counted (setFile u2 oft2)
            (fun _ w => RefAcc w [ino] [] ∧ w.oftab = t.oftab) v :=
          wp_mono (wp_and (held_setFile u2 oft2 v) (oftab_setFile u2 oft2 v)) fun _ w post =>
            ⟨post.1.acc a, post.2.trans same⟩
        refine wp_mono files ?_
        rintro _ w ⟨a, same⟩
        have first := a.settle h1 (by rw [same]; exact empty1)
          (o := { w.oftab oft1 with
            ptr := 0, inode := some ino, access := .ofFlag O_RDONLY }) rfl
        have second := first.settle h2 (i := ino)
          (o := { put w.oftab oft1 { w.oftab oft1 with
            ptr := 0, inode := some ino, access := .ofFlag O_RDONLY } oft2 with
            ptr := 0, inode := some ino, access := .ofFlag O_WRONLY })
          (by
            show (put w.oftab oft1 _ oft2).inode = none
            rw [put_ne _ _ (Ne.symm other), same]
            exact empty2) rfl
        have more := second.incr (by simp) ino (c := { w.itab ino with
          refs := ((w.itab ino).refs + 1) % 256
          node := { (w.itab ino).node with mode := F_PIPE + 0o777, nlink := 0 }
          readers := ((w.itab ino).readers + 1) % 256
          writers := ((w.itab ino).writers + 1) % 256 }) rfl
        simp only [wp_bind, wp_modifyOft, wp_modifyInode, wp_pure]
        exact more.pay.pay

/-! ## Transfers -/

theorem held_updoff (fd : Nat) : Held (updoff fd) :=
  (held_oftOf fd).bind fun k => Keeps.get.bind fun _ =>
    Keeps.ite (Keeps.throw (by simp [Counted])) (held_modifyOft k fun _ => rfl)

theorem held_endXfer (fd : Nat) : Held (endXfer fd) :=
  (held_updoff fd).bind fun _ => Keeps.get.bind fun _ => held_pure _

theorem RefAcc.readFrom (a : RefAcc s [] []) (fd i : Nat) (access : Access) :
    wp Counted (readFrom fd i access) (fun _ t => RefAcc t [] []) s := by
  unfold Fuzix.readFrom
  rw [wp_bind]
  refine wp_mono (wp_held (held_of_quiet (quiet_readi i _)) a) fun answer t a => ?_
  cases answer with
  | sleep =>
    rw [wp_bind]
    refine wp_setWait a ?_
    rintro u k flag no
    cases no
  | done data => exact wp_held (held_endXfer fd) a

theorem RefAcc.writeTo (a : RefAcc s [] []) (fd i : Nat) (access : Access) (src : List UInt8) :
    wp Counted (writeTo fd i access src) (fun _ t => RefAcc t [] []) s := by
  unfold Fuzix.writeTo
  rw [wp_bind]
  refine wp_mono (wp_held (held_of_quiet (quiet_writei i _ _)) a) fun answer t a => ?_
  cases answer with
  | sleep =>
    rw [wp_bind]
    refine wp_setWait a ?_
    rintro u k flag no
    cases no
  | done data => exact wp_held (held_endXfer fd) a

theorem held_rwsetup (isRead : Bool) (fd nbytes : Nat) : Held (rwsetup isRead fd nbytes) := by
  refine Keeps.bind (held_modifyU ?_ ?_) fun _ => (held_getinode fd).bind fun found => ?_
  · exact fun _ => rfl
  · exact fun _ => rfl
  · cases found with
    | none => exact held_pure _
    | some i =>
      refine (held_oftOf fd).bind fun k => (held_getOft k).bind fun o => Keeps.ite ?_ ?_
      · exact (held_setError EBADF).bind fun _ => held_pure _
      · refine (held_setftime i _).bind fun _ => Keeps.get.bind fun s => ?_
        refine Keeps.bind (held_modifyOft k ?_) fun _ => Keeps.bind (held_modifyU ?_ ?_) fun _ =>
          held_pure _
        · exact fun _ => rfl
        · exact fun _ => rfl
        · exact fun _ => rfl

theorem RefAcc.refused (a : RefAcc s [] []) (e : Nat) : wp Counted (do
    setError e
    return (none : Option Nat)) (fun _ t => RefAcc t [] []) s := by
  rw [wp_bind]
  exact wp_held (held_setError e) a

theorem RefAcc.read (a : RefAcc s [] []) (fd nbytes : Nat) (mapped : Bool) :
    wp Counted (read fd nbytes mapped) (fun _ t => RefAcc t [] []) s := by
  unfold Fuzix.read
  rw [wp_ite]
  refine ⟨fun _ => a, fun _ => ?_⟩
  rw [wp_ite]
  refine ⟨fun _ => a.refused EINVAL, fun _ => ?_⟩
  rw [wp_ite]
  refine ⟨fun _ => a.refused EFAULT, fun _ => ?_⟩
  rw [wp_bind]
  refine wp_mono (wp_held (held_rwsetup true fd nbytes) a) fun found t a => ?_
  rcases found with _ | ⟨i, access⟩
  · exact a
  · exact a.readFrom fd i access

theorem RefAcc.write (a : RefAcc s [] []) (fd : Nat) (src : List UInt8) (mapped : Bool) :
    wp Counted (write fd src mapped) (fun _ t => RefAcc t [] []) s := by
  unfold Fuzix.write
  rw [wp_ite]
  refine ⟨fun _ => a, fun _ => ?_⟩
  rw [wp_ite]
  refine ⟨fun _ => a.refused EINVAL, fun _ => ?_⟩
  rw [wp_ite]
  refine ⟨fun _ => a.refused EFAULT, fun _ => ?_⟩
  rw [wp_bind]
  refine wp_mono (wp_held (held_rwsetup false fd src.length) a) fun found t a => ?_
  rcases found with _ | ⟨i, access⟩
  · exact a
  · exact a.writeTo fd i access src

/-! ## fork and execve -/

theorem held_shareFiles (files : Nat → Nat) : ∀ n, Held (shareFiles files n)
  | 0 => held_pure _
  | n + 1 => (held_shareFiles files n).bind fun _ => Keeps.ite (held_share _) (held_pure _)

theorem Proc.holds_dead {q : Proc} (dead : q.status ≠ .live) (i : Nat) : q.holds i = 0 :=
  if_neg dead

theorem Udata.holds_eq (u : Udata) (i : Nat) : u.holds i = [u.cwd, u.root].count i := by
  unfold Udata.holds
  by_cases cwd : u.cwd = i
  · rw [if_pos cwd, cwd, List.count_cons_self, count_one, Nat.add_comm]
  · rw [if_neg cwd, List.count_cons_of_ne cwd, count_one, Nat.zero_add]

theorem RefAcc.fork (a : RefAcc s [] []) (memory : Bool) :
    wp Counted (fork memory) (fun _ t => RefAcc t [] []) s := by
  unfold Fuzix.fork
  rw [wp_bind, wp_get]
  split
  · exact a.refused EAGAIN
  · rename_i p found
    have hp := List.mem_range.mp (List.mem_of_find?_eq_some found)
    have empty := List.find?_some found
    simp only [decide_eq_true_eq] at empty
    rw [wp_ite]
    refine ⟨fun _ => a.refused ENOMEM, fun _ => ?_⟩
    have child := a.reseat (Z := [s.u.cwd, s.u.root]) hp (q := {
        status := .live
        parent := s.cur
        ignoresChild := (s.ptab s.cur).ignoresChild
        wait := none
        u := { s.u with error := 0 } })
      (fun i => by
        rw [Proc.holds_dead (by rw [empty]; decide), Proc.holds_live rfl, Udata.holds_eq]
        exact Nat.add_comm _ 0)
      (fun u k flag no => by cases no)
    have cwd := child.incr (by simp) s.u.cwd (c := { s.itab s.u.cwd with
      refs := ((s.itab s.u.cwd).refs + 1) % 256 }) rfl
    rw [wp_bind, wp_modifyProc, wp_bind]
    refine wp_mono (wp_iRef child (by simp) s.u.cwd) fun _ t a => ?_
    rw [wp_bind]
    refine wp_mono (wp_iRef a.pay (by simp) s.u.root) fun _ u a => ?_
    have share : Held (do
        shareFiles s.u.files UFTSIZE
        return some p) := (held_shareFiles _ _).bind fun _ => held_pure _
    exact wp_held share a.pay

theorem RefAcc.closeOnExec : ∀ n s, RefAcc s X [] →
    wp Counted (closeOnExec n) (fun _ t => RefAcc t X []) s
  | 0, _, a => a
  | n + 1, s, a => by
    unfold Fuzix.closeOnExec
    rw [wp_bind, wp_get, wp_bind, wp_onlyIf]
    refine ⟨fun _ => ?_, fun _ => RefAcc.closeOnExec n s a⟩
    rw [wp_discard]
    exact wp_mono (a.doclose n) fun _ t a => RefAcc.closeOnExec n t a

theorem held_setIds (d : Dinode) : Held (setIds d) := held_modifyU (fun _ => rfl) fun _ => rfl

theorem held_readImage (i offset count : Nat) : Held (readImage i offset count) :=
  held_of_quiet (quiet_readImage i offset count)

theorem held_execBody (i : Nat) : Held (execBody i) := held_of_quiet (quiet_execBody i)

theorem RefAcc.execLoad (a : RefAcc s X []) (i : Nat) :
    wp Counted (execLoad i) (fun _ t => RefAcc t X []) s := by
  unfold Fuzix.execLoad
  rw [wp_bind, wp_get, wp_bind]
  refine wp_mono (wp_held (held_setIds _) a) fun _ t a => ?_
  rw [wp_bind]
  refine wp_mono (RefAcc.closeOnExec UFTSIZE t a) fun _ u a => ?_
  have finish : Held (do
      modifyU (fun u => { u with cloexec := fun _ => false })
      execBody i) := Keeps.bind (held_modifyU (fun _ => rfl) fun _ => rfl) fun _ => held_execBody i
  exact wp_held finish a

theorem RefAcc.execve (a : RefAcc s [] []) {name : Path} (image : Image)
    (sound : pathSound name s) :
    wp Counted (execve name image) (fun _ t => RefAcc t [] []) s := by
  unfold Fuzix.execve
  rw [wp_bind]
  refine wp_mono (wp_nOpen a (by simp) sound) fun found t a => ?_
  cases found with
  | none => exact a
  | some i =>
    have a : RefAcc t [i] [] := a
    rw [wp_bind, wp_get]
    dsimp only
    rw [wp_ite]
    refine ⟨fun _ => wp_refuse a EACCES none, fun _ => ?_⟩
    rw [wp_bind]
    refine wp_mono (wp_held (held_setftime i _) a) fun _ u a => ?_
    rw [wp_bind]
    refine wp_mono (wp_held (held_readImage i 0 16) a) fun read v a => ?_
    rw [wp_ite]
    refine ⟨fun _ => ?_, fun _ => wp_refuse a ENOEXEC none⟩
    rw [wp_ite]
    refine ⟨fun _ => wp_refuse a ENOEXEC none, fun _ => ?_⟩
    rw [wp_ite]
    refine ⟨fun _ => wp_refuse a ENOMEM none, fun _ => ?_⟩
    split
    · exact wp_refuse a _ none
    · rw [wp_bind]
      exact wp_mono (a.execLoad i) fun _ w a => wp_drop a (some 0)

/-! ## exit -/

/-- Who runs and the places of the processes are as before. -/
structure Seats (s t : Kernel) : Prop where
  cur : t.cur = s.cur
  status : ∀ p, (t.ptab p).status = (s.ptab p).status
  parent : ∀ p, (t.ptab p).parent = (s.ptab p).parent
  ignores : ∀ p, (t.ptab p).ignoresChild = (s.ptab p).ignoresChild

theorem Seats.refl (s : Kernel) : Seats s s := ⟨rfl, fun _ => rfl, fun _ => rfl, fun _ => rfl⟩

theorem Seats.trans {u : Kernel} (h : Seats s t) (k : Seats t u) : Seats s u where
  cur := k.cur.trans h.cur
  status := fun p => (k.status p).trans (h.status p)
  parent := fun p => (k.parent p).trans (h.parent p)
  ignores := fun p => (k.ignores p).trans (h.ignores p)

instance : IsTrans Kernel Seats := ⟨fun _ _ _ => Seats.trans⟩

instance : Std.Refl Seats := ⟨Seats.refl⟩

theorem FilesKept.seats (h : FilesKept s t) : Seats s t where
  cur := h.cur
  status := fun p => congrArg Desk.status (h.ptab p)
  parent := fun p => congrArg Desk.parent (h.ptab p)
  ignores := fun p => congrArg Desk.ignoresChild (h.ptab p)

abbrev Sitting {α : Type} (m : K α) : Prop := Keeps (fun _ => True) Seats m

theorem sitting_of_steady {α : Type} {m : K α} (h : Steady m) : Sitting m :=
  h.mono (fun _ _ => trivial) fun _ _ => FilesKept.seats

theorem sitting_modifyOft (k : Nat) (f : Oft → Oft) : Sitting (modifyOft k f) :=
  Keeps.modify fun s => { Seats.refl s with }

theorem sitting_modifyU (f : Udata → Udata) : Sitting (modifyU f) :=
  Keeps.modify fun s => { Seats.refl s with
    status := fun _ => put_fixed rfl
    parent := fun _ => put_fixed rfl
    ignores := fun _ => put_fixed rfl }

theorem sitting_oftDeref (k : Nat) : Sitting (oftDeref k) := by
  refine Keeps.get.bind fun s => (sitting_modifyOft k _).bind fun _ => ?_
  split
  · exact Keeps.pure _
  · refine Keeps.ite ?_ (Keeps.pure _)
    refine (sitting_of_steady (steady_of_quiet (quiet_deflock _))).bind fun _ => ?_
    exact (sitting_of_steady (steady_iDeref _)).bind fun _ => sitting_modifyOft k _

theorem sitting_doclose (fd : Nat) : Sitting (doclose fd) := by
  refine (sitting_of_steady (steady_getinode fd)).bind fun found => ?_
  cases found with
  | none => exact Keeps.pure _
  | some i =>
    refine Keeps.get.bind fun s => Keeps.bind (Keeps.ite ?_ (Keeps.pure _)) fun _ => ?_
    · exact Keeps.modify fun s => { Seats.refl s with }
    · refine (sitting_modifyU _).bind fun _ => (sitting_oftDeref _).bind fun _ => ?_
      exact Keeps.pure _

theorem sitting_closeAll : ∀ n, Sitting (closeAll n)
  | 0 => Keeps.pure _
  | n + 1 => by
    refine (sitting_closeAll n).bind fun _ => Keeps.get.bind fun s => ?_
    exact Keeps.ite ((sitting_doclose n).bind fun _ => Keeps.pure _) (Keeps.pure _)

theorem RefAcc.closeAll : ∀ n s, RefAcc s X [] →
    wp Counted (closeAll n) (fun _ t => RefAcc t X []) s
  | 0, _, a => a
  | n + 1, s, a => by
    unfold Fuzix.closeAll
    rw [wp_bind]
    refine wp_mono (RefAcc.closeAll n s a) fun _ t a => ?_
    rw [wp_bind, wp_get, wp_ite]
    refine ⟨fun _ => ?_, fun _ => a⟩
    rw [wp_bind]
    exact wp_mono (a.doclose n) fun _ u a => a

theorem Seats.orphansLive {p : Nat} (h : Seats s t) (live : orphansLive t p) :
    orphansLive s p := by
  obtain ⟨notInit, ignores, q, hq, other, alive, child⟩ := live
  exact ⟨notInit, (h.ignores 0).symm.trans ignores, q, hq, other,
    (h.status q).symm.trans alive, (h.parent q).symm.trans child⟩

/-- No child dies with the process, so none takes its directories with it. -/
theorem wp_orphan_held (sound : ¬ orphansLive s s.cur) (started : s.cur ≠ 0) :
    wp Counted orphan (fun _ t => RefsKept s t ∧ t.cur = s.cur ∧
      (t.ptab t.cur).status = (s.ptab s.cur).status) s := by
  unfold orphan
  rw [wp_modify]
  refine ⟨{ RefsKept.refl s with ptab := fun p => ?_, wait := fun p => ?_ }, rfl, ?_⟩
  · dsimp only
    split
    · rename_i child
      simp only [decide_eq_true_eq] at child
      obtain ⟨hp, other, _, mine⟩ := child
      funext i
      by_cases ignores : (s.ptab 0).ignoresChild = true
      · have dead : (s.ptab p).status ≠ .live := fun alive =>
          sound ⟨started, ignores, p, hp, other, alive, mine⟩
        rw [Proc.holds_dead dead, Proc.holds_dead]
        rw [if_pos ignores]
        exact Status.noConfusion
      · unfold Proc.holds
        rw [if_neg ignores]
    · rfl
  · dsimp only
    split <;> rfl
  · dsimp only
    rw [if_neg]
    simp

theorem held_acctexit (record : List UInt8) : Held (acctexit record) := by
  refine Keeps.get.bind fun s => ?_
  split
  · exact held_pure _
  · rename_i k _
    refine (held_getOft k).bind fun o => ?_
    split
    · exact Keeps.throw (by simp [Counted])
    · refine Keeps.bind (held_modifyU ?_ ?_) fun _ => Keeps.bind (held_modifyOft k ?_) fun _ =>
        (held_of_quiet (quiet_writei _ _ _)).bind fun _ => held_pure _
      · exact fun _ => rfl
      · exact fun _ => rfl
      · exact fun _ => rfl

theorem sitting_acctexit (record : List UInt8) : Sitting (acctexit record) := by
  refine Keeps.get.bind fun s => ?_
  split
  · exact Keeps.pure _
  · rename_i k _
    refine Keeps.bind ?_ fun o => ?_
    · exact Keeps.get.bind fun _ => Keeps.ite (Keeps.throw trivial) (Keeps.pure _)
    · split
      · exact Keeps.throw trivial
      · refine (sitting_modifyU _).bind fun _ => (sitting_modifyOft k _).bind fun _ => ?_
        exact (sitting_of_steady (steady_of_quiet (quiet_writei _ _ _))).bind fun _ => Keeps.pure _

/-- The process that leaves pays for its directories, which it gave back before. -/
theorem wp_leave_paid {u : Udata} (a : RefAcc s [] [u.root, u.cwd]) (hp : s.cur < PTABSIZE)
    (mine : (s.ptab s.cur).holds = u.holds) :
    wp Counted leave (fun _ t => RefAcc t [] []) s := by
  unfold leave
  rw [wp_bind, wp_get]
  dsimp only
  rw [wp_modifyProc]
  refine a.reseat hp (fun i => ?_) fun v k flag no => by cases no
  have pair : [u.root, u.cwd].count i = [u.cwd, u.root].count i :=
    (List.Perm.swap u.cwd u.root []).count_eq i
  rw [mine, Udata.holds_eq, pair, Proc.holds_dead, List.count_nil]
  · omega
  · dsimp only
    split <;> decide

/-- The working and root directories are given back while the process names them. -/
theorem wp_dropDirs (a : RefAcc s [] []) (hp : s.cur < PTABSIZE)
    (live : (s.ptab s.cur).status = .live) :
    wp Counted (do
      iDeref s.u.cwd
      iDeref s.u.root) (fun _ t => RefAcc t [] [s.u.root, s.u.cwd] ∧
        (t.ptab s.cur).holds = s.u.holds ∧ Seats s t) s := by
  have mine : ∀ i, [s.u.cwd, s.u.root].count i ≤ inodeHolders s i := fun i => by
    have le := proc_holds_le (s := s) hp i
    rwa [Proc.holds_live live, Udata.holds_eq] at le
  have one := mine s.u.cwd
  rw [List.count_cons_self] at one
  rw [wp_bind]
  refine wp_mono (wp_iDeref_owed a (by rw [List.count_nil]; omega)) ?_
  rintro _ t ⟨a, data⟩
  have holders : inodeHolders t s.u.root = inodeHolders s s.u.root :=
    data.refsKept.holders s.u.root
  have two := mine s.u.root
  have named : [s.u.cwd].count s.u.root < inodeHolders t s.u.root := by
    rw [holders]
    rw [(List.Perm.swap s.u.root s.u.cwd []).count_eq, List.count_cons_self] at two
    omega
  refine wp_mono (wp_iDeref_owed a named) ?_
  rintro _ u ⟨a, data'⟩
  refine ⟨a, ?_, ?_⟩
  · have second : (u.ptab s.cur).holds = (t.ptab s.cur).holds := data'.refsKept.ptab s.cur
    have first : (t.ptab s.cur).holds = (s.ptab s.cur).holds := data.refsKept.ptab s.cur
    rw [second, first]
    funext i
    exact Proc.holds_live live i
  · have first := data.filesKept.seats
    have second := data'.filesKept.seats
    exact ⟨second.cur.trans first.cur, fun p => (second.status p).trans (first.status p),
      fun p => (second.parent p).trans (first.parent p),
      fun p => (second.ignores p).trans (first.ignores p)⟩

theorem RefAcc.doexit (a : RefAcc s [] []) (hp : s.cur < PTABSIZE)
    (live : (s.ptab s.cur).status = .live) (sound : ¬ orphansLive s s.cur)
    (record : List UInt8) :
    wp Counted (doexit record) (fun _ t => RefAcc t [] []) s := by
  unfold Fuzix.doexit
  rw [wp_bind, wp_get, wp_ite]
  refine ⟨fun _ => Counted.panic (by decide), fun started => ?_⟩
  have closing : wp Counted (do
      sync
      Fuzix.closeAll UFTSIZE) (fun _ t => RefAcc t [] [] ∧ Seats s t) s := by
    refine wp_and_ok ?_ (((sitting_of_steady steady_sync).bind fun _ => sitting_closeAll UFTSIZE) s)
    rw [wp_bind]
    exact wp_mono (wp_held held_sync a) fun _ t a => RefAcc.closeAll UFTSIZE t a
  rw [wp_bind] at closing
  rw [wp_bind]
  refine wp_mono closing fun _ t closing => ?_
  rw [wp_bind]
  refine wp_mono closing ?_
  rintro _ u ⟨a, seats₁⟩
  have hp : u.cur < PTABSIZE := seats₁.cur ▸ hp
  have live : (u.ptab u.cur).status = .live := by
    rw [seats₁.status, seats₁.cur]
    exact live
  have dirs := wp_dropDirs a hp live
  rw [wp_bind] at dirs
  rw [wp_bind, wp_get, wp_bind]
  refine wp_mono dirs fun _ v dirs => ?_
  rw [wp_bind]
  refine wp_mono dirs ?_
  rintro _ w ⟨a, holds, seats₂⟩
  have seats := seats₁.trans seats₂
  have sound : ¬ orphansLive w w.cur := by
    rw [seats.cur]
    exact fun more => sound (seats.orphansLive more)
  rw [wp_bind]
  refine wp_mono (wp_orphan_held sound (seats.cur ▸ started)) ?_
  rintro _ x ⟨kept, same, _⟩
  rw [wp_bind]
  refine wp_mono (wp_and_ok (held_acctexit record x) (sitting_acctexit record x)) ?_
  rintro _ y ⟨kept', sits⟩
  have cur : y.cur = u.cur := (sits.cur.trans same).trans seats₂.cur
  refine wp_leave_paid (u := u.u) ((kept.trans kept').acc a) ?_ ?_
  · rw [cur]
    exact hp
  · rw [cur, kept'.ptab, kept.ptab]
    exact holds

/-! ## waitpid and acct -/

theorem RefAcc.reap (a : RefAcc s [] []) (p : Nat) :
    wp Counted (reap p) (fun _ t => RefAcc t [] []) s := by
  unfold Fuzix.reap
  rw [wp_bind, wp_get, wp_ite]
  refine ⟨fun gone => ?_, fun _ => a⟩
  rw [wp_bind, wp_modifyProc]
  refine a.reseat gone.1 (fun i => ?_) (a.waits p)
  rw [Proc.holds_dead (by rw [gone.2.1]; decide), Proc.holds_dead (q := { s.ptab p with
    status := .empty }) Status.noConfusion]

theorem RefAcc.oftDerefOption {k : Option Nat} (a : RefAcc s X [])
    (hk : ∀ j, k = some j → j < OFTSIZE) :
    wp Counted (oftDerefOption k) (fun _ t => RefAcc t X []) s := by
  cases k with
  | none => exact a
  | some k => exact a.oftDeref (hk k rfl)

theorem RefAcc.acctFile (a : RefAcc s [] []) (fd : Option Nat) :
    wp Counted (acctFile fd) (fun _ t => RefAcc t [] []) s := by
  cases fd with
  | none => exact a
  | some fd =>
    unfold Fuzix.acctFile
    rw [wp_bind]
    refine wp_mono (wp_and_ok (held_getinode fd s) (wp_getinode s fd)) ?_
    rintro found t ⟨kept, _, isOpen, _⟩
    have a := kept.acc a
    cases found with
    | none => exact a
    | some i =>
      have hk : t.u.files (fd % 256) < OFTSIZE := (isOpen i rfl).entry
      rw [wp_bind, wp_get, wp_ite]
      refine ⟨fun _ => a.refused EINVAL, fun _ => ?_⟩
      rw [wp_ite]
      refine ⟨fun _ => a.refused EROFS, fun _ => ?_⟩
      unfold oftOf
      simp only [wp_bind, wp_get, wp_ite, wp_throw, wp_pure]
      refine ⟨fun _ => by simp [Counted], fun inRange => ?_⟩
      have low : fd % 256 = fd := by
        have bound := Build.uftBound
        omega
      rw [low] at hk
      have finish : Held (do
          let _ ← getOft (t.u.files fd)
          modifyOft (t.u.files fd) (fun o => { o with refs := (o.refs + 1) % 256 })
          return some 0) :=
        (held_getOft _).bind fun _ => Keeps.bind (held_modifyOft _ fun _ => rfl) fun _ =>
          held_pure _
      have named : RefAcc { t with acctFh := some (t.u.files fd) } [] [] := by
        refine ⟨a.count, a.waits, ?_⟩
        rintro k same
        cases same
        exact hk
      have run := wp_held finish named
      simp only [wp_bind] at run
      exact run

theorem RefAcc.acctCall (a : RefAcc s [] []) (fd : Option Nat) :
    wp Counted (acct fd) (fun _ t => RefAcc t [] []) s := by
  unfold Fuzix.acct
  rw [wp_ite]
  refine ⟨fun _ => a.refused EINVAL, fun _ => ?_⟩
  rw [wp_bind]
  refine wp_esuper (fun t kept => kept.acc a) fun _ => ?_
  rw [if_neg Bool.false_ne_true, wp_bind, wp_get, wp_bind]
  exact wp_mono (a.oftDerefOption a.acctFh) fun _ t a => a.acctFile fd

end Procs

end Fuzix
