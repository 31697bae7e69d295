import Fuzix.FileCalls

/-!
# Open, transfer, leave

The accounting across the calls that create and end open files: `_open` with its
wait for a device, `_pipe`, the transfers, and the calls on processes.
-/

set_option linter.unusedSectionVars false

namespace Fuzix

open Wp Table Words

variable [Build]

/-! ## open -/

/-- An open in progress: the entry is reserved and the descriptor still free. -/
structure Opening (s : Kernel) (u k : Nat) : Prop where
  acc : OftAcc s [k]
  run : Running s
  entry : k < OFTSIZE
  one : (s.oftab k).refs = 1
  slot : u < UFTSIZE
  free : s.fds u = NO_FILE

theorem steady_openInode (name : Path) (flag mode : Nat) : Steady (openInode name flag mode) :=
  steady_walks.openInode name flag mode

section Open
variable {s t : Kernel} {u k flag : Nat}

theorem FilesKept.opening (h : FilesKept s t) (o : Opening s u k) : Opening t u k where
  acc := h.acc o.acc
  run := h.running o.run
  entry := o.entry
  one := by rw [h.oftab]; exact o.one
  slot := o.slot
  free := by rw [h.seated.fds]; exact o.free

/-- Freeing a descriptor that is free already. -/
theorem wp_setFree (free : s.fds u = NO_FILE) :
    wp Tame (setFile u NO_FILE) (fun _ t => FilesKept s t) s := by
  rw [setFile, wp_modifyU]
  refine ⟨rfl, rfl, rfl, fun p => put_fixed ?_, fun _ => rfl⟩
  have same : put s.u.files u NO_FILE = s.u.files := by
    rw [← free]
    exact put_self _ _
  simp only [Proc.desk, same]
  rfl

theorem wp_cantopen (acc : OftAcc s [k]) (entry : k < OFTSIZE) (free : s.fds u = NO_FILE) :
    wp Tame (cantopen u k) (fun _ t => OftAcc t []) s := by
  unfold cantopen
  rw [wp_bind]
  refine wp_mono (wp_oftDeref acc entry) ?_
  rintro _ t ⟨acc', seat⟩
  rw [← seat.fds] at free
  rw [wp_bind]
  exact wp_mono (wp_setFree free) fun _ v kept => kept.acc acc'

theorem Opening.cantopen (o : Opening s u k) :
    wp Tame (cantopen u k) (fun _ t => OftAcc t []) s :=
  wp_cantopen o.acc o.entry o.free

/-- The entry may be written as long as it is not in use. -/
theorem Opening.fill (o : Opening s u k) {e : Oft} (one : e.refs = 1) :
    Opening { s with oftab := put s.oftab k e } u k where
  acc := o.acc.fill o.entry o.one (List.mem_singleton.mpr rfl) one
  run := ⟨o.run.cur, o.run.live, o.run.awake⟩
  entry := o.entry
  one := by
    show (put s.oftab k e k).refs = 1
    rw [put_same]
    exact one
  slot := o.slot
  free := o.free

/-- One more user of an inode fits into its counts. -/
theorem users_succ (s : Kernel) (shut i : Nat) :
    (total OFTSIZE (uses s shut i) + 1) % 256 = total OFTSIZE (uses s shut i) + 1 := by
  have bound := total_uses_lt s shut i
  omega

theorem gain_use {i : Nat} (shut : Nat) (unused : holders s k = 0)
    (inode : (s.oftab k).inode = some i) :
    (if (s.oftab k).access.accmode ≠ shut then (total OFTSIZE (uses s shut i) + 1) % 256
      else total OFTSIZE (uses s shut i)) =
      total OFTSIZE (uses s shut i) + newUse s shut i k := by
  by_cases mode : (s.oftab k).access.accmode ≠ shut
  · have new : newUse s shut i k = 1 := if_pos ⟨unused, inode, mode⟩
    rw [if_pos mode, users_succ, new]
  · have new : newUse s shut i k = 0 := if_neg fun all => mode all.2.2
    rw [if_neg mode, new]
    rfl

/-- An entry that is filled in gets its descriptor and counts for its inode. -/
theorem OftAcc.installOn {X : List Nat} {i : Nat} (a : OftAcc s (k :: X)) (r : Running s)
    (entry : k < OFTSIZE) (one : (s.oftab k).refs = 1) (slot : u < UFTSIZE)
    (free : s.fds u = NO_FILE) (inode : (s.oftab k).inode = some i)
    {cloexec : Nat → Bool} {c : Cinode}
    (writers : c.writers = if (s.oftab k).access.accmode ≠ O_RDONLY
      then ((s.itab i).writers + 1) % 256 else (s.itab i).writers)
    (readers : c.readers = if (s.oftab k).access.accmode ≠ O_WRONLY
      then ((s.itab i).readers + 1) % 256 else (s.itab i).readers) :
    OftAcc { s with
      ptab := put s.ptab s.cur { s.ptab s.cur with
        u := { s.u with files := put s.u.files u k, cloexec := cloexec } }
      itab := put s.itab i c } X := by
  have set : (s.oftab k).inode ≠ none := by
    rw [inode]
    exact Option.some_ne_none i
  have unused : holders s k = 0 := by
    have sum := a.refs k entry
    rw [List.count_cons_self] at sum
    omega
  refine a.install (p := s.cur) (u := u) ?_ set (fun j => ?_) (fun j => ?_)
  · refine ⟨r.cur, r.live, r.awake, slot, free, entry, rfl, rfl, ?_, fun q other => ?_⟩
    · simp only [Kernel.desk, put_same]
      rfl
    · simp only [Kernel.desk, put_ne _ _ other]
  · show (put s.itab i c j).readers = _
    by_cases here : j = i
    · subst here
      rw [put_same, readers, a.readers j]
      exact gain_use O_WRONLY unused inode
    · rw [put_ne _ _ here, newUse_other inode here]
      rfl
  · show (put s.itab i c j).writers = _
    by_cases here : j = i
    · subst here
      rw [put_same, writers, a.writers j]
      exact gain_use O_RDONLY unused inode
    · rw [put_ne _ _ here, newUse_other inode here]
      rfl

theorem Opening.openDone {i : Nat} (o : Opening s u k) (inode : (s.oftab k).inode = some i) :
    wp Tame (openDone u k flag i) (fun _ t => OftAcc t []) s := by
  unfold Fuzix.openDone
  simp only [wp_bind, wp_modifyOft, wp_modifyU, wp_modifyInode, wp_pure]
  have o' := o.fill (e := { s.oftab k with ptr := 0, access := .ofFlag flag }) o.one
  refine o'.acc.installOn (i := i) o'.run o'.entry o'.one o'.slot o'.free ?_ ?_ ?_
  · simp only [put_same]
    exact inode
  · simp only [put_same]
    rfl
  · simp only [put_same]
    rfl

theorem Opening.rewindAll (o : Opening s u k) (i : Nat) :
    wp Tame (rewindAll i)
      (fun _ t => Opening t u k ∧ (t.oftab k).inode = (s.oftab k).inode) s := by
  have same : ∀ e : Oft, ∀ c d : Prop, ∀ [Decidable c] [Decidable d],
      let e' := if c then (if d then { e with ptr := 0 } else e) else e
      e'.refs = e.refs ∧ e'.inode = e.inode ∧ e'.access.accmode = e.access.accmode := by
    intro e c d _ _
    by_cases hc : c
    · by_cases hd : d
      · simp only [if_pos hc, if_pos hd, and_self]
      · simp only [if_pos hc, if_neg hd, and_self]
    · simp only [if_neg hc, and_self]
  unfold Fuzix.rewindAll
  rw [wp_modify]
  refine ⟨⟨o.acc.entries fun j => same _ _ _, ⟨o.run.cur, o.run.live, o.run.awake⟩, o.entry,
    (same _ _ _).1.trans o.one, o.slot, o.free⟩, (same _ _ _).2.1⟩

theorem Opening.openFinish (o : Opening s u k) :
    wp Tame (openFinish u k flag) (fun _ t => OftAcc t []) s := by
  unfold Fuzix.openFinish
  simp only [wp_bind, wp_get]
  split
  · exact Tame.null
  · rename_i i inode
    simp only [wp_ite, wp_bind]
    refine ⟨fun _ => ?_, fun _ => o.openDone inode⟩
    refine wp_mono (steady_of_quiet (quiet_fTrunc i) s) fun failed t kept => ?_
    refine ⟨fun _ => ?_, fun _ => ?_⟩
    · refine wp_mono (steady_iDeref i t) fun _ v kept' => ?_
      exact ((kept.trans kept').opening o).cantopen
    · have o' := kept.opening o
      rw [← kept.oftab] at inode
      refine wp_mono (o'.rewindAll i) ?_
      rintro _ v ⟨o'', same⟩
      exact o''.openDone (same.trans inode)

/-- An open whose entry names an inode. -/
def OpeningOn (s : Kernel) (u k : Nat) : Prop := Opening s u k ∧ (s.oftab k).inode ≠ none

theorem FilesKept.openingOn (h : FilesKept s t) (o : OpeningOn s u k) : OpeningOn t u k :=
  ⟨h.opening o.1, by rw [h.oftab]; exact o.2⟩

theorem steady_dOpen (da i : Nat) (drv : Driver) : Steady (dOpen da i drv) := by
  refine Keeps.ite ((steady_setError _).bind fun _ => steady_pure _) ?_
  cases drv with
  | refuses e => exact (steady_setError e).bind fun _ => steady_pure _
  | waits => exact steady_pure _
  | opens ctty =>
    refine Keeps.bind (steady_onlyIf ?_) fun _ => steady_pure _
    exact steady_modifyU fun _ => rfl

theorem OpeningOn.devOpeni (o : OpeningOn s u k) (drv : Driver) :
    wp Tame (devOpeni k drv) (fun _ t => OpeningOn t u k) s := by
  unfold Fuzix.devOpeni
  simp only [wp_bind, wp_get]
  split
  · exact Tame.null
  · rename_i i inode
    rw [wp_ite]
    refine ⟨fun _ => ?_, fun _ => ?_⟩
    · split
      · rw [wp_bind]
        exact wp_mono (steady_setError ENODEV s) fun _ t kept => kept.openingOn o
      · rename_i tty _
        rw [wp_bind]
        refine wp_mono (steady_iDeref i s) fun _ t kept => ?_
        simp only [wp_bind, wp_modifyOft, wp_get]
        have o' := (kept.opening o.1).fill
          (e := { t.oftab k with inode := some tty }) (kept.opening o.1).one
        have on : OpeningOn { t with
            oftab := put t.oftab k { t.oftab k with inode := some tty } } u k := by
          refine ⟨o', ?_⟩
          show (put t.oftab k _ k).inode ≠ none
          rw [put_same]
          exact Option.some_ne_none tty
        refine wp_mono (steady_iRef tty _) fun _ v kept' => ?_
        exact wp_mono (steady_dOpen _ tty drv v) fun _ w kept'' =>
          (kept'.trans kept'').openingOn on
    · exact wp_mono (steady_dOpen _ i drv s) fun _ t kept => kept.openingOn o

/-- The process waits for its device with the entry booked. -/
theorem OpeningOn.wait (o : OpeningOn s u k) (flag : Nat) :
    wp Tame (setWait (some (.opening u k flag))) (fun _ t => OftAcc t []) s := by
  obtain ⟨o, set⟩ := o
  unfold setWait
  simp only [wp_bind, wp_get, wp_modifyProc]
  have asleep : Booked s { s with ptab := put s.ptab s.cur { s.ptab s.cur with
      wait := some (.opening u k flag) } } s.cur u k := by
    have live : (s.ptab s.cur).status = .live := o.run.live
    have awake : (s.ptab s.cur).wait = none := o.run.awake
    refine ⟨o.run.cur, ?_, ?_, ⟨?_, ?_⟩, live, ?_, rfl, rfl, rfl, fun q other => ?_⟩
    · simp [Desk.booking, Kernel.desk, Proc.desk, awake]
    · simp [Desk.booking, Kernel.desk, Proc.desk, live]
    · simp [Desk.transfer, Kernel.desk, Proc.desk, live]
    · simp [Desk.transfer, Kernel.desk, Proc.desk, awake]
    · simp only [Kernel.desk, put_same]
      rfl
    · simp only [Kernel.desk, put_ne _ _ other]
  exact o.acc.book asleep o.slot o.entry o.free o.one set

theorem Opening.openEntry (o : Opening s u k) (ino : Nat) (drv : Driver) :
    wp Tame (openEntry u k flag ino drv) (fun _ t => OftAcc t []) s := by
  unfold Fuzix.openEntry
  simp only [wp_bind, wp_modifyOft, wp_get]
  have o' := o.fill (e := { s.oftab k with inode := some ino }) o.one
  split
  · rw [wp_bind]
    exact wp_mono (steady_setError _ _) fun _ t kept => (kept.opening o').cantopen
  · rw [wp_ite]
    refine ⟨fun _ => ?_, fun _ => o'.openFinish⟩
    have on : OpeningOn { s with
        oftab := put s.oftab k { s.oftab k with inode := some ino } } u k := by
      refine ⟨o', ?_⟩
      show (put s.oftab k _ k).inode ≠ none
      rw [put_same]
      exact Option.some_ne_none ino
    rw [wp_bind]
    refine wp_mono (on.devOpeni drv) fun answer t on' => ?_
    cases answer with
    | no => exact on'.1.cantopen
    | yes => exact on'.1.openFinish
    | waits =>
      rw [wp_bind]
      exact on'.wait flag

theorem wp_open (a : OftAcc s []) (r : Running s) (name : Path) (flag mode : Nat)
    (drv : Driver) : wp Tame (open' name flag mode drv) (fun _ t => OftAcc t []) s := by
  unfold open'
  rw [wp_ite]
  refine ⟨fun _ => ?_, fun _ => ?_⟩
  · rw [wp_bind]
    exact wp_mono (steady_setError EINVAL s) fun _ t kept => kept.acc a
  · rw [wp_bind]
    refine wp_mono (wp_ufAllocN s 0) ?_
    rintro slot t ⟨kept, room⟩
    cases slot with
    | none => exact kept.acc a
    | some u =>
      obtain ⟨hu, free⟩ := room u rfl
      rw [wp_bind]
      refine wp_mono (wp_oftAlloc (kept.acc a)) ?_
      rintro entry v ⟨seat, full, reserved⟩
      rw [← seat.fds] at free
      cases entry with
      | none =>
        rw [wp_bind]
        exact wp_mono (wp_setFree free) fun _ w kept' => kept'.acc (full rfl)
      | some k =>
        obtain ⟨hk, acc, one⟩ := reserved k rfl
        have o : Opening v u k := ⟨acc, seat.running (kept.running r), hk, one, hu, free⟩
        rw [wp_bind]
        refine wp_mono (steady_openInode name flag mode v) fun found w kept' => ?_
        cases found with
        | none => exact (kept'.opening o).cantopen
        | some ino => exact (kept'.opening o).openEntry ino drv

end Open

/-! ## read and write -/

/-- A transfer of the running process on an open descriptor. -/
structure Moving (s : Kernel) (fd : Nat) : Prop where
  acc : OftAcc s []
  run : Running s
  slot : fd < UFTSIZE
  isOpen : s.fds fd ≠ NO_FILE

section Transfer
variable {s t : Kernel} {fd : Nat}

theorem FilesKept.moving (h : FilesKept s t) (m : Moving s fd) : Moving t fd where
  acc := h.acc m.acc
  run := h.running m.run
  slot := m.slot
  isOpen := by rw [h.seated.fds]; exact m.isOpen

theorem Moving.endXfer (m : Moving s fd) :
    wp Tame (endXfer fd) (fun _ t => OftAcc t []) s := by
  have entry := m.acc.entry_lt m.run m.slot m.isOpen
  unfold Fuzix.endXfer updoff
  simp only [wp_bind]
  refine wp_oftOf m.slot ?_
  simp only [wp_get, wp_ite, wp_modifyOft, wp_pure]
  exact ⟨fun out => absurd entry (Nat.not_lt.mpr out), fun _ => m.acc.touch _ rfl rfl rfl⟩

/-- The process waits for the other end of a pipe. -/
theorem Moving.wait (m : Moving s fd) {w : Wait}
    (shape : (∃ i access, w = .reading fd i access) ∨
      ∃ i access src, w = .writing fd i access src) :
    wp Tame (setWait (some w)) (fun _ t => OftAcc t []) s := by
  have live : (s.ptab s.cur).status = .live := m.run.live
  have awake : (s.ptab s.cur).wait = none := m.run.awake
  unfold setWait
  simp only [wp_bind, wp_get, wp_modifyProc]
  have mine : ({ s.ptab s.cur with wait := some w } : Proc).desk.booking = none ∧
      ({ s.ptab s.cur with wait := some w } : Proc).desk.transfer = some fd := by
    rcases shape with ⟨i, access, rfl⟩ | ⟨i, access, src, rfl⟩
    · simp [Desk.booking, Desk.transfer, Proc.desk, live]
    · simp [Desk.booking, Desk.transfer, Proc.desk, live]
  refine m.acc.reseat rfl rfl rfl (fun q _ k _ => ?_) (fun q _ hq => ?_) (fun q _ => ?_)
    (fun q fd' hq found => ?_)
  · by_cases here : q = s.cur
    · subst here
      simp only [Kernel.desk, put_same]
      rfl
    · simp only [Kernel.desk, put_ne _ _ here]
  · by_cases here : q = s.cur
    · subst here
      simp only [Kernel.desk, put_same]
      exact ⟨live, rfl⟩
    · simp only [Kernel.desk, put_ne _ _ here] at hq ⊢
      exact ⟨hq, trivial⟩
  · by_cases here : q = s.cur
    · subst here
      simp only [Kernel.desk, put_same, mine.1]
      simp [Desk.booking, Proc.desk, awake]
    · simp only [Kernel.desk, put_ne _ _ here]
  · by_cases here : q = s.cur
    · subst here
      simp only [Kernel.desk, put_same, mine.2, Option.some.injEq] at found ⊢
      subst found
      exact ⟨m.slot, m.isOpen⟩
    · simp only [Kernel.desk, put_ne _ _ here] at found ⊢
      exact m.acc.moving q fd' hq found

theorem Moving.readFrom (m : Moving s fd) (i : Nat) (access : Access) :
    wp Tame (readFrom fd i access) (fun _ t => OftAcc t []) s := by
  unfold Fuzix.readFrom
  rw [wp_bind]
  refine wp_mono (steady_of_quiet (quiet_readi i _) s) fun answer t kept => ?_
  cases answer with
  | sleep =>
    rw [wp_bind]
    exact (kept.moving m).wait (Or.inl ⟨i, access, rfl⟩)
  | done data => exact (kept.moving m).endXfer

theorem Moving.writeTo (m : Moving s fd) (i : Nat) (access : Access) (src : List UInt8) :
    wp Tame (writeTo fd i access src) (fun _ t => OftAcc t []) s := by
  unfold Fuzix.writeTo
  rw [wp_bind]
  refine wp_mono (steady_of_quiet (quiet_writei i _ _) s) fun answer t kept => ?_
  cases answer with
  | sleep =>
    rw [wp_bind]
    exact (kept.moving m).wait (Or.inr ⟨i, access, src, rfl⟩)
  | done data => exact (kept.moving m).endXfer

theorem wp_rwsetup (a : OftAcc s []) (r : Running s) (fits : Fits s fd) (isRead : Bool)
    (nbytes : Nat) :
    wp Tame (rwsetup isRead fd nbytes)
      (fun found t => OftAcc t [] ∧ (found ≠ none → Moving t fd)) s := by
  unfold rwsetup
  rw [wp_bind]
  have counted : Steady (modifyU fun u => { u with count := nbytes }) :=
    steady_modifyU fun _ => rfl
  refine wp_mono (counted s) fun _ t kept => ?_
  rw [wp_bind]
  refine wp_mono (wp_getinode t fd) ?_
  rintro found v ⟨kept', opened, _⟩
  have all := kept.trans kept'
  cases found with
  | none => exact ⟨all.acc a, fun no => absurd rfl no⟩
  | some i =>
    obtain ⟨slot, o⟩ := fits.slot all.seated (opened i rfl)
    rw [wp_bind]
    refine wp_oftOf slot ?_
    rw [wp_bind]
    refine wp_getOft o.entry ?_
    rw [wp_ite]
    refine ⟨fun _ => ?_, fun _ => ?_⟩
    · rw [wp_bind]
      exact wp_mono (steady_setError EBADF v) fun _ w kept'' =>
        ⟨kept''.acc (all.acc a), fun no => absurd rfl no⟩
    · rw [wp_bind]
      refine wp_mono (steady_setftime i _ v) fun _ w kept'' => ?_
      have m : Moving w fd :=
        kept''.moving ⟨all.acc a, all.running r, slot, o.isOpen⟩
      simp only [wp_bind, wp_get, wp_modifyOft]
      have touched := m.acc.touch (v.fds fd) (o := { w.oftab (v.fds fd) with
        ptr := if fmt (w.itab i).node.mode = F_REG ∧ isRead = false ∧
            (v.oftab (v.fds fd)).access.append
          then (w.itab i).node.size else (v.oftab (v.fds fd)).ptr }) rfl rfl rfl
      have m' : Moving { w with oftab := put w.oftab (v.fds fd) { w.oftab (v.fds fd) with
          ptr := if fmt (w.itab i).node.mode = F_REG ∧ isRead = false ∧
              (v.oftab (v.fds fd)).access.append
            then (w.itab i).node.size else (v.oftab (v.fds fd)).ptr } } fd :=
        ⟨touched, ⟨m.run.cur, m.run.live, m.run.awake⟩, m.slot, m.isOpen⟩
      refine wp_mono (steady_modifyU ?_ _) fun _ x (last : FilesKept _ x) =>
        ⟨(last.moving m').acc, fun _ => last.moving m'⟩
      exact fun _ => rfl

/-- A transfer that gets past the checks of its arguments. -/
def movesBytes (nbytes : Nat) (mapped : Bool) : Prop :=
  nbytes ≠ 0 ∧ negative nbytes = false ∧ mapped = true

theorem wp_read (a : OftAcc s []) (r : Running s) (nbytes : Nat) (mapped : Bool)
    (fits : movesBytes nbytes mapped → Fits s fd) :
    wp Tame (read fd nbytes mapped) (fun _ t => OftAcc t []) s := by
  unfold read
  simp only [wp_ite, wp_bind, wp_pure]
  refine ⟨fun _ => a, fun some => ⟨fun _ => ?_, fun small => ⟨fun _ => ?_, fun valid => ?_⟩⟩⟩
  · exact wp_mono (steady_setError EINVAL s) fun _ t kept => kept.acc a
  · exact wp_mono (steady_setError EFAULT s) fun _ t kept => kept.acc a
  · have fits := fits ⟨some, Bool.eq_false_iff.mpr small, Bool.eq_true_of_not_eq_false valid⟩
    refine wp_mono (wp_rwsetup a r fits true nbytes) ?_
    rintro found t ⟨acc, moving⟩
    cases found with
    | none => exact acc
    | some p =>
      obtain ⟨i, access⟩ := p
      exact (moving (Option.some_ne_none _)).readFrom i access

theorem wp_write (a : OftAcc s []) (r : Running s) (src : List UInt8) (mapped : Bool)
    (fits : movesBytes src.length mapped → Fits s fd) :
    wp Tame (write fd src mapped) (fun _ t => OftAcc t []) s := by
  unfold write
  simp only [wp_ite, wp_bind, wp_pure]
  refine ⟨fun _ => a, fun some => ⟨fun _ => ?_, fun small => ⟨fun _ => ?_, fun valid => ?_⟩⟩⟩
  · exact wp_mono (steady_setError EINVAL s) fun _ t kept => kept.acc a
  · exact wp_mono (steady_setError EFAULT s) fun _ t kept => kept.acc a
  · have fits := fits ⟨some, Bool.eq_false_iff.mpr small, Bool.eq_true_of_not_eq_false valid⟩
    refine wp_mono (wp_rwsetup a r fits false src.length) ?_
    rintro found t ⟨acc, moving⟩
    cases found with
    | none => exact acc
    | some p =>
      obtain ⟨i, access⟩ := p
      exact (moving (Option.some_ne_none _)).writeTo i access src

end Transfer

/-! ## pipe -/

/-- The state as if descriptor `u` of the running process were free. -/
def Kernel.hide (s : Kernel) (u : Nat) : Kernel :=
  { s with ptab := put s.ptab s.cur { s.ptab s.cur with
      u := { s.u with files := put s.u.files u NO_FILE } } }

/-- `_pipe` has filled in its first descriptor before the entry has an inode. -/
structure Piping (s : Kernel) (u₁ k₁ : Nat) (X : List Nat) : Prop where
  acc : OftAcc (s.hide u₁) (X ++ [k₁])
  run : Running s
  slot : u₁ < UFTSIZE
  entry : k₁ < OFTSIZE
  names : s.fds u₁ = k₁
  one : (s.oftab k₁).refs = 1
  blank : (s.oftab k₁).inode = none

/-- And it has a second entry and a second free descriptor. -/
structure PipeSlots (s : Kernel) (u₁ k₁ u₂ k₂ : Nat) : Prop extends Piping s u₁ k₁ [k₂] where
  slot₂ : u₂ < UFTSIZE
  entry₂ : k₂ < OFTSIZE
  free₂ : s.fds u₂ = NO_FILE
  one₂ : (s.oftab k₂).refs = 1
  blank₂ : (s.oftab k₂).inode = none

section Pipe
variable {s t : Kernel} {u₁ k₁ u₂ k₂ : Nat} {X : List Nat}

theorem hide_desk (s : Kernel) (u : Nat) :
    (s.hide u).desk s.cur = { s.desk s.cur with files := put s.fds u NO_FILE } := by
  simp only [Kernel.hide, Kernel.desk, put_same]
  rfl

theorem hide_desk_ne (s : Kernel) (u : Nat) {p : Nat} (other : p ≠ s.cur) :
    (s.hide u).desk p = s.desk p := by
  simp only [Kernel.hide, Kernel.desk, put_ne _ _ other]

theorem FilesKept.hide (h : FilesKept s t) (u : Nat) : FilesKept (s.hide u) (t.hide u) where
  oftab := h.oftab
  acctFh := h.acctFh
  cur := h.cur
  itab := h.itab
  ptab := fun p => by
    show (t.hide u).desk p = (s.hide u).desk p
    by_cases here : p = s.cur
    · subst here
      have after := hide_desk t u
      rw [h.cur, h.desk, h.seated.fds] at after
      rw [after, hide_desk]
    · rw [hide_desk_ne s u here, hide_desk_ne t u (h.cur ▸ here), h.desk]

theorem FilesKept.piping (h : FilesKept s t) (p : Piping s u₁ k₁ X) : Piping t u₁ k₁ X where
  acc := (h.hide u₁).acc p.acc
  run := h.running p.run
  slot := p.slot
  entry := p.entry
  names := by rw [h.seated.fds]; exact p.names
  one := by rw [h.oftab]; exact p.one
  blank := by rw [h.oftab]; exact p.blank

theorem FilesKept.pipeSlots (h : FilesKept s t) (p : PipeSlots s u₁ k₁ u₂ k₂) :
    PipeSlots t u₁ k₁ u₂ k₂ where
  toPiping := h.piping p.toPiping
  slot₂ := p.slot₂
  entry₂ := p.entry₂
  free₂ := by rw [h.seated.fds]; exact p.free₂
  one₂ := by rw [h.oftab]; exact p.one₂
  blank₂ := by rw [h.oftab]; exact p.blank₂

/-- A blank entry is given back. -/
theorem OftAcc.drop_blank {k : Nat} (a : OftAcc s (k :: X)) (hk : k < OFTSIZE)
    (one : (s.oftab k).refs = 1) (blank : (s.oftab k).inode = none) :
    OftAcc { s with
      oftab := put s.oftab k { s.oftab k with refs := ((s.oftab k).refs + 255) % 256 } } X := by
  refine a.drop hk ?_ ?_ rfl
  · show ((s.oftab k).refs + 255) % 256 = _
    omega
  · rw [ite_eq_left_iff.mpr fun _ => blank]
    exact blank

/-- `_pipe` gives up with its first entry only. -/
theorem Piping.giveUp (p : Piping s u₁ k₁ []) {α : Type} (a : α) {Q : α → Kernel → Prop}
    (post : ∀ t, OftAcc t [] → Q a t) :
    wp Tame (do
      oftDeref k₁
      setFile u₁ NO_FILE
      return a) Q s := by
  rw [wp_bind]
  refine wp_oftDeref_plain (Or.inr p.blank) ?_
  rw [wp_bind, setFile, wp_modifyU, wp_pure]
  exact post _ (p.acc.drop_blank p.entry p.one p.blank)

/-- Hiding a descriptor that was just filled in gives the state before. -/
theorem FilesKept.of_hide {u k : Nat} (oftab : t.oftab = s.oftab) (acctFh : t.acctFh = s.acctFh)
    (cur : t.cur = s.cur) (itab : t.itab = s.itab) (free : s.fds u = NO_FILE)
    (mine : t.desk s.cur = { s.desk s.cur with files := put s.fds u k })
    (others : ∀ p, p ≠ s.cur → t.desk p = s.desk p) : FilesKept s (t.hide u) where
  oftab := oftab
  acctFh := acctFh
  cur := cur
  itab := fun i => by
    show (t.itab i).users = (s.itab i).users
    rw [itab]
  ptab := fun p => by
    show (t.hide u).desk p = s.desk p
    by_cases here : p = s.cur
    · subst here
      have hidden := hide_desk t u
      rw [Kernel.fds, cur, mine] at hidden
      simp only [put_put] at hidden
      rw [hidden, ← free, put_self]
      rfl
    · rw [hide_desk_ne t u (cur ▸ here), others p here]

/-- The first descriptor is filled in. -/
theorem OftAcc.piping (a : OftAcc s []) (r : Running s) (slot : u₁ < UFTSIZE)
    (free : s.fds u₁ = NO_FILE) (entry : k₁ < OFTSIZE) (idle : (s.oftab k₁).refs = 0) :
    Piping { s with
      oftab := put s.oftab k₁ { s.oftab k₁ with refs := 1, inode := none }
      ptab := put s.ptab s.cur { s.ptab s.cur with
        u := { s.u with files := put s.u.files u₁ k₁ } } } u₁ k₁ [] := by
  have mine : (put s.ptab s.cur { s.ptab s.cur with
      u := { s.u with files := put s.u.files u₁ k₁ } } s.cur).desk =
      { s.desk s.cur with files := put s.fds u₁ k₁ } := by
    rw [put_same]
    rfl
  constructor
  · have reserved := a.reserve entry idle (o := { s.oftab k₁ with refs := 1, inode := none }) rfl
    refine FilesKept.acc ?_ reserved
    refine FilesKept.of_hide rfl rfl rfl rfl free mine fun p other => ?_
    simp only [Kernel.desk, put_ne _ _ other]
  · exact ⟨r.cur, by rw [Kernel.desk, mine]; exact r.live, by rw [Kernel.desk, mine]; exact r.awake⟩
  · exact slot
  · exact entry
  · rw [Kernel.fds, Kernel.desk, mine]
    exact put_same _ _ _
  · simp only [put_same]
  · simp only [put_same]

theorem Piping.second (p : Piping s u₁ k₁ []) (slot₂ : u₂ < UFTSIZE)
    (free₂ : s.fds u₂ = NO_FILE) (entry₂ : k₂ < OFTSIZE) (idle₂ : (s.oftab k₂).refs = 0) :
    PipeSlots { s with
      oftab := put s.oftab k₂ { s.oftab k₂ with refs := 1, inode := none } } u₁ k₁ u₂ k₂ := by
  have distinct : k₁ ≠ k₂ := by
    rintro rfl
    have one := p.one
    omega
  refine ⟨⟨?_, ⟨p.run.cur, p.run.live, p.run.awake⟩, p.slot, p.entry, p.names, ?_, ?_⟩,
    slot₂, entry₂, free₂, ?_, ?_⟩
  · exact p.acc.reserve (s := s.hide u₁) entry₂ idle₂ rfl
  · simp only [put_ne _ _ distinct]
    exact p.one
  · simp only [put_ne _ _ distinct]
    exact p.blank
  · simp only [put_same]
  · simp only [put_same]

theorem wp_pipeSlots (a : OftAcc s []) (r : Running s) :
    wp Tame pipeSlots (fun found t => match found with
      | none => OftAcc t []
      | some (u₁, k₁, u₂, k₂) => PipeSlots t u₁ k₁ u₂ k₂) s := by
  unfold pipeSlots
  rw [wp_bind]
  refine wp_mono (wp_ufAllocN s 0) ?_
  rintro first t ⟨kept, room⟩
  have a' := kept.acc a
  have r' := kept.running r
  cases first with
  | none => exact a'
  | some u₁ =>
    obtain ⟨slot, free⟩ := room u₁ rfl
    rw [wp_bind]
    refine wp_mono (wp_oftAlloc_entry t) ?_
    rintro entry v ⟨full, reserved⟩
    cases entry with
    | none => exact (full rfl).acc a'
    | some k₁ =>
      obtain ⟨entry, idle, rfl⟩ := reserved k₁ rfl
      rw [wp_bind, setFile, wp_modifyU]
      have p := a'.piping r' slot free entry idle
      rw [wp_bind]
      refine wp_mono (wp_ufAllocN _ 0) ?_
      rintro second v ⟨kept', room'⟩
      have p' := kept'.piping p
      cases second with
      | none => exact p'.giveUp none fun _ acc => acc
      | some u₂ =>
        obtain ⟨slot₂, free₂⟩ := room' u₂ rfl
        rw [wp_bind]
        refine wp_mono (wp_oftAlloc_entry v) ?_
        rintro entry w ⟨full', reserved'⟩
        cases entry with
        | none => exact ((full' rfl).piping p').giveUp none fun _ acc => acc
        | some k₂ =>
          obtain ⟨entry₂, idle₂, rfl⟩ := reserved' k₂ rfl
          exact p'.second slot₂ free₂ entry₂ idle₂

/-- The two entries as `_pipe` fills them in. -/
def pipeEnd (e : Oft) (ino flag : Nat) : Oft :=
  { e with ptr := 0, inode := some ino, access := .ofFlag flag }

theorem PipeSlots.distinct (p : PipeSlots s u₁ k₁ u₂ k₂) : k₂ ≠ k₁ := by
  rintro rfl
  have sum := p.acc.refs k₂ p.entry
  have one : ((s.hide u₁).oftab k₂).refs = 1 := p.one
  rw [one] at sum
  simp only [List.cons_append, List.nil_append, List.count_cons_self, List.count_nil] at sum
  omega

theorem PipeSlots.slots_ne (p : PipeSlots s u₁ k₁ u₂ k₂) : u₁ ≠ u₂ := by
  rintro rfl
  have names := p.names
  have entry := p.entry
  have bound := oftsize_lt_noFile
  rw [p.free₂] at names
  omega

/-- The entries are filled in, but no descriptor names them yet. -/
theorem PipeSlots.filled (p : PipeSlots s u₁ k₁ u₂ k₂) (ino : Nat) :
    ∃ v, OftAcc v [k₂, k₁] ∧
      v.oftab = put (put s.oftab k₁ (pipeEnd (s.oftab k₁) ino O_RDONLY)) k₂
        (pipeEnd (s.oftab k₂) ino O_WRONLY) ∧
      v.acctFh = s.acctFh ∧ v.itab = s.itab ∧
      v.desk s.cur = { s.desk s.cur with files := put s.fds u₁ NO_FILE } ∧
      ∀ q, q ≠ s.cur → v.desk q = s.desk q := by
  have first := p.acc.fill (s := s.hide u₁) p.entry p.one
    (List.mem_append_right _ (List.mem_singleton.mpr rfl))
    (o := pipeEnd (s.oftab k₁) ino O_RDONLY) p.one
  have one : (put s.oftab k₁ (pipeEnd (s.oftab k₁) ino O_RDONLY) k₂).refs = 1 := by
    rw [put_ne _ _ p.distinct]
    exact p.one₂
  have second := first.fill p.entry₂ one List.mem_cons_self
    (o := pipeEnd (s.oftab k₂) ino O_WRONLY) p.one₂
  exact ⟨_, second, rfl, rfl, rfl, hide_desk s u₁, fun q other => hide_desk_ne s u₁ other⟩

theorem newUse_held {v : Kernel} {ino k : Nat} (shut i : Nat) (a : OftAcc v X) (held : k ∈ X)
    (hk : k < OFTSIZE) (one : (v.oftab k).refs = 1) (inode : (v.oftab k).inode = some ino) :
    newUse v shut i k = if i = ino ∧ (v.oftab k).access.accmode ≠ shut then 1 else 0 := by
  have sum := a.refs k hk
  have count := List.count_pos_iff.mpr held
  have unused : holders v k = 0 := by omega
  by_cases here : i = ino ∧ (v.oftab k).access.accmode ≠ shut
  · rw [if_pos here]
    exact if_pos ⟨unused, here.1 ▸ inode, here.2⟩
  · rw [if_neg here]
    refine if_neg fun all => here ⟨?_, all.2.2⟩
    have same := all.2.1
    rw [inode] at same
    exact (Option.some.inj same).symm

/-- Both ends get their descriptors, and the inode a reader and a writer. -/
theorem PipeSlots.opened (p : PipeSlots s u₁ k₁ u₂ k₂) (ino : Nat)
    (oftab : t.oftab = put (put s.oftab k₁ (pipeEnd (s.oftab k₁) ino O_RDONLY)) k₂
      (pipeEnd (s.oftab k₂) ino O_WRONLY))
    (acctFh : t.acctFh = s.acctFh)
    (mine : t.desk s.cur = { s.desk s.cur with files := put s.fds u₂ k₂ })
    (others : ∀ q, q ≠ s.cur → t.desk q = s.desk q)
    (readers : ∀ i, (t.itab i).readers =
      if i = ino then ((s.itab i).readers + 1) % 256 else (s.itab i).readers)
    (writers : ∀ i, (t.itab i).writers =
      if i = ino then ((s.itab i).writers + 1) % 256 else (s.itab i).writers) :
    OftAcc t [] := by
  obtain ⟨v, full, voftab, vacct, vitab, vmine, vothers⟩ := p.filled ino
  have read : t.oftab k₁ = pipeEnd (s.oftab k₁) ino O_RDONLY := by
    rw [oftab, put_ne _ _ p.distinct.symm, put_same]
  have write : t.oftab k₂ = pipeEnd (s.oftab k₂) ino O_WRONLY := by
    rw [oftab, put_same]
  have same : v.oftab = t.oftab := voftab.trans oftab.symm
  have use₂ : ∀ shut i, newUse v shut i k₂ = if i = ino ∧ O_WRONLY ≠ shut then 1 else 0 := by
    intro shut i
    have entry : v.oftab k₂ = pipeEnd (s.oftab k₂) ino O_WRONLY := same ▸ write
    have use := newUse_held shut i full List.mem_cons_self p.entry₂
      (entry ▸ p.one₂) (show (v.oftab k₂).inode = some ino by rw [entry]; rfl)
    rwa [entry] at use
  -- the read end is installed last, so it is hidden in between
  obtain ⟨m, moftab, macct, mmine, mothers, mreaders, mwriters⟩ : ∃ m : Kernel,
      m.oftab = t.oftab ∧ m.acctFh = s.acctFh ∧
      m.desk s.cur = { s.desk s.cur with files := put (put s.fds u₁ NO_FILE) u₂ k₂ } ∧
      (∀ q, q ≠ s.cur → m.desk q = s.desk q) ∧
      (∀ i, (m.itab i).readers = (s.itab i).readers) ∧
      (∀ i, (m.itab i).writers = (t.itab i).writers) := by
    refine ⟨{ t with
      itab := fun i => { t.itab i with readers := (s.itab i).readers }
      ptab := put t.ptab s.cur { t.ptab s.cur with
        u := { (t.ptab s.cur).u with files := put (put s.fds u₁ NO_FILE) u₂ k₂ } } },
      rfl, acctFh, ?_, fun q other => ?_, fun _ => rfl, fun _ => rfl⟩
    · have desk : (t.ptab s.cur).desk = { s.desk s.cur with files := put s.fds u₂ k₂ } := mine
      simp only [Proc.desk, Desk.mk.injEq] at desk
      simp only [Kernel.desk, put_same, Proc.desk, desk]
    · simp only [Kernel.desk, put_ne _ _ other]
      exact others q other
  have live : (s.desk s.cur).status = .live := p.run.live
  have awake : (s.desk s.cur).wait = none := p.run.awake
  have middle : OftAcc m [k₁] := by
    refine full.install (p := s.cur) (u := u₂) ?_ ?_ (fun i => ?_) (fun i => ?_)
    · refine ⟨p.run.cur, ?_, ?_, p.slot₂, ?_, p.entry₂, moftab.trans same.symm,
        macct.trans vacct.symm, ?_, fun q other => (mothers q other).trans (vothers q other).symm⟩
      · rw [vmine]
        exact live
      · rw [vmine]
        exact awake
      · rw [vmine]
        exact (put_ne _ _ p.slots_ne.symm).trans p.free₂
      · rw [mmine, vmine]
    · rw [same, write]
      exact Option.some_ne_none ino
    · rw [mreaders, vitab, use₂, if_neg fun all => all.2 rfl]
      rfl
    · have fits := full.writers i
      have bound := users_succ v O_RDONLY i
      rw [vitab, writersOf] at fits
      rw [mwriters, writers, vitab, use₂]
      by_cases here : i = ino
      · rw [if_pos here, if_pos ⟨here, by decide⟩, fits]
        exact bound
      · rw [if_neg here, if_neg fun all => here all.1]
        rfl
  have use₁ : ∀ shut i, newUse m shut i k₁ = if i = ino ∧ O_RDONLY ≠ shut then 1 else 0 := by
    intro shut i
    have entry : m.oftab k₁ = pipeEnd (s.oftab k₁) ino O_RDONLY := moftab ▸ read
    have use := newUse_held shut i middle (List.mem_singleton.mpr rfl) p.entry
      (entry ▸ p.one) (show (m.oftab k₁).inode = some ino by rw [entry]; rfl)
    rwa [entry] at use
  refine middle.install (p := s.cur) (u := u₁) ?_ ?_ (fun i => ?_) (fun i => ?_)
  · refine ⟨p.run.cur, ?_, ?_, p.slot, ?_, p.entry, moftab.symm,
      acctFh.trans macct.symm, ?_, fun q other => (others q other).trans (mothers q other).symm⟩
    · rw [mmine]
      exact live
    · rw [mmine]
      exact awake
    · rw [mmine]
      exact (put_ne _ _ p.slots_ne).trans (put_same _ _ _)
    · rw [mmine, mine]
      simp only [put_comm _ _ _ p.slots_ne, put_put]
      rw [put_comm _ _ _ p.slots_ne.symm, ← p.names, put_self]
  · rw [moftab, read]
    exact Option.some_ne_none ino
  · have fits := middle.readers i
    have bound := users_succ m O_WRONLY i
    rw [mreaders, readersOf] at fits
    rw [readers, mreaders, use₁]
    by_cases here : i = ino
    · rw [if_pos here, if_pos ⟨here, by decide⟩, fits]
      exact bound
    · rw [if_neg here, if_neg fun all => here all.1]
      rfl
  · rw [mwriters, use₁, if_neg fun all => all.2 rfl]
    rfl

theorem steady_pipeInode : Steady pipeInode :=
  steady_get.bind fun _ => steady_iOpen _ _

/-- The pipe's inode is marked read only: the second entry is never given back. -/
def pipeReadOnly (s : Kernel) : Prop :=
  ∃ slots t ino v, pipeSlots s = .ok (some slots, t) ∧ pipeInode t = .ok (some ino, v) ∧
    (v.itab ino).rdonly = true

theorem PipeSlots.giveUp (p : PipeSlots s u₁ k₁ u₂ k₂) {α : Type} (a : α)
    {Q : α → Kernel → Prop} (post : ∀ t, OftAcc t [] → Q a t) :
    wp Tame (do
      oftDeref k₂
      oftDeref k₁
      setFile u₁ NO_FILE
      return a) Q s := by
  rw [wp_bind]
  refine wp_oftDeref_plain (Or.inr p.blank₂) ?_
  have left : Piping { s with oftab := put s.oftab k₂ { s.oftab k₂ with
      refs := ((s.oftab k₂).refs + 255) % 256 } } u₁ k₁ [] := by
    refine ⟨?_, ⟨p.run.cur, p.run.live, p.run.awake⟩, p.slot, p.entry, p.names, ?_, ?_⟩
    · exact p.acc.drop_blank (s := s.hide u₁) p.entry₂ p.one₂ p.blank₂
    · simp only [put_ne _ _ p.distinct.symm]
      exact p.one
    · simp only [put_ne _ _ p.distinct.symm]
      exact p.blank
  exact left.giveUp a post

theorem wp_pipe (a : OftAcc s []) (r : Running s) (sound : ¬ pipeReadOnly s) :
    wp Tame pipe (fun _ t => OftAcc t []) s := by
  unfold pipe
  rw [wp_bind]
  refine wp_mono (wp_run (wp_pipeSlots a r)) ?_
  rintro slots t ⟨found, run⟩
  rcases slots with none | ⟨u₁, k₁, u₂, k₂⟩
  · exact found
  · have p : PipeSlots t u₁ k₁ u₂ k₂ := found
    rw [wp_bind]
    refine wp_mono (wp_run (steady_pipeInode t)) ?_
    rintro made v ⟨kept, run'⟩
    have p' := kept.pipeSlots p
    cases made with
    | none => exact p'.giveUp none fun _ acc => acc
    | some ino =>
      simp only [wp_bind, wp_get, wp_ite]
      refine ⟨fun rdonly => absurd ⟨_, t, ino, v, run, run', rdonly⟩ sound, fun _ => ?_⟩
      simp only [setFile, wp_modifyU, wp_modifyOft, wp_modifyInode, wp_pure]
      refine p'.opened ino ?_ rfl ?_ (fun q other => ?_) (fun i => ?_) (fun i => ?_)
      · simp only [put_ne _ _ p'.distinct]
        rfl
      · simp only [Kernel.desk, put_same]
        rfl
      · simp only [Kernel.desk, put_ne _ _ other]
      · by_cases here : i = ino
        · subst here
          simp only [put_same, if_pos]
        · simp only [put_ne _ _ here, if_neg here]
      · by_cases here : i = ino
        · subst here
          simp only [put_same, if_pos]
        · simp only [put_ne _ _ here, if_neg here]

end Pipe

end Fuzix
