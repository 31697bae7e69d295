import Fuzix.FileProcs
import Fuzix.Lib.Run

/-!
# Runs of the open files

`Action.filesSound` names what an action must not be for the accounting to
survive it. Along every run of sound actions the accounting holds and no index
leaves its table.
-/

set_option linter.unusedSectionVars false

namespace Fuzix

open Wp Table Words Run

section Sound

variable [Build]

/-! ## Sound actions -/

/-- The state in which process `p` starts a call. -/
def Kernel.entered (s : Kernel) (p : Nat) : Kernel :=
  { s with
    cur := p
    ptab := put s.ptab p { s.ptab p with u := { (s.ptab p).u with error := 0 } } }

/-- The descriptors of a call fit their type, `dup2` is not used on one descriptor,
a pipe's inode can be written, the accounting file is replaced only when its entry
stays open, and no child of the process dies with it. -/
def Call.filesSound (s : Kernel) : Call → Prop
  | .dup oldd => (∃ j, j < UFTSIZE ∧ s.fds j = NO_FILE) → Fits s oldd
  | .dup2 oldd newd =>
    newd < UFTSIZE → Fits s oldd ∧ (newd = oldd → s.fds oldd = NO_FILE)
  | .fcntl fd _ _ => Fits s fd
  | .pipe => ¬ pipeReadOnly s
  | .read fd nbytes mapped => movesBytes nbytes mapped → Fits s fd
  | .write fd src mapped => movesBytes src.length mapped → Fits s fd
  | .exit _ => ¬ orphansLive s s.cur
  | .acct fd => acctSound s fd ∧ ∀ f, fd = some f → acctAccepts s f → Fits s f
  | _ => True

/-- No process is killed while it waits in `d_open`. -/
def Action.filesSound (s : Kernel) : Action → Prop
  | .call p c => c.filesSound (s.entered p)
  | .wake p (.killed _) => (s.desk p).booking = none ∧ ¬ orphansLive s p
  | .wake _ _ => True

section Calls
variable {s t : Kernel}

theorem steady_fchdir (fd : Nat) : Steady (fchdir fd) := by
  refine (steady_getinode fd).bind fun found => ?_
  cases found with
  | none => exact steady_pure _
  | some ino =>
    refine (steady_iRef ino).bind fun _ => steady_get.bind fun s => ?_
    exact steady_chdiroot ino _ fun _ => rfl

/-- One lemma for each call: the accounting survives it. -/
theorem Call.wp_run (a : OftAcc s []) (r : Running s) (c : Call) (sound : c.filesSound s) :
    wp Tame c.run (fun _ t => OftAcc t []) s := by
  have keep : ∀ {m : K (Option Nat)}, Steady m → wp Tame m (fun _ t => OftAcc t []) s :=
    fun steady => wp_mono (steady s) fun _ _ kept => kept.acc a
  cases c with
  | openFile name flag mode drv => exact wp_open a r name flag mode drv
  | close fd => exact wp_close a r
  | dup oldd => exact wp_dup a r sound
  | dup2 oldd newd => exact wp_dup2 a r sound
  | fcntl fd request data => exact wp_fcntl a r sound request data
  | pipe => exact wp_pipe a r sound
  | read fd nbytes mapped => exact wp_read a r nbytes mapped sound
  | write fd src mapped => exact wp_write a r src mapped sound
  | link name1 name2 => exact keep (steady_link name1 name2)
  | unlink path => exact keep (steady_unlink path)
  | mknod name mode dev => exact keep (steady_mknod name mode dev)
  | chdir dir => exact keep (steady_chdir dir)
  | fchdir fd => exact keep (steady_fchdir fd)
  | chroot dir => exact keep (steady_chroot dir)
  | rename src dst => exact keep (steady_rename src dst)
  | mkdir name mode => exact keep (steady_mkdir name mode)
  | rmdir path => exact keep (steady_rmdir path)
  | mount spec dir flags drv => exact keep (steady_mount spec dir flags drv)
  | umount spec flags => exact keep (steady_umount spec flags)
  | sync => exact keep (steady_sync.bind fun _ => steady_pure _)
  | fork memory => exact wp_fork a r memory
  | execve name image => exact wp_execve a r name image
  | exit record =>
    refine (wp_bind _ _ _ _ _).mpr ?_
    exact wp_doexit a r sound record
  | reap p => exact wp_reap a p
  | acct fd => exact wp_acct a r sound.1 sound.2

/-! ## Going on after a sleep -/

/-- The running process sleeps in a call. -/
structure Asleep (s : Kernel) (w : Wait) : Prop where
  acc : OftAcc s []
  cur : s.cur < PTABSIZE
  live : (s.desk s.cur).status = .live
  wait : (s.desk s.cur).wait = some w

/-- The state in which the process goes on. -/
def Kernel.awake (s : Kernel) : Kernel :=
  { s with ptab := put s.ptab s.cur { s.ptab s.cur with wait := none } }

theorem awake_desk (s : Kernel) :
    s.awake.desk s.cur = { s.desk s.cur with wait := none } := by
  simp only [Kernel.awake, Kernel.desk, put_same]
  rfl

theorem awake_desk_ne (s : Kernel) {p : Nat} (other : p ≠ s.cur) :
    s.awake.desk p = s.desk p := by
  simp only [Kernel.awake, Kernel.desk, put_ne _ _ other]

theorem Asleep.running {w : Wait} (h : Asleep s w) : Running s.awake where
  cur := h.cur
  live := by
    show (s.awake.desk s.cur).status = .live
    rw [awake_desk]
    exact h.live
  awake := by
    show (s.awake.desk s.cur).wait = none
    rw [awake_desk]

theorem Asleep.fds (s : Kernel) : s.awake.fds = s.fds := by
  show (s.awake.desk s.cur).files = s.fds
  rw [awake_desk]
  rfl

/-- A process that does not wait in `d_open` wakes up with its files. -/
theorem Asleep.acc_awake {w : Wait} (h : Asleep s w) (none_booked : (s.desk s.cur).booking = none) :
    OftAcc s.awake [] := by
  refine h.acc.reseat rfl rfl rfl (fun q _ k _ => ?_) (fun q _ live => ?_) (fun q _ => ?_)
    (fun q fd hq found => ?_)
  · by_cases here : q = s.cur
    · subst here
      rw [awake_desk]
      rfl
    · rw [awake_desk_ne s here]
  · by_cases here : q = s.cur
    · subst here
      rw [awake_desk]
      exact ⟨h.live, rfl⟩
    · rw [awake_desk_ne s here] at live ⊢
      exact ⟨live, rfl⟩
  · by_cases here : q = s.cur
    · subst here
      rw [awake_desk, none_booked]
      simp [Desk.booking]
    · rw [awake_desk_ne s here]
  · by_cases here : q = s.cur
    · subst here
      rw [awake_desk] at found
      simp [Desk.transfer] at found
    · rw [awake_desk_ne s here] at found ⊢
      exact h.acc.moving q fd hq found

/-- A process that waits in `d_open` wakes up with the entry it had booked. -/
theorem Asleep.opening {u k flag : Nat} (h : Asleep s (.opening u k flag)) :
    OpeningOn s.awake u k := by
  have booking : (s.desk s.cur).booking = some (u, k) := by
    simp only [Desk.booking, h.live, h.wait]
  obtain ⟨hu, hk, free, one, set⟩ := h.acc.bookings s.cur u k h.cur booking
  have booked : Booked s.awake s s.cur u k := by
    refine ⟨h.cur, ?_, booking, ⟨?_, ?_⟩, ?_, ?_, rfl, rfl, rfl,
      fun q other => (awake_desk_ne s other).symm⟩
    · rw [awake_desk]
      simp [Desk.booking]
    · simp only [Desk.transfer, h.live, h.wait]
    · rw [awake_desk]
      simp [Desk.transfer]
    · rw [awake_desk]
      exact h.live
    · rw [awake_desk]
  refine ⟨⟨h.acc.unbook booked, h.running, hk, one, hu, ?_⟩, set⟩
  rw [Asleep.fds]
  exact free

theorem Asleep.moving {w : Wait} {fd : Nat} (h : Asleep s w)
    (transfer : (s.desk s.cur).transfer = some fd) (none_booked : (s.desk s.cur).booking = none) :
    Moving s.awake fd := by
  obtain ⟨slot, isOpen⟩ := h.acc.moving s.cur fd h.cur transfer
  refine ⟨h.acc_awake none_booked, h.running, slot, ?_⟩
  rw [Asleep.fds]
  exact isOpen

theorem wp_doexit_awake {w : Wait} (h : Asleep s w)
    (none_booked : (s.desk s.cur).booking = none) (sound : ¬ orphansLive s s.cur)
    (record : List UInt8) :
    wp Tame (doexit record) (fun _ t => OftAcc t []) s.awake := by
  refine wp_doexit (h.acc_awake none_booked) h.running (fun orphans => sound ?_) record
  have same : ∀ q, (s.awake.desk q).ignoresChild = (s.desk q).ignoresChild ∧
      (s.awake.desk q).status = (s.desk q).status ∧
      (s.awake.desk q).parent = (s.desk q).parent := by
    intro q
    by_cases here : q = s.cur
    · subst here
      rw [awake_desk]
      exact ⟨rfl, rfl, rfl⟩
    · rw [awake_desk_ne s here]
      exact ⟨rfl, rfl, rfl⟩
  obtain ⟨notInit, ignores, q, hq, other, live, child⟩ := orphans
  exact ⟨notInit, (same 0).1 ▸ ignores, q, hq, other, (same q).2.1 ▸ live, (same q).2.2 ▸ child⟩

theorem wp_resume {w : Wait} (h : Asleep s w) (wake : Wake)
    (sound : ∀ record, wake = .killed record →
      (s.desk s.cur).booking = none ∧ ¬ orphansLive s s.cur) :
    wp Tame (resume w wake) (fun _ t => OftAcc t []) s := by
  unfold resume setWait
  simp only [wp_bind, wp_get, wp_modifyProc]
  show wp Tame _ _ s.awake
  cases w with
  | opening u k flag =>
    have o := h.opening
    cases wake with
    | killed record =>
      obtain ⟨none_booked, live⟩ := sound record rfl
      rw [wp_bind]
      exact wp_doexit_awake h none_booked live record
    | event ctty =>
      simp only [wp_bind, wp_get]
      split
      · exact Tame.null
      · rename_i i _
        rw [wp_bind]
        have post : Steady (ttyPost i ctty) := steady_modifyU fun _ => rfl
        exact wp_mono (post s.awake) fun _ t kept => (kept.openingOn o).1.openFinish
    | signal e =>
      rw [wp_bind]
      exact wp_mono (steady_setError e s.awake) fun _ t kept => (kept.openingOn o).1.cantopen
  | reading fd i access =>
    have none_booked : (s.desk s.cur).booking = none := by
      simp only [Desk.booking, h.live, h.wait]
    have m : Moving s.awake fd := h.moving (by simp only [Desk.transfer, h.live, h.wait]) none_booked
    cases wake with
    | killed record =>
      rw [wp_bind]
      exact wp_doexit_awake h none_booked (sound record rfl).2 record
    | event ctty => exact m.readFrom i access
    | signal e =>
      rw [wp_bind]
      have stopped : Steady (modifyU fun u => { u with error := e, count := 0 }) :=
        steady_modifyU fun _ => rfl
      exact wp_mono (stopped s.awake) fun _ t kept => (kept.moving m).endXfer
  | writing fd i access src =>
    have none_booked : (s.desk s.cur).booking = none := by
      simp only [Desk.booking, h.live, h.wait]
    have m : Moving s.awake fd := h.moving (by simp only [Desk.transfer, h.live, h.wait]) none_booked
    cases wake with
    | killed record =>
      rw [wp_bind]
      exact wp_doexit_awake h none_booked (sound record rfl).2 record
    | event ctty => exact m.writeTo i access src
    | signal e =>
      rw [wp_bind]
      exact wp_mono (steady_setError e s.awake) fun _ t kept => (kept.moving m).endXfer

end Calls

/-! ## Runs -/

/-- An action that is possible, sound, and returns. -/
def Action.filesStep (s : Kernel) (a : Action) (t : Kernel) : Prop :=
  a.enabled s ∧ a.filesSound s ∧ ∃ r, a.run s s = .ok (r, t)

section Runs
variable {s t : Kernel}

theorem entered_kept (s : Kernel) (p : Nat) :
    (s.entered p).oftab = s.oftab ∧ (s.entered p).acctFh = s.acctFh ∧
      (s.entered p).itab = s.itab ∧ ∀ q, (s.entered p).desk q = s.desk q := by
  refine ⟨rfl, rfl, rfl, fun q => ?_⟩
  exact put_fixed rfl

theorem entered_running {p : Nat} (hp : p < PTABSIZE) (live : (s.desk p).status = .live)
    (awake : (s.desk p).wait = none) : Running (s.entered p) := by
  have desk : (s.entered p).desk p = s.desk p := (entered_kept s p).2.2.2 p
  refine ⟨hp, ?_, ?_⟩
  · show ((s.entered p).desk p).status = .live
    rw [desk]
    exact live
  · show ((s.entered p).desk p).wait = none
    rw [desk]
    exact awake

theorem OftAcc.at_cur (a : OftAcc s []) (p : Nat) : OftAcc { s with cur := p } [] :=
  ⟨a.refs, a.files, a.acct, a.bookings, a.moving, a.idle, a.used, a.readers, a.writers⟩

theorem Action.wp_run (acc : OftAcc s []) (a : Action) (enabled : a.enabled s)
    (sound : a.filesSound s) : wp Tame (a.run s) (fun _ t => OftAcc t []) s := by
  cases a with
  | call p c =>
    obtain ⟨hp, live, awake⟩ := enabled
    have entered : OftAcc (s.entered p) [] := by
      have kept : FilesKept { s with cur := p } (s.entered p) :=
        ⟨rfl, rfl, rfl, (entered_kept s p).2.2.2, fun _ => rfl⟩
      exact kept.acc (acc.at_cur p)
    exact Call.wp_run entered (entered_running hp live awake) c sound
  | wake p w =>
    obtain ⟨hp, live, asleep⟩ := enabled
    show wp Tame _ _ { s with cur := p }
    cases wait : (s.ptab p).wait with
    | none => exact absurd wait asleep
    | some w' =>
      have h : Asleep { s with cur := p } w' := ⟨acc.at_cur p, hp, live, wait⟩
      refine wp_resume h w ?_
      rintro record rfl
      exact sound

/-- A step that is sound keeps the accounting. -/
theorem OftAcc.step (acc : OftAcc s []) {a : Action} (step : a.filesStep s t) : OftAcc t [] := by
  obtain ⟨enabled, sound, r, run⟩ := step
  have post := wp_ok (Action.wp_run acc a enabled sound) run
  exact post

/-- Along every run of sound actions: an entry has one reference for each descriptor
that names it, for the accounting file and for an open still waiting for its device;
without a reference it has no inode; the readers and writers of an inode are the
entries in use that are open on it in that mode; and no index leaves its table. -/
theorem files_accounted {as : List Action} (start : OftAcc s [])
    (run : Steps Action.filesStep s as t) :
    (∀ k, k < OFTSIZE →
      (t.oftab k).refs = named t k + accounting t k + booked t k ∧
      ((t.oftab k).refs = 0 → (t.oftab k).inode = none)) ∧
    (∀ i, (t.itab i).readers = readersOf t i ∧ (t.itab i).writers = writersOf t i) ∧
    ∀ a : Action, a.enabled t → a.filesSound t → a.run t t ≠ .error .wild := by
  have acc : OftAcc t [] :=
    run.keeps (I := fun s => OftAcc s []) (fun _ _ _ acc step => acc.step step) start
  refine ⟨fun k hk => ⟨?_, acc.idle k hk⟩, fun i => ⟨acc.readers i, acc.writers i⟩, ?_⟩
  · have sum := acc.refs k hk
    rw [List.count_nil] at sum
    exact sum
  · intro a enabled sound wild
    exact wp_error (Action.wp_run acc a enabled sound) wild rfl

end Runs

end Sound

/-! ## A run on one file -/

/-- One entry, one process, two descriptors. -/
@[reducible] def tiny : Build where
  ITABSIZE := 1
  OFTSIZE := 1
  UFTSIZE := 2
  PTABSIZE := 1
  NMOUNTS := 1
  width := .int16
  configAcct := true
  validdev := fun dev => dev < 256
  below := fun _ => 0
  noDevice := by decide
  oftBound := by decide
  uftBound := by decide
  oftRefsBound := by decide
  inodeRefsBound := by decide

def oneNode : Cinode where
  magic := CMAGIC
  dev := 0
  num := 2
  node := ⟨F_REG + 0o777, 1, 0, 0, 0, 0, 0, 0, fun _ => 0⟩
  refs := 1
  readers := 0
  writers := 0
  dirty := false
  rdonly := false
  flock := 0

/-- Descriptor 0 is open for reading, descriptor 1 is free. -/
def oneUser : Udata where
  error := 0
  count := 0
  offset := 0
  mask := 0
  euid := 0
  egid := 0
  groups := fun _ => false
  files := fun fd => if fd = 0 then 0 else NO_FILE
  cloexec := fun _ => false
  cwd := 0
  root := 0
  rename := none
  ctty := none

def oneFile : Kernel where
  disk := fun _ _ => zeroBlock
  io := fun _ => ⟨none, false, zeroBlock, 0⟩
  xfers := 0
  patience := 0
  now := 0
  itab := fun i => if i = 0 then { oneNode with readers := 1 } else oneNode
  oftab := fun _ => ⟨0, some 0, .ofFlag O_RDONLY, 1⟩
  fstab := fun _ => ⟨NO_DEVICE, false, false, Filesys.load zeroBlock⟩
  ptab := fun _ => ⟨.live, 0, false, none, oneUser⟩
  cur := 0
  root := 0
  rootDev := 0
  acctFh := none

theorem oneFile_acc : @OftAcc tiny oneFile [] := by
  let _ := tiny
  have users : ∀ shut i, total OFTSIZE (uses oneFile shut i) =
      if i = 0 ∧ O_RDONLY ≠ shut then 1 else 0 := by
    intro shut i
    have one : total OFTSIZE (uses oneFile shut i) = 0 + uses oneFile shut i 0 := total_succ 0 _
    have inUse : holders oneFile 0 ≠ 0 := by decide
    rw [one, Nat.zero_add, uses]
    by_cases here : i = 0 ∧ O_RDONLY ≠ shut
    · rw [if_pos here, if_pos ⟨inUse, by rw [here.1]; rfl, here.2⟩]
    · rw [if_neg here, if_neg]
      rintro ⟨-, inode, mode⟩
      exact here ⟨(Option.some.inj inode).symm, mode⟩
  constructor
  · decide
  · intro p _ _ j _
    by_cases here : j = 0
    · exact Or.inr (by rw [here]; exact Nat.zero_lt_one)
    · exact Or.inl (if_neg here)
  · intro k no
    cases no
  · intro p u k _ no
    cases no
  · intro p fd _ no
    cases no
  · decide
  · decide
  · intro i
    rw [readersOf, users]
    by_cases here : i = 0
    · rw [here]
      rfl
    · rw [if_neg fun all => here all.1]
      exact congrArg Cinode.readers (if_neg here)
  · intro i
    rw [writersOf, users, if_neg fun all => all.2 rfl]
    by_cases here : i = 0
    · rw [here]
      rfl
    · exact congrArg Cinode.writers (if_neg here)

/-- A sound call on the same state. -/
theorem files_accounted_after_dup :
    ∃ t, @Action.filesStep tiny oneFile (.call 0 (.dup 0)) t ∧ (t.oftab 0).refs = 2 ∧
      (t.oftab 0).refs = @named tiny t 0 + accounting t 0 + @booked tiny t 0 := by
  let _ := tiny
  have step : ∃ t, Action.filesStep oneFile (.call 0 (.dup 0)) t ∧ (t.oftab 0).refs = 2 :=
    ⟨_, ⟨⟨by decide, by decide, rfl⟩, fun _ => Or.inl (by decide), _, rfl⟩, rfl⟩
  obtain ⟨t, step, refs⟩ := step
  have all := files_accounted oneFile_acc (Steps.snoc (Steps.nil oneFile) step)
  exact ⟨t, step, refs, (all.1 0 (by decide)).1⟩

/-- `dup2` of a descriptor onto itself closes it and then copies what is left. -/
theorem files_not_accounted :
    ∃ (_ : Build) (s : Kernel) (a : Action), OftAcc s [] ∧ a.enabled s ∧
      a.run s s = .error .wild :=
  ⟨tiny, oneFile, .call 0 (.dup2 0 0), oneFile_acc, ⟨by decide, by decide, rfl⟩, rfl⟩

end Fuzix
