import Fuzix.FileRuns
import Fuzix.RefProcs

/-!
# Runs of the reference counts

`Action.refsSound` names what an action must not run into. Along every run of sound
actions the count of an inode is the number of its holders.
-/

namespace Fuzix

open Wp Table Words Run

section Sound

variable [Build]

/-! ## Sound actions -/

def Call.refsSound (s : Kernel) : Call → Prop
  | .openFile name flag mode drv => openSound s name flag mode drv
  | .pipe => pipeSound s
  | .link name1 name2 => linkSound s name1 name2
  | .unlink path => pathSound path s
  | .mknod name mode _ => mknodSound s name mode
  | .chdir dir => pathSound dir s
  | .chroot dir => super s = true → pathSound dir s
  | .rename src dst => renameSound s src dst
  | .mkdir name _ => mkdirSound s name
  | .rmdir path => pathSound path s
  | .mount spec dir _ _ => mountSound s spec dir
  | .umount spec _ => super s = true → pathSound spec s
  | .execve name _ => pathSound name s
  | .exit _ => ¬ orphansLive s s.cur
  | _ => True

/-- What a process must not meet when it goes on after its sleep. -/
def wakeSound (s : Kernel) (p : Nat) : Wait → Wake → Prop
  | _, .killed _ => ¬ orphansLive s p
  | .opening _ k flag, .event _ => ¬ truncRefused s k flag
  | _, _ => True

def Action.refsSound (s : Kernel) : Action → Prop
  | .call p c => c.refsSound (s.entered p)
  | .wake p w => ∀ wait, (s.ptab p).wait = some wait → wakeSound s p wait w

section Calls
variable {s t : Kernel}

/-- One lemma for each call: every reference it takes is given back or held. -/
theorem RefAcc.call (a : RefAcc s [] []) (r : Running s) (c : Call) (sound : c.refsSound s) :
    wp Counted c.run (fun _ t => RefAcc t [] []) s := by
  cases c with
  | openFile name flag mode drv => exact a.open sound
  | close fd => exact a.close fd
  | dup oldd => exact wp_held (held_dup oldd) a
  | dup2 oldd newd => exact a.dup2 oldd newd
  | fcntl fd request data => exact wp_held (held_fcntl fd request data) a
  | pipe => exact a.pipe sound
  | read fd nbytes mapped => exact a.read fd nbytes mapped
  | write fd src mapped => exact a.write fd src mapped
  | link name1 name2 => exact wp_link a sound
  | unlink path => exact wp_unlink a sound
  | mknod name mode dev => exact wp_mknod a dev sound
  | chdir dir => exact wp_chdir a r sound
  | fchdir fd => exact wp_fchdir a r fd
  | chroot dir => exact wp_chroot a r sound
  | rename src dst => exact wp_rename a sound
  | mkdir name mode => exact wp_mkdir a mode sound
  | rmdir path => exact wp_rmdir a sound
  | mount spec dir flags drv => exact wp_mount a flags drv sound
  | umount spec flags => exact wp_umount a flags sound
  | sync => exact wp_held (held_sync.bind fun _ => held_pure _) a
  | fork memory => exact a.fork memory
  | execve name image => exact a.execve image sound
  | exit record =>
    refine (wp_bind _ _ _ _ _).mpr ?_
    exact a.doexit r.cur r.live sound record
  | reap p => exact a.reap p
  | acct fd => exact a.acctCall fd

theorem RefAcc.awake (a : RefAcc s [] []) : RefAcc s.awake [] [] where
  count := fun i => by
    have same : inodeHolders s.awake i = inodeHolders s i := by
      have held : ∀ p, (s.awake.ptab p).holds = (s.ptab p).holds := fun p => put_fixed rfl
      simp only [inodeHolders, rootHolds, held]
      rfl
    rw [same]
    exact a.count i
  waits := fun p u k flag asleep => by
    by_cases here : p = s.cur
    · subst here
      simp only [Kernel.awake, put_same] at asleep
      cases asleep
    · simp only [Kernel.awake, put_ne _ _ here] at asleep
      exact a.waits p u k flag asleep
  acctFh := a.acctFh

theorem RefAcc.killed (a : RefAcc s [] []) (hp : s.cur < PTABSIZE)
    (live : (s.ptab s.cur).status = .live) (sound : ¬ orphansLive s s.cur)
    (record : List UInt8) :
    wp Counted (do
      Fuzix.doexit record
      return (none : Option Nat)) (fun _ t => RefAcc t [] []) s.awake := by
  have seats : Seats s s.awake := by
    refine ⟨rfl, fun p => ?_, fun p => ?_, fun p => ?_⟩
    · exact put_fixed rfl
    · exact put_fixed rfl
    · exact put_fixed rfl
  rw [wp_bind]
  refine a.awake.doexit hp ?_ (fun more => sound (seats.orphansLive more)) record
  exact (seats.status s.cur).trans live

theorem RefAcc.resume (a : RefAcc s [] []) (hp : s.cur < PTABSIZE)
    (live : (s.ptab s.cur).status = .live) {w : Wait} (asleep : (s.ptab s.cur).wait = some w)
    {wake : Wake} (sound : wakeSound s s.cur w wake) :
    wp Counted (resume w wake) (fun _ t => RefAcc t [] []) s := by
  unfold Fuzix.resume setWait
  simp only [wp_bind, wp_get, wp_modifyProc]
  show wp Counted _ _ s.awake
  cases wake with
  | killed record =>
    have dead : ¬ orphansLive s s.cur := by
      cases w <;> exact sound
    cases w <;> exact a.killed hp live dead record
  | event ctty =>
    cases w with
    | opening u k flag =>
      rw [wp_bind, wp_get]
      split
      · exact Counted.null
      · rename_i i _
        rw [wp_bind]
        exact (wp_held (held_ttyPost i ctty) a.awake).openFinish u sound
    | reading fd i access => exact a.awake.readFrom fd i access
    | writing fd i access src => exact a.awake.writeTo fd i access src
  | signal e =>
    cases w with
    | opening u k flag =>
      rw [wp_bind]
      refine wp_mono (wp_held (held_setError e) a.awake) fun _ t a' => ?_
      exact a'.cantopen (a.waits s.cur u k flag asleep) u
    | reading fd i access =>
      have stopped : Held (do
          modifyU fun u => { u with error := e, count := 0 }
          endXfer fd) := by
        refine Keeps.bind (held_modifyU ?_ ?_) fun _ => held_endXfer fd
        · exact fun _ => rfl
        · exact fun _ => rfl
      exact wp_held stopped a.awake
    | writing fd i access src =>
      exact wp_held ((held_setError e).bind fun _ => held_endXfer fd) a.awake

end Calls

/-! ## Runs -/

/-- An action that is possible, sound, and returns. -/
def Action.refsStep (s : Kernel) (a : Action) (t : Kernel) : Prop :=
  a.enabled s ∧ a.refsSound s ∧ ∃ r, a.run s s = .ok (r, t)

section Runs
variable {s t : Kernel}

theorem RefAcc.at_cur (a : RefAcc s [] []) (p : Nat) : RefAcc { s with cur := p } [] [] :=
  ⟨a.count, a.waits, a.acctFh⟩

theorem RefAcc.action (acc : RefAcc s [] []) (a : Action) (enabled : a.enabled s)
    (sound : a.refsSound s) : wp Counted (a.run s) (fun _ t => RefAcc t [] []) s := by
  cases a with
  | call p c =>
    obtain ⟨hp, live, awake⟩ := enabled
    have kept : RefsKept { s with cur := p } (s.entered p) :=
      { RefsKept.refl { s with cur := p } with
        ptab := fun _ => put_fixed rfl
        wait := fun _ => put_fixed rfl }
    exact RefAcc.call (kept.acc (acc.at_cur p)) (entered_running hp live awake) c sound
  | wake p w =>
    obtain ⟨hp, live, asleep⟩ := enabled
    show wp Counted _ _ { s with cur := p }
    cases wait : (s.ptab p).wait with
    | none => exact absurd wait asleep
    | some w' => exact (acc.at_cur p).resume hp live wait (sound w' wait)

theorem RefAcc.step (acc : RefAcc s [] []) {a : Action} (step : a.refsStep s t) :
    RefAcc t [] [] := by
  obtain ⟨enabled, sound, r, run⟩ := step
  have post := wp_ok (acc.action a enabled sound) run
  exact post

/-- Along every run of sound actions the count of an inode is the number of its holders
and fits in 8 bits, and no sound action takes a count below zero. -/
theorem refs_counted {as : List Action} (start : RefAcc s [] [])
    (run : Steps Action.refsStep s as t) :
    (∀ i, (t.itab i).refs = inodeHolders t i ∧ (t.itab i).refs < 256) ∧
    ∀ a : Action, a.enabled t → a.refsSound t →
      a.run t t ≠ .error (.panic .inodeFreed) := by
  have acc : RefAcc t [] [] :=
    run.keeps (I := fun s => RefAcc s [] []) (fun _ _ _ acc step => acc.step step) start
  refine ⟨fun i => ?_, fun a enabled sound below => ?_⟩
  · have sum := acc.count i
    have holders := inodeHolders_le t i
    have bound := Build.inodeRefsBound
    rw [List.count_nil] at sum
    exact ⟨by omega, by omega⟩
  · exact wp_error (acc.action a enabled sound) below rfl

end Runs

end Sound

/-! ## A process in the root directory -/

def rootNode : Cinode :=
  { oneNode with
    num := ROOTINODE
    node := { oneNode.node with mode := F_DIR + 0o755, nlink := 2 }
    refs := 3 }

/-- Only the root directory is in core. -/
def rootOnly : Kernel :=
  { oneFile with
    itab := fun i => if i = 0 then rootNode else { oneNode with refs := 0 }
    oftab := fun _ => ⟨0, none, .ofFlag O_RDONLY, 0⟩
    ptab := fun _ => ⟨.live, 0, false, none, { oneUser with files := fun _ => NO_FILE }⟩ }

theorem rootOnly_acc : @RefAcc tiny rootOnly [] [] := by
  let _ := tiny
  refine ⟨fun i => ?_, ?_, ?_⟩
  · have procs : total PTABSIZE (fun p => (rootOnly.ptab p).holds i) =
        0 + (rootOnly.ptab 0).holds i := total_succ 0 _
    have files : total OFTSIZE (fun k => (rootOnly.oftab k).holds i) =
        0 + (rootOnly.oftab 0).holds i := total_succ 0 _
    have mounts : total NMOUNTS (fun m => (rootOnly.fstab m).holds i) =
        0 + (rootOnly.fstab 0).holds i := total_succ 0 _
    unfold inodeHolders
    rw [procs, files, mounts]
    by_cases here : i = 0
    · rw [here]
      decide
    · have other : ¬ 0 = i := fun same => here same.symm
      simp [rootOnly, rootHolds, Proc.holds, Udata.holds, Oft.holds, Mount.holds, here, other,
        oneFile, oneUser]
  · intro p u k flag no
    cases no
  · intro k no
    cases no

set_option maxRecDepth 10000 in
/-- `chdir("/")` from the root directory. -/
theorem refs_counted_after_chdir :
    ∃ t, @Action.refsStep tiny rootOnly (.call 0 (.chdir (some [slash]))) t ∧
      (t.itab 0).refs = @inodeHolders tiny t 0 := by
  let _ := tiny
  have step : ∃ t, Action.refsStep rootOnly (.call 0 (.chdir (some [slash]))) t := by
    refine ⟨_, ⟨⟨by decide, by decide, rfl⟩, ?_, _, rfl⟩⟩
    rintro path same
    cases same
    rintro x t _ ⟨_, _, _, _, no⟩
    exact no
  obtain ⟨t, step⟩ := step
  have all := refs_counted rootOnly_acc (Steps.snoc (Steps.nil rootOnly) step)
  exact ⟨t, step, (all.1 0).1⟩

set_option maxRecDepth 10000 in
/-- `chdir("..")` in the root directory loses a reference to it. -/
theorem refs_not_counted :
    ∃ (_ : Build) (s t : Kernel) (a : Action), RefAcc s [] [] ∧ a.enabled s ∧
      (∃ r, a.run s s = .ok (r, t)) ∧ (t.itab 0).refs = 2 ∧ inodeHolders t 0 = 3 :=
  ⟨tiny, rootOnly, _, .call 0 (.chdir (some dotdot)), rootOnly_acc, ⟨by decide, by decide, rfl⟩,
    ⟨_, rfl⟩, rfl, rfl⟩

end Fuzix
