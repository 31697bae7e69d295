import Fuzix.Lib.Run
import Fuzix.Lib.Total
import Fuzix.Sched

/-!
# The count of ready processes

`nready` is the number of entries that are running or ready. Interrupts only wake
processes up, and count them; every other step moves one entry and the counter
together.
-/

set_option linter.unusedSectionVars false

namespace Sched

open Table Run

section Machine

variable [Machine]

/-! ## Counting -/

def live (status : Status) : Nat := if status = .running ∨ status = .ready then 1 else 0

theorem live_le (status : Status) : live status ≤ 1 := by
  unfold live
  split <;> omega

/-- The entries whose status is `P_READY` or `P_RUNNING`. -/
def ready (s : State) : Nat := total PTABSIZE (fun p => live (s.ptab p).status)

theorem ready_le (s : State) : ready s ≤ PTABSIZE := by
  have le := total_le (n := PTABSIZE) (m := 1) (f := fun p => live (s.ptab p).status)
    fun p _ => live_le _
  unfold ready
  omega

theorem ready_put (s : State) {p : Nat} (hp : p < PTABSIZE) (q : Proc) :
    total PTABSIZE (fun j => live (put s.ptab p q j).status) + live (s.ptab p).status =
      ready s + live q.status := by
  have change := total_change (f := fun j => live (s.ptab j).status)
    (g := fun j => live (put s.ptab p q j).status) hp
    fun j _ other => by simp only [put_ne _ _ other]
  simp only [put_same] at change
  exact change

section Steps
variable {s t : State} {p : Nat} {f : Proc → Proc}

/-- An entry that keeps counting, or not. -/
theorem ready_same (same : live (f (s.ptab p)).status = live (s.ptab p).status) :
    ready (modifyProc s p f) = ready s := by
  unfold ready
  refine total_congr fun j _ => ?_
  show live (put s.ptab p _ j).status = _
  by_cases here : j = p
  · subst here
    rw [put_same]
    exact same
  · rw [put_ne _ _ here]

theorem count_more (hp : p < PTABSIZE) (count : s.nready = ready s)
    (before : live (s.ptab p).status = 0) (after : live (f (s.ptab p)).status = 1) :
    (modifyProc s.more p f).nready = ready (modifyProc s.more p f) := by
  have change := ready_put s hp (f (s.ptab p))
  have bound := Machine.tableBound
  have room := ready_le (modifyProc s.more p f)
  have sum : ready (modifyProc s.more p f) + live (s.ptab p).status =
      ready s + live (f (s.ptab p)).status := change
  show (s.nready + 1) % 256 = _
  omega

theorem count_less (hp : p < PTABSIZE) (count : s.nready = ready s)
    (before : live (s.ptab p).status = 1) (after : live (f (s.ptab p)).status = 0) :
    (modifyProc s.less p f).nready = ready (modifyProc s.less p f) := by
  have change := ready_put s hp (f (s.ptab p))
  have bound := Machine.tableBound
  have room := ready_le s
  have sum : ready (modifyProc s.less p f) + live (s.ptab p).status =
      ready s + live (f (s.ptab p)).status := change
  show (s.nready + 255) % 256 = _
  omega

/-! ## What interrupts do -/

/-- A process that was woken up, or only heard of a signal. -/
structure Stirred (q r : Proc) : Prop where
  status : r.status = q.status ∨
    (q.status = .sleep ∨ q.status = .stopped) ∧ r.status = .ready
  pid : r.pid = q.pid
  pgrp : r.pgrp = q.pgrp
  parent : r.parent = q.parent
  held : r.held = q.held
  ignored : r.ignored = q.ignored
  sigvec : r.sigvec = q.sigvec
  cursig : r.cursig = q.cursig
  frames : r.frames = q.frames

theorem Stirred.refl (q : Proc) : Stirred q q := ⟨Or.inl rfl, rfl, rfl, rfl, rfl, rfl, rfl, rfl, rfl⟩

theorem Stirred.trans {q r u : Proc} (h : Stirred q r) (k : Stirred r u) : Stirred q u where
  status := by
    rcases k.status with same | ⟨parked, woken⟩
    · rw [same]
      exact h.status
    · rcases h.status with same | ⟨_, ready⟩
      · rw [same] at parked
        exact Or.inr ⟨parked, woken⟩
      · rw [ready] at parked
        rcases parked with no | no <;> cases no
  pid := k.pid.trans h.pid
  pgrp := k.pgrp.trans h.pgrp
  parent := k.parent.trans h.parent
  held := k.held.trans h.held
  ignored := k.ignored.trans h.ignored
  sigvec := k.sigvec.trans h.sigvec
  cursig := k.cursig.trans h.cursig
  frames := k.frames.trans h.frames

structure Stirs (s t : State) : Prop where
  proc : ∀ p, Stirred (s.ptab p) (t.ptab p)
  cur : t.cur = s.cur
  nextp : t.nextp = s.nextp
  phase : t.phase = s.phase
  count : s.nready = ready s → t.nready = ready t

theorem Stirs.refl (s : State) : Stirs s s :=
  ⟨fun _ => Stirred.refl _, rfl, rfl, rfl, fun count => count⟩

theorem Stirs.trans {u : State} (h : Stirs s t) (k : Stirs t u) : Stirs s u where
  proc := fun p => (h.proc p).trans (k.proc p)
  cur := k.cur.trans h.cur
  nextp := k.nextp.trans h.nextp
  phase := k.phase.trans h.phase
  count := fun count => k.count (h.count count)

theorem stirred_put {q : Proc} (same : Stirred (s.ptab p) q) (j : Nat) :
    Stirred (s.ptab j) (put s.ptab p q j) := by
  by_cases here : j = p
  · subst here
    rw [put_same]
    exact same
  · rw [put_ne _ _ here]
    exact Stirred.refl _

/-- An entry that keeps its status. -/
theorem stirs_modify (same : Stirred (s.ptab p) (f (s.ptab p)))
    (status : (f (s.ptab p)).status = (s.ptab p).status) : Stirs s (modifyProc s p f) where
  proc := stirred_put same
  cur := rfl
  nextp := rfl
  phase := rfl
  count := fun count => by
    rw [ready_same (congrArg live status)]
    exact count

/-- An entry that is made ready. -/
theorem stirs_wake (hp : p < PTABSIZE) (same : Stirred (s.ptab p) (f (s.ptab p)))
    (parked : (s.ptab p).status = .sleep ∨ (s.ptab p).status = .stopped)
    (woken : (f (s.ptab p)).status = .ready) : Stirs s (modifyProc s.more p f) where
  proc := stirred_put same
  cur := rfl
  nextp := rfl
  phase := rfl
  count := fun count => by
    refine count_more hp count ?_ ?_
    · rcases parked with asleep | stopped
      · rw [asleep]
        rfl
      · rw [stopped]
        rfl
    · rw [woken]
      rfl

theorem stirs_pwake (hp : p < PTABSIZE) (s : State) : Stirs s (pwake s p) := by
  unfold pwake
  split
  · rename_i asleep
    exact stirs_wake hp ⟨Or.inr ⟨Or.inl asleep, rfl⟩, rfl, rfl, rfl, rfl, rfl, rfl, rfl, rfl⟩
      (Or.inl asleep) rfl
  · exact stirs_modify ⟨Or.inl rfl, rfl, rfl, rfl, rfl, rfl, rfl, rfl, rfl⟩ rfl
  · exact Stirs.refl s

/-- What every round of a loop over the table keeps. -/
theorem forProcs_keeps {R : State → State → Prop} (refl : ∀ s, R s s)
    (trans : ∀ s t u, R s t → R t u → R s u) {g : State → Nat → State}
    (round : ∀ s p, p < PTABSIZE → R s (g s p)) (s : State) :
    ∀ n, n ≤ PTABSIZE → R s (forProcs g n s)
  | 0, _ => refl s
  | n + 1, le => trans _ _ _ (forProcs_keeps refl trans round s n (by omega)) (round _ n (by omega))

/-- What everything in a round of `leaveFamily` keeps. -/
theorem leaveFamily_keeps {R : State → State → Prop} (refl : ∀ s, R s s)
    (trans : ∀ s t u, R s t → R t u → R s u)
    (signal : ∀ s p sig, p < PTABSIZE → R s (ssig s p sig)) (wake : ∀ s event, R s (wakeup event s))
    (orphan : ∀ s p, R s (modifyProc s p fun q => { q with parent := 0 }))
    (alone : ∀ s p, R s (modifyProc s p fun q => { q with pgrp := 0 }))
    (gone : ∀ s p, R s (setStatus s p .empty)) (hp : p < PTABSIZE) (s : State) :
    R s (leaveFamily s p) := by
  have start : 0 < PTABSIZE := Nat.lt_of_le_of_lt (Nat.zero_le _) hp
  have hang : ∀ u, R u (ssig (ssig (modifyProc u p fun q => { q with pgrp := 0 }) p SIGHUP)
      p SIGCONT) := by
    intro u
    exact trans _ _ _ (trans _ _ _ (alone u p) (signal _ p SIGHUP hp)) (signal _ p SIGCONT hp)
  unfold leaveFamily
  split
  · exact refl s
  · dsimp only
    have family : R s (if (s.ptab p).parent = s.cur then
          if ((modifyProc s p fun q => { q with parent := 0 }).ptab 0).ignored SIGCHLD = true
          then setStatus (modifyProc s p fun q => { q with parent := 0 }) p .empty
          else wakeup (ptabEvent 0) (ssig (modifyProc s p fun q => { q with parent := 0 }) 0 SIGCHLD)
        else s) := by
      split
      · split
        · exact trans _ _ _ (orphan s p) (gone _ p)
        · exact trans _ _ _ (orphan s p) (trans _ _ _ (signal _ 0 SIGCHLD start) (wake _ _))
      · exact refl s
    generalize (if (s.ptab p).parent = s.cur then
          if ((modifyProc s p fun q => { q with parent := 0 }).ptab 0).ignored SIGCHLD = true
          then setStatus (modifyProc s p fun q => { q with parent := 0 }) p .empty
          else wakeup (ptabEvent 0) (ssig (modifyProc s p fun q => { q with parent := 0 }) 0 SIGCHLD)
        else s) = u at family ⊢
    split
    · exact trans _ _ _ family (hang u)
    · exact family

theorem stirs_wakeup (event : Nat) (s : State) : Stirs s (wakeup event s) := by
  refine forProcs_keeps Stirs.refl (fun _ _ _ => Stirs.trans) ?_ s PTABSIZE (Nat.le_refl _)
  intro s p hp
  split
  · exact stirs_pwake hp s
  · exact Stirs.refl s

theorem stirs_cont (hp : p < PTABSIZE) (s : State) : Stirs s (cont s p) := by
  unfold cont
  dsimp only
  have first : Stirs s (if (s.ptab p).status = .stopped
      then modifyProc s.more p (fun q => { q with status := .ready, event := 0 }) else s) := by
    split
    · rename_i stopped
      exact stirs_wake hp ⟨Or.inr ⟨Or.inr stopped, rfl⟩, rfl, rfl, rfl, rfl, rfl, rfl, rfl, rfl⟩
        (Or.inr stopped) rfl
    · exact Stirs.refl s
  exact first.trans (stirs_modify ⟨Or.inl rfl, rfl, rfl, rfl, rfl, rfl, rfl, rfl, rfl⟩ rfl)

theorem stirs_rouse (hp : p < PTABSIZE) (s : State) : Stirs s (rouse s p) := by
  unfold rouse
  dsimp only
  have first : Stirs s (if (s.ptab p).status = .sleep then setStatus s.more p .ready else s) := by
    split
    · rename_i asleep
      exact stirs_wake hp ⟨Or.inr ⟨Or.inl asleep, rfl⟩, rfl, rfl, rfl, rfl, rfl, rfl, rfl, rfl⟩
        (Or.inl asleep) rfl
    · exact Stirs.refl s
  exact first.trans (stirs_modify ⟨Or.inl rfl, rfl, rfl, rfl, rfl, rfl, rfl, rfl, rfl⟩ rfl)

theorem stirs_ssig (hp : p < PTABSIZE) (s : State) (sig : Nat) : Stirs s (ssig s p sig) := by
  have pend : ∀ (u : State) (g : Proc → Mask),
      Stirs u (modifyProc u p fun q => { q with pending := g q }) := fun u g =>
    stirs_modify ⟨Or.inl rfl, rfl, rfl, rfl, rfl, rfl, rfl, rfl, rfl⟩ rfl
  unfold ssig
  split
  · exact Stirs.refl s
  · dsimp only
    have first : Stirs s (if sig = SIGCONT then cont s p else s) := by
      split
      · exact stirs_cont hp s
      · exact Stirs.refl s
    generalize (if sig = SIGCONT then cont s p else s) = t at first ⊢
    have second : Stirs t (if SIGSTOP ≤ sig ∧ sig ≤ SIGTTOU
        then modifyProc t p (fun q => { q with pending := put q.pending SIGCONT false })
        else t) := by
      split
      · exact pend t _
      · exact Stirs.refl t
    generalize (if SIGSTOP ≤ sig ∧ sig ≤ SIGTTOU
        then modifyProc t p (fun q => { q with pending := put q.pending SIGCONT false })
        else t) = u at second ⊢
    have before := first.trans second
    split
    · exact before
    · refine Stirs.trans (before.trans ?_) (pend _ _)
      split
      · exact Stirs.refl u
      · exact stirs_rouse hp u

end Steps

/-! ## What a step keeps -/

def Phase.fits : Phase → Status → Prop
  | .user, status => status = .running
  | .exec, status => status = .nosleep
  | .switchout, status =>
    status = .running ∨ status = .ready ∨ status = .sleep ∨ status = .stopped
  | .rescan _ _, status => status = .running
  | .getproc, _ => True
  | .doexit, status => status = .running ∨ status = .ready
  | .exited, status => status = .running ∨ status = .ready

/-- The counter is right and every index is one of the table. -/
structure Tally (s : State) : Prop where
  count : s.nready = ready s
  cur : s.cur < PTABSIZE
  parent : ∀ p, p < PTABSIZE → (s.ptab p).parent < PTABSIZE

structure Counted (s : State) : Prop extends Tally s where
  self : s.phase.fits s.me.status

theorem Stirred.fits {q r : Proc} (h : Stirred q r) {phase : Phase} (fits : phase.fits q.status) :
    phase.fits r.status := by
  rcases h.status with same | ⟨parked, woken⟩
  · rw [same]
    exact fits
  · rw [woken]
    cases phase with
    | user => rcases parked with no | no <;> rw [no] at fits <;> cases fits
    | exec => rcases parked with no | no <;> rw [no] at fits <;> cases fits
    | switchout => exact Or.inr (Or.inl rfl)
    | rescan _ _ => rcases parked with no | no <;> rw [no] at fits <;> cases fits
    | getproc => trivial
    | doexit => exact Or.inr rfl
    | exited => exact Or.inr rfl

section Keep
variable {s t : State} {p : Nat} {f : Proc → Proc}

theorem Stirs.tally (h : Stirs s t) (a : Tally s) : Tally t where
  count := h.count a.count
  cur := h.cur ▸ a.cur
  parent := fun p hp => by
    rw [(h.proc p).parent]
    exact a.parent p hp

theorem Stirs.me (h : Stirs s t) : Stirred s.me t.me := by
  unfold State.me
  rw [h.cur]
  exact h.proc s.cur

theorem Stirs.counted (h : Stirs s t) (a : Counted s) : Counted t where
  toTally := h.tally a.toTally
  self := by
    rw [h.phase]
    exact h.me.fits a.self

theorem modifyProc_same (s : State) (p : Nat) (f : Proc → Proc) :
    (modifyProc s p f).ptab p = f (s.ptab p) := put_same _ _ _

theorem modifyProc_me (s : State) (f : Proc → Proc) : (modifyProc s s.cur f).me = f s.me :=
  put_same _ _ _

/-- An entry changes, and the counter with it. -/
theorem Tally.put {n : Nat} (a : Tally s) (count : n = ready (modifyProc s p f))
    (parent : p < PTABSIZE → (f (s.ptab p)).parent < PTABSIZE) :
    Tally { modifyProc s p f with nready := n } where
  count := count
  cur := a.cur
  parent := fun j hj => by
    show (Table.put s.ptab p _ j).parent < PTABSIZE
    by_cases here : j = p
    · subst here
      rw [put_same]
      exact parent hj
    · rw [put_ne _ _ here]
      exact a.parent j hj

theorem Tally.modify (a : Tally s) (p : Nat)
    (same : live (f (s.ptab p)).status = live (s.ptab p).status)
    (parent : p < PTABSIZE → (f (s.ptab p)).parent < PTABSIZE) : Tally (modifyProc s p f) :=
  a.put (by
    rw [ready_same same]
    exact a.count) parent

theorem Tally.more (a : Tally s) (hp : p < PTABSIZE) (before : live (s.ptab p).status = 0)
    (after : live (f (s.ptab p)).status = 1) (parent : (f (s.ptab p)).parent < PTABSIZE) :
    Tally (modifyProc s.more p f) :=
  a.put (count_more hp a.count before after) fun _ => parent

theorem Tally.less (a : Tally s) (hp : p < PTABSIZE) (before : live (s.ptab p).status = 1)
    (after : live (f (s.ptab p)).status = 0) (parent : (f (s.ptab p)).parent < PTABSIZE) :
    Tally (modifyProc s.less p f) :=
  a.put (count_less hp a.count before after) fun _ => parent

/-- The phase is no part of the tally. -/
theorem Tally.phase (a : Tally s) (phase : Phase) : Tally { s with phase := phase } :=
  ⟨a.count, a.cur, a.parent⟩

/-- The process that runs now is the entry that was written last. -/
theorem Tally.moved {q : Proc} (a : Tally t) (ptab : t.ptab = Table.put s.ptab t.cur q)
    (fits : t.phase.fits q.status) : Counted t where
  toTally := a
  self := by
    unfold State.me
    rw [ptab, put_same]
    exact fits

theorem Counted.me_parent (a : Tally s) : s.me.parent < PTABSIZE := a.parent s.cur a.cur

/-! ## chksigs -/

theorem Tally.leaveChksigs (a : Tally s)
    (back : s.me.status = .running ∨ ∃ rest, s.me.frames = .switch :: rest) :
    Counted (leaveChksigs s) := by
  unfold Sched.leaveChksigs
  split
  · refine ⟨Tally.phase (a.modify s.cur ?_ fun _ => Counted.me_parent a) _, trivial⟩
    rfl
  · rename_i none
    refine ⟨a.phase _, ?_⟩
    rcases back with running | ⟨rest, frames⟩
    · exact running
    · exact absurd frames (none rest)

/-- The signals of the process are taken; it must not be stopped in its sleep. -/
theorem Tally.chksigs (a : Tally s) (pending : Mask) (svec : Nat)
    (fits : Phase.switchout.fits s.me.status)
    (back : s.me.status = .running ∨ ∃ rest, s.me.frames = .switch :: rest)
    (sound : s.me.cursig = 0 → s.me.status = .sleep →
      ∀ j, (scan s.me pending svec (NSIGS - 1) 1 s.me.pending).1 ≠ .stop j) :
    Counted (chksigs s pending svec) := by
  unfold Sched.chksigs
  split
  · exact a.leaveChksigs back
  · rename_i taking
    push Not at taking
    obtain ⟨cursig, _, notStopped⟩ := taking
    have sound := sound cursig
    generalize scan s.me pending svec (NSIGS - 1) 1 s.me.pending = found at sound
    obtain ⟨verdict, left⟩ := found
    have taken : Tally (modifyProc s s.cur fun q => { q with pending := left }) :=
      a.modify s.cur rfl fun _ => Counted.me_parent a
    have me := modifyProc_me s fun q => { q with pending := left }
    dsimp only
    generalize (modifyProc s s.cur fun q => { q with pending := left }) = u at taken me
    have status : u.me.status = s.me.status := by rw [me]
    have frames : u.me.frames = s.me.frames := by rw [me]
    have parent := Counted.me_parent taken
    rw [← status, ← frames] at back
    rw [← status] at fits notStopped sound
    cases verdict with
    | nothing => exact taken.leaveChksigs back
    | caught j =>
      refine Tally.leaveChksigs (taken.modify u.cur rfl fun _ => parent) ?_
      show (modifyProc u u.cur _).me.status = .running ∨ _
      rw [modifyProc_me]
      exact back
    | stop j =>
      have awake : live u.me.status = 1 := by
        rcases fits with run | ready | asleep | stopped
        · rw [run]
          rfl
        · rw [ready]
          rfl
        · exact absurd rfl (sound asleep j)
        · exact absurd stopped notStopped
      exact Tally.moved (Tally.phase (taken.less taken.cur awake rfl parent) _) rfl
        (Or.inr (Or.inr (Or.inr rfl)))
    | kill j =>
      dsimp only
      by_cases asleep : u.me.status = .sleep
      · rw [if_pos asleep]
        have dead : live u.me.status = 0 := by
          rw [asleep]
          rfl
        exact Tally.moved (Tally.phase (taken.more taken.cur dead rfl parent) _) rfl (Or.inl rfl)
      · rw [if_neg asleep]
        refine ⟨taken.phase _, ?_⟩
        rcases fits with run | ready | sleeps | stopped
        · exact Or.inl run
        · exact Or.inr ready
        · exact absurd sleeps asleep
        · exact absurd stopped notStopped

/-- The process went to sleep with a stop signal pending that `chksigs` takes in
`switchout`. -/
def stopsAsleep (s : State) : Prop :=
  s.phase = .switchout ∧ s.me.status = .sleep ∧ s.me.cursig = 0 ∧
    ∃ j, (scan s.me (unheld s.me) 0 (NSIGS - 1) 1 s.me.pending).1 = .stop j

/-- The loop of `chksigs` does not look at the frames. -/
theorem scan_frames (q : Proc) (frames : List Frame) (pending : Mask) (svec : Nat) :
    ∀ n j left, scan { q with frames := frames } pending svec n j left =
      scan q pending svec n j left := by
  intro n
  induction n with
  | zero => intro j left; rfl
  | succ n ih =>
    intro j left
    unfold scan
    simp only [ih]
    rfl

theorem Counted.switchout (a : Counted s) (here : s.phase = .switchout)
    (sound : ¬ stopsAsleep s) : Counted (switchout s) := by
  have fits := a.self
  rw [here] at fits
  have me := modifyProc_me s fun q => { q with frames := .switch :: q.frames }
  unfold Sched.switchout
  refine Tally.chksigs ?_ _ 0 ?_ ?_ ?_
  · exact a.modify s.cur rfl fun _ => Counted.me_parent a.toTally
  · rw [me]
    exact fits
  · rw [me]
    exact Or.inr ⟨_, rfl⟩
  · rw [me]
    intro cursig asleep j stop
    rw [scan_frames] at stop
    exact sound ⟨here, asleep, cursig, j, stop⟩

/-! ## The other steps -/

/-- `getproc` takes a ready process, or none yet. -/
theorem getproc_cases (run : getproc s = .ok t) :
    (∃ p, t = { s with nextp := p }) ∨
    ∃ p, (0 < PTABSIZE → p < PTABSIZE) ∧ (s.ptab p).status = .ready ∧ t = switchin { s with nextp := p } p := by
  have next (start : 0 < PTABSIZE) : (if s.nextp + 1 < PTABSIZE then s.nextp + 1 else 0) < PTABSIZE := by
    split <;> omega
  unfold Sched.getproc at run
  generalize (if s.nextp + 1 < PTABSIZE then s.nextp + 1 else 0) = p at next run
  dsimp only at run
  split at run
  · cases run
  · rename_i ready
    injection run with run
    exact Or.inr ⟨p, next, ready, run.symm⟩
  · injection run with run
    exact Or.inl ⟨p, run.symm⟩

theorem Counted.getproc (a : Counted s) (run : getproc s = .ok t) : Counted t := by
  have start : 0 < PTABSIZE := Nat.lt_of_le_of_lt (Nat.zero_le _) a.cur
  rcases getproc_cases run with ⟨p, rfl⟩ | ⟨p, next, ready, rfl⟩
  · exact ⟨⟨a.count, a.cur, a.parent⟩, a.self⟩
  · have chosen : Tally (setStatus { s with nextp := p, cur := p } p .running) := by
      refine Tally.modify (s := { s with nextp := p, cur := p })
        ⟨a.count, next start, a.parent⟩ p ?_ fun hp => a.parent p hp
      show live .running = live (s.ptab p).status
      rw [ready]
      rfl
    have running : ((setStatus { s with nextp := p, cur := p } p .running).ptab p).status =
        .running := by
      simp only [setStatus, modifyProc, put_same]
    unfold switchin
    dsimp only
    split
    · exact Tally.moved (Tally.phase (chosen.modify p rfl fun hp => chosen.parent p hp) _) rfl
        running
    · exact Tally.moved (chosen.phase _) rfl rfl

theorem Counted.psleep (a : Counted s) (here : s.phase = .user) {event : Nat}
    (run : psleep event s = .ok t) : Counted t := by
  have running : s.me.status = .running := by
    have fits := a.self
    rwa [here] at fits
  unfold Sched.psleep at run
  rw [running] at run
  injection run with run
  subst run
  have awake : live s.me.status = 1 := by
    rw [running]
    rfl
  exact Tally.moved (Tally.phase (a.less a.cur awake rfl (Counted.me_parent a.toTally)) _) rfl
    (Or.inr (Or.inr (Or.inl rfl)))

theorem freeSlot_some (free : freeSlot s = some p) : p < PTABSIZE ∧ (s.ptab p).status = .empty := by
  have empty := List.find?_some free
  simp only [decide_eq_true_eq] at empty
  exact ⟨List.mem_range.mp (List.mem_of_find?_eq_some free), empty⟩

theorem Counted.fork (a : Counted s) (here : s.phase = .user) {pid : Nat} {memory copied : Bool}
    (sound : freeSlot s ≠ none → memory = true → copied = true) :
    Counted (fork pid memory copied s) := by
  have start : 0 < PTABSIZE := Nat.lt_of_le_of_lt (Nat.zero_le _) a.cur
  have running : s.me.status = .running := by
    have fits := a.self
    rwa [here] at fits
  unfold Sched.fork
  split
  · exact a
  · rename_i p free
    obtain ⟨hp, empty⟩ := freeSlot_some free
    have other : s.cur ≠ p := by
      rintro rfl
      rw [State.me, empty] at running
      cases running
    dsimp only
    split
    · refine ⟨a.modify p ?_ fun _ => start, ?_⟩
      · rw [empty]
        rfl
      · have me : (modifyProc s p fun _ => { blank pid s.me.pgrp with pgrp := 0 }).me = s.me :=
          put_ne _ _ other
        rw [me]
        exact a.self
    · rename_i memory
      rw [if_pos (sound (by rw [free]; simp) (Bool.eq_true_of_not_eq_false memory))]
      have parent : Tally (setStatus s s.cur .ready) := by
        refine a.modify s.cur ?_ fun _ => Counted.me_parent a.toTally
        show live .ready = live s.me.status
        rw [running]
        rfl
      have slot : (setStatus s s.cur .ready).ptab p = s.ptab p := put_ne _ _ (Ne.symm other)
      have child := parent.more (f := fun _ => newproc (blank pid s.me.pgrp) s.me s.cur) hp
        (by rw [slot, empty]; rfl) rfl a.cur
      refine Tally.moved ⟨child.count, hp, child.parent⟩ rfl ?_
      show s.phase.fits .running
      rw [here]
      rfl

/-! ## exit -/

theorem modifyProc_other {j : Nat} (other : j ≠ p) : (modifyProc s p f).ptab j = s.ptab j :=
  put_ne _ _ other

/-- A signal changes no other entry. -/
theorem ssig_other {j : Nat} (other : j ≠ p) (s : State) (sig : Nat) :
    (ssig s p sig).ptab j = s.ptab j := by
  have first : ((if sig = SIGCONT then cont s p else s).ptab j) = s.ptab j := by
    split
    · unfold cont
      dsimp only
      rw [modifyProc_other other]
      split
      · exact modifyProc_other other
      · rfl
    · rfl
  unfold ssig
  split
  · rfl
  · dsimp only
    generalize (if sig = SIGCONT then cont s p else s) = t at first ⊢
    have second : ((if SIGSTOP ≤ sig ∧ sig ≤ SIGTTOU
        then modifyProc t p (fun q => { q with pending := put q.pending SIGCONT false })
        else t).ptab j) = s.ptab j := by
      split
      · rw [modifyProc_other other, first]
      · exact first
    generalize (if SIGSTOP ≤ sig ∧ sig ≤ SIGTTOU
        then modifyProc t p (fun q => { q with pending := put q.pending SIGCONT false })
        else t) = u at second ⊢
    split
    · exact second
    · rw [modifyProc_other other]
      split
      · exact second
      · unfold rouse
        dsimp only
        rw [modifyProc_other other]
        split
        · exact (modifyProc_other other).trans second
        · exact second

/-- Init does not wait for its children, and one of the process still runs. -/
def readyOrphan (s : State) : Prop :=
  (s.ptab 0).ignored SIGCHLD = true ∧ ∃ p, p < PTABSIZE ∧ p ≠ s.cur ∧
    (s.ptab p).parent = s.cur ∧ live (s.ptab p).status = 1

/-- The state of `doexit` before round `n` of its loop. -/
structure Leaving (c : Nat) (ign : Bool) (n : Nat) (s : State) : Prop where
  tally : Tally s
  cur : s.cur = c
  alive : s.me.status = .running ∨ s.me.status = .ready
  init : (s.ptab 0).ignored SIGCHLD = ign
  orphans : ign = true → ∀ p, n ≤ p → p < PTABSIZE → p ≠ c → (s.ptab p).parent = c →
    live (s.ptab p).status = 0

theorem Stirs.leaving {c n : Nat} {ign : Bool} (h : Stirs s t) (a : Leaving c ign n s)
    (rest : ign = true → ∀ p, n < p → t.ptab p = s.ptab p) : Leaving c ign (n + 1) t where
  tally := h.tally a.tally
  cur := h.cur.trans a.cur
  alive := by
    have fits : Phase.doexit.fits s.me.status := a.alive
    exact h.me.fits fits
  init := by
    rw [(h.proc 0).ignored]
    exact a.init
  orphans := fun yes p more hp other mine => by
    rw [rest yes p (by omega)] at mine ⊢
    exact a.orphans yes p (by omega) hp other mine

theorem Leaving.later {c n : Nat} {ign : Bool} (a : Leaving c ign n s) :
    Leaving c ign (n + 1) s :=
  (Stirs.refl s).leaving a fun _ _ _ => rfl

/-- The entry of round `n` changes, and not its share of the count. -/
theorem Leaving.modify {c n : Nat} {ign : Bool} (a : Leaving c ign n s) (other : n ≠ c)
    (hn : n < PTABSIZE) (same : live (f (s.ptab n)).status = live (s.ptab n).status)
    (parent : (f (s.ptab n)).parent < PTABSIZE)
    (ignored : (f (s.ptab n)).ignored = (s.ptab n).ignored)
    (mine : (f (s.ptab n)).parent = c → (s.ptab n).parent = c) :
    Leaving c ign n (modifyProc s n f) where
  tally := a.tally.modify n same fun _ => parent
  cur := a.cur
  alive := by
    have me : (modifyProc s n f).me = s.me := by
      refine modifyProc_other fun here => other ?_
      rw [← here]
      exact a.cur
    rw [me]
    exact a.alive
  init := by
    by_cases here : 0 = n
    · subst here
      rw [modifyProc_same, ignored]
      exact a.init
    · rw [modifyProc_other here]
      exact a.init
  orphans := fun yes p more hp notMe child => by
    by_cases here : p = n
    · subst here
      simp only [modifyProc, put_same] at child ⊢
      rw [same]
      exact a.orphans yes p more hp notMe (mine child)
    · rw [modifyProc_other here] at child ⊢
      exact a.orphans yes p more hp notMe child

theorem Leaving.round {c n : Nat} {ign : Bool} (a : Leaving c ign n s) (hn : n < PTABSIZE) :
    Leaving c ign (n + 1) (leaveFamily s n) := by
  have start : 0 < PTABSIZE := Nat.lt_of_le_of_lt (Nat.zero_le _) hn
  unfold leaveFamily
  split
  · exact a.later
  · rename_i stays
    push Not at stays
    have other : n ≠ c := fun here => stays.2 (here.trans a.cur.symm)
    dsimp only
    -- the child is handed to init, or dies at once
    have family : ∃ u, u = (if (s.ptab n).parent = s.cur then
          if ((modifyProc s n fun q => { q with parent := 0 }).ptab 0).ignored SIGCHLD = true
          then setStatus (modifyProc s n fun q => { q with parent := 0 }) n .empty
          else wakeup (ptabEvent 0) (ssig (modifyProc s n fun q => { q with parent := 0 }) 0 SIGCHLD)
        else s) ∧ Leaving c ign (n + 1) u := by
      refine ⟨_, rfl, ?_⟩
      split
      · rename_i child
        have handed : Leaving c ign n (modifyProc s n fun q => { q with parent := 0 }) :=
          a.modify other hn rfl start rfl fun _ => child.trans a.cur
        split
        · rename_i ignores
          have yes : ign = true := by
            rw [← handed.init]
            exact ignores
          have dead := a.orphans yes n (Nat.le_refl n) hn other (child.trans a.cur)
          have same := modifyProc_same s n fun q => { q with parent := 0 }
          refine Leaving.later (handed.modify other hn ?_ ?_ rfl ?_)
          · rw [same]
            show 0 = live (s.ptab n).status
            rw [dead]
          · rw [same]
            exact start
          · intro mine
            exact mine
        · rename_i heeds
          have no : ign = false := by
            rw [← handed.init]
            exact Bool.eq_false_of_not_eq_true heeds
          refine ((stirs_ssig start _ SIGCHLD).trans (stirs_wakeup _ _)).leaving handed ?_
          intro yes
          rw [no] at yes
          cases yes
      · exact a.later
    obtain ⟨u, here, left⟩ := family
    rw [← here]
    split
    · have group : Leaving c ign (n + 1) (modifyProc u n fun q => { q with pgrp := 0 }) := by
        refine ⟨left.tally.modify n rfl fun h => left.tally.parent n h, left.cur, ?_, ?_, ?_⟩
        · have me : (modifyProc u n fun q => { q with pgrp := 0 }).me = u.me := by
            refine modifyProc_other fun same => other ?_
            rw [← same]
            exact left.cur
          rw [me]
          exact left.alive
        · by_cases zero : 0 = n
          · subst zero
            rw [modifyProc_same]
            exact left.init
          · rw [modifyProc_other zero]
            exact left.init
        · intro yes p more hp notMe mine
          rw [modifyProc_other (by omega)] at mine ⊢
          exact left.orphans yes p more hp notMe mine
      have signals := (stirs_ssig hn (modifyProc u n fun q => { q with pgrp := 0 }) SIGHUP).trans
        (stirs_ssig hn _ SIGCONT)
      refine ⟨signals.tally group.tally, signals.cur.trans group.cur, ?_, ?_, ?_⟩
      · have fits : Phase.doexit.fits (modifyProc u n fun q => { q with pgrp := 0 }).me.status :=
          group.alive
        exact signals.me.fits fits
      · rw [(signals.proc 0).ignored]
        exact group.init
      · intro yes p more hp notMe mine
        have elsewhere : p ≠ n := by omega
        rw [ssig_other elsewhere, ssig_other elsewhere] at mine ⊢
        exact group.orphans yes p more hp notMe mine
    · exact left

theorem Leaving.rounds {c : Nat} {ign : Bool} (a : Leaving c ign 0 s) :
    ∀ n, n ≤ PTABSIZE → Leaving c ign n (forProcs leaveFamily n s)
  | 0, _ => a
  | n + 1, le => (a.rounds n (by omega)).round (by omega)

theorem Counted.doexit (a : Counted s) (here : s.phase = .doexit) (sound : ¬ readyOrphan s)
    (run : doexit s = .ok t) : Counted t := by
  have alive : s.me.status = .running ∨ s.me.status = .ready := by
    have fits := a.self
    rwa [here] at fits
  unfold Sched.doexit at run
  split at run
  · cases run
  · injection run with run
    subst run
    have me := modifyProc_me s fun q => { q with held := fun _ => true, cursig := 0 }
    have start : Leaving s.cur ((s.ptab 0).ignored SIGCHLD) 0
        (modifyProc s s.cur fun q => { q with held := fun _ => true, cursig := 0 }) := by
      refine ⟨a.modify s.cur rfl fun _ => Counted.me_parent a.toTally, rfl, ?_, ?_, ?_⟩
      · rw [me]
        exact alive
      · by_cases zero : 0 = s.cur
        · rw [zero, modifyProc_same]
        · rw [modifyProc_other zero]
      · intro ignores p _ hp other child
        rw [modifyProc_other other] at child ⊢
        by_contra awake
        have bound := live_le (s.ptab p).status
        exact sound ⟨ignores, p, hp, other, child, by omega⟩
    have left := start.rounds PTABSIZE (Nat.le_refl _)
    exact ⟨left.tally.phase _, left.alive⟩

theorem Counted.endProcess (a : Counted s) (here : s.phase = .exited) :
    Counted (endProcess s) := by
  have alive : live s.me.status = 1 := by
    have fits := a.self
    rw [here] at fits
    rcases fits with running | ready
    · rw [running]
      rfl
    · rw [ready]
      rfl
  have parent := Counted.me_parent a.toTally
  unfold Sched.endProcess
  dsimp only
  split
  · have gone := a.toTally.less (f := fun q => { q with status := .empty }) a.cur alive rfl parent
    exact ⟨⟨gone.count, gone.cur, gone.parent⟩, trivial⟩
  · have told : Stirs s (wakeup (ptabEvent s.me.parent) (ssig s s.me.parent SIGCHLD)) :=
      (stirs_ssig parent s SIGCHLD).trans (stirs_wakeup _ _)
    generalize wakeup (ptabEvent s.me.parent) (ssig s s.me.parent SIGCHLD) = u at told ⊢
    have tally := told.tally a.toTally
    have still : live (u.ptab s.cur).status = 1 := by
      rcases (told.proc s.cur).status with same | ⟨_, woken⟩
      · rw [same]
        exact alive
      · rw [woken]
        rfl
    have gone := tally.less (f := fun q => { q with status := .zombie }) a.cur still rfl
      (tally.parent s.cur a.cur)
    exact ⟨⟨gone.count, gone.cur, gone.parent⟩, trivial⟩

/-- The process changes something of its own that is not its status. -/
theorem Counted.own (a : Counted s) (status : (f s.me).status = s.me.status)
    (parent : (f s.me).parent = s.me.parent) : Counted (modifyProc s s.cur f) where
  toTally := by
    refine a.modify s.cur (congrArg live status) fun _ => ?_
    show (f s.me).parent < PTABSIZE
    rw [parent]
    exact Counted.me_parent a.toTally
  self := by
    rw [modifyProc_me, status]
    exact a.self

theorem Counted.reap (a : Counted s) (here : s.phase = .user)
    (zombie : (s.ptab p).status = .zombie) : Counted (setStatus s p .empty) := by
  have running : s.me.status = .running := by
    have fits := a.self
    rwa [here] at fits
  have other : s.cur ≠ p := by
    rintro rfl
    rw [State.me, zombie] at running
    cases running
  refine ⟨a.modify p ?_ fun hp => a.parent p hp, ?_⟩
  · rw [zombie]
    rfl
  · have me : (setStatus s p .empty).me = s.me := put_ne _ _ other
    rw [me]
    exact a.self

theorem Counted.advance (a : Counted s) (stop : ¬ stopsAsleep s)
    (orphan : s.phase = .doexit → ¬ readyOrphan s) (run : advance s = .ok t) : Counted t := by
  unfold Sched.advance at run
  split at run
  · rename_i here
    injection run with run
    subst run
    exact a.switchout here stop
  · rename_i pending svec here
    injection run with run
    subst run
    have running := a.self
    rw [here] at running
    refine a.toTally.chksigs pending svec (Or.inl running) (Or.inl running) ?_
    intro _ asleep
    rw [running] at asleep
    cases asleep
  · exact a.getproc run
  · rename_i here
    exact a.doexit here (orphan here) run
  · rename_i here
    injection run with run
    subst run
    exact a.endProcess here
  · injection run with run
    subst run
    exact a

end Keep

/-! ## Runs -/

/-- Everything but `_execve`, which gives the process a status of its own. -/
def Action.listed : Action → Prop
  | .execBegin => False
  | .execEnd _ => False
  | _ => True

/-- The counter follows the table: no stop is taken on the way to sleep, a copy for
`fork` does not fail, and a process whose children init does not wait for leaves none
of them ready. -/
def Action.readySound (s : State) : Action → Prop
  | .go => ¬ stopsAsleep s ∧ (s.phase = .doexit → ¬ readyOrphan s)
  | .fork _ memory copied => freeSlot s ≠ none → memory = true → copied = true
  | _ => True

def Action.step (s : State) (a : Action) (t : State) : Prop := a.enabled s ∧ a.run s = .ok t

def Action.readyStep (s : State) (a : Action) (t : State) : Prop :=
  a.listed ∧ a.readySound s ∧ a.step s t

section Runs
variable {s t : State}

theorem Counted.step (a : Counted s) {act : Action} (step : act.readyStep s t) : Counted t := by
  obtain ⟨listed, sound, enabled, run⟩ := step
  cases act with
  | psleep event => exact a.psleep enabled run
  | schedYield =>
    injection run with run
    subst run
    unfold schedYield
    split
    · refine ⟨a.phase _, ?_⟩
      have fits := a.self
      rw [show s.phase = .user from enabled] at fits
      exact Or.inl fits
    · exact a
  | preempt =>
    injection run with run
    subst run
    unfold preempt
    split
    · have same : live Status.ready = live s.me.status := by
        have running := a.self
        rw [show s.phase = .user from enabled] at running
        rw [show s.me.status = .running from running]
        rfl
      exact Tally.moved (Tally.phase (a.modify s.cur same fun _ => Counted.me_parent a.toTally) _)
        rfl (Or.inr (Or.inl rfl))
    · exact a
  | chksigs =>
    injection run with run
    subst run
    have running := a.self
    rw [show s.phase = .user from enabled] at running
    refine a.toTally.chksigs _ 0 (Or.inl running) (Or.inl running) ?_
    intro _ asleep
    rw [show s.me.status = .running from running] at asleep
    cases asleep
  | deliver =>
    injection run with run
    subst run
    refine a.own ?_ ?_
    · unfold callHandler
      split <;> rfl
    · unfold callHandler
      split <;> rfl
  | signal sig func =>
    injection run with run
    subst run
    exact a.own rfl rfl
  | sigdisp sig hold =>
    injection run with run
    subst run
    exact a.own rfl rfl
  | setpgrp =>
    injection run with run
    subst run
    exact a.own rfl rfl
  | fork pid memory copied =>
    injection run with run
    subst run
    exact a.fork enabled.1 sound
  | reap p =>
    injection run with run
    subst run
    exact a.reap enabled.1 enabled.2.2.1
  | execBegin => cases listed
  | execEnd loaded => cases listed
  | exit =>
    injection run with run
    subst run
    refine ⟨a.phase _, ?_⟩
    have fits := a.self
    rw [show s.phase = .user from enabled] at fits
    exact Or.inl fits
  | go => exact a.advance sound.1 sound.2 run
  | ssig p sig =>
    injection run with run
    subst run
    exact (stirs_ssig enabled.1 s sig).counted a
  | wakeup event =>
    injection run with run
    subst run
    exact (stirs_wakeup event s).counted a
  | pwake p =>
    injection run with run
    subst run
    exact (stirs_pwake enabled s).counted a

/-- Along every run of sound steps `nready` is the number of entries that are ready or
running. -/
theorem nready_counts {as : List Action} (start : Counted s)
    (run : Steps Action.readyStep s as t) : t.nready = ready t := by
  have counted : Counted t :=
    run.keeps (I := Counted) (fun _ _ _ a step => a.step step) start
  exact counted.count

end Runs

end Machine

/-! ## After the boot -/

/-- A machine with two processes. -/
abbrev pair : Machine where
  PTABSIZE := 2
  beyond := fun _ => .ign
  tableBound := by decide

def booted : State where
  ptab := fun p => if p = 0 then { blank 1 0 with status := .running } else blank 0 0
  nready := 1
  cur := 0
  nextp := 0
  phase := .user

theorem booted_counted : @Counted pair booted := by
  let _ := pair
  refine ⟨⟨rfl, by decide, ?_⟩, rfl⟩
  intro p hp
  show (if p = 0 then _ else _ : Proc).parent < 2
  split <;> decide

/-- Init forks, and its child sleeps. -/
theorem nready_counts_after_fork : ∃ t, @Steps State Action (@Action.readyStep pair) booted
    [.fork 2 true true, .psleep 7] t ∧ t.nready = @ready pair t := by
  let _ := pair
  have forked : ∃ t, Action.readyStep booted (.fork 2 true true) t ∧
      ∃ u, Action.readyStep t (.psleep 7) u :=
    ⟨_, ⟨trivial, fun _ _ => rfl, ⟨rfl, by decide⟩, rfl⟩, _, ⟨trivial, trivial, rfl, rfl⟩⟩
  obtain ⟨t, first, u, second⟩ := forked
  have run := Steps.snoc (Steps.snoc (Steps.nil booted) first) second
  exact ⟨u, run, nready_counts booted_counted run⟩

/-- A stop signal comes on the way to sleep. -/
theorem nready_wrong : ∃ (_ : Machine) (t : State), Counted booted ∧
    Steps (fun s a t => a.listed ∧ Action.step s a t) booted
      [.ssig 0 SIGTSTP, .psleep 7, .go] t ∧ t.nready = 255 ∧ ready t = 0 := by
  let _ := pair
  have steps : ∃ t, Action.step booted (.ssig 0 SIGTSTP) t ∧
      ∃ u, Action.step t (.psleep 7) u ∧
      ∃ w, Action.step u .go w ∧ w.nready = 255 ∧ ready w = 0 :=
    ⟨_, ⟨⟨by decide, by decide, by decide⟩, rfl⟩, _, ⟨rfl, rfl⟩, _, ⟨⟨fun no => (by cases no), fun no => (by cases no)⟩, rfl⟩,
      rfl, rfl⟩
  obtain ⟨t, first, u, second, w, third, nready, ready⟩ := steps
  exact ⟨pair, w, booted_counted, Steps.snoc (Steps.snoc (Steps.snoc (Steps.nil booted)
    ⟨trivial, first⟩) ⟨trivial, second⟩) ⟨trivial, third⟩, nready, ready⟩

end Sched
