import Fuzix.SchedCount
import Fuzix.SchedSignals

/-!
# Job control

`tty_read` and `tty_write` of tty.c with `jobop` of level2.c, `psleep_flags_io` and
`tty_putc_maywait`, up to where the process waits. A step starts in the state of the world
that the process finds then; other processes and interrupts change it while it waits. The
second queue of a pseudo terminal is left out.
-/

set_option linter.unusedSectionVars false

namespace Jobcontrol

open Table Run
open Sched (Machine Proc Mask SIGTTIN SIGTTOU SIGCONT NSIGS unheld noSignal scan PTABSIZE Passes
  disposition modifyProc)

def EINTR : Nat := 4
def EIO : Nat := 5
def ENXIO : Nat := 6
def EAGAIN : Nat := 11

inductive Ready where
  | now
  | soon
  | later
  deriving DecidableEq

/-- `ttydata[minor]`, as far as it is looked at. -/
structure Tty where
  pgrp : Nat
  dead : Bool
  stop : Bool
  discard : Bool
  icanon : Bool
  tostop : Bool
  opost : Bool
  onlcr : Bool
  vmin : Nat
  vtime : Nat
  veof : Nat
  veol : Nat

/-- What the process finds. -/
structure World where
  sched : Sched.State
  running : sched.me.status = .running
  session : Nat → Nat
  p_tty : Nat
  p_timeout : Nat
  tty : Tty
  /-- `ttyinq[minor]`. -/
  queue : List Nat
  ready : Ready

/-- The call: the first `n` characters are read, or characters are written. -/
structure Call where
  write : Bool
  minor : Nat
  ndelay : Bool
  u_count : Nat

/-- Which call of `chksigs` the process is in. -/
inductive Place where
  | jobop
  | io
  | putc (t : Ready) (chars : List Nat)
  deriving DecidableEq

inductive Pc where
  | loop
  | asleep
  | putc (chars : List Nat)
  | stopped (pending : Mask) (svec : Nat) (place : Place)
  | done
  | exited

structure Config where
  pc : Pc
  /-- `nread` or `written`. -/
  n : Nat
  /-- What is still to be written. -/
  data : List Nat
  ret : Int
  u_error : Nat
  sched : Sched.State
  queue : List Nat
  /-- What `tty_putc` was called with. -/
  out : List Nat

def Config.leave (c : Config) (ret : Int) (u_error : Nat) : Config :=
  { c with pc := .done, ret := ret, u_error := u_error }

section
variable [Machine]

/-! ## chksigs -/

inductive Answer where
  | returned (cursig : Nat)
  | stopped (pending : Mask) (svec : Nat)
  | killed

def chksigs (s : Sched.State) (pending : Mask) (svec : Nat) : Answer × Sched.State :=
  if s.me.cursig ≠ 0 ∨ noSignal pending ∨ s.me.status = .stopped then (.returned s.me.cursig, s)
  else
    let (verdict, left) := scan s.me pending svec (NSIGS - 1) 1 s.me.pending
    let s := modifyProc s s.cur (fun q => { q with pending := left })
    match verdict with
    | .nothing => (.returned s.me.cursig, s)
    | .caught j => (.returned j, modifyProc s s.cur (fun q => { q with cursig := j }))
    | .stop j =>
      (.stopped pending (svec + j),
        modifyProc s.less s.cur (fun q => { q with status := .stopped, event := j }))
    | .kill _ => (.killed, s)

/-! ## jobop -/

def orphan_pgrp (w : World) (pgrp sid : Nat) : Prop :=
  ¬ ∃ p < PTABSIZE, (w.sched.ptab p).pgrp = pgrp ∧
    (w.sched.ptab (w.sched.ptab p).parent).pgrp ≠ pgrp ∧ w.session (w.sched.ptab p).parent = sid

instance (w : World) (pgrp sid : Nat) : Decidable (orphan_pgrp w pgrp sid) := by
  unfold orphan_pgrp; infer_instance

inductive Job where
  | proceed
  | fail
  | signal
  deriving DecidableEq

/-- What `jobop` decides before it posts the signal. -/
def jobop (w : World) (minor sig : Nat) (ign : Bool) : Job :=
  let me := w.sched.me
  if w.tty.dead ∧ (sig ≠ SIGTTIN ∨ w.queue = []) then .proceed
  else if w.tty.pgrp = 0 ∨ me.pgrp = w.tty.pgrp ∨ w.p_tty ≠ minor then .proceed
  else
    let ignored := me.held sig ∨ me.sigvec sig = .ign
    if ignored ∧ ign ∨ orphan_pgrp w me.pgrp (w.session w.sched.cur) then .fail
    else if ignored then .proceed
    else .signal

def Call.sig (call : Call) : Nat := if call.write then SIGTTOU else SIGTTIN

/-- `jobcontrol_in` or `jobcontrol_out`, before the signal. -/
def Call.job (call : Call) (w : World) : Job :=
  if call.write then if w.tty.tostop then jobop w call.minor SIGTTOU true else .proceed
  else jobop w call.minor SIGTTIN false

/-- What they make of an error. -/
def jobcontrol (c : Config) (u_error : Nat) : Config :=
  if c.n = 0 then c.leave (-1) EINTR else c.leave c.n u_error

/-- What `psleep_flags_io` makes of one. -/
def sleepError (c : Config) (u_error : Nat) : Config :=
  if c.n = 0 then c.leave (-1) u_error else c.leave c.n c.u_error

/-! ## Behind chksigs -/

def afterSignals (call : Call) (c : Config) (w : World) : Place → Config
  | .jobop => { c with pc := .loop }
  | .io => if call.write = false ∧ w.p_timeout = 1 then c.leave c.n c.u_error else { c with pc := .loop }
  | .putc t chars =>
    if t = .later ∧ call.ndelay then c.leave c.n EAGAIN else { c with pc := .putc chars }

def interrupted (c : Config) : Place → Config
  | .jobop => jobcontrol c EINTR
  | .io => sleepError c EINTR
  | .putc _ _ => c.leave c.n EINTR

def signals (call : Call) (c : Config) (w : World) (place : Place) (s : Sched.State) (pending : Mask)
    (svec : Nat) : Config :=
  let c := { c with sched := (chksigs s pending svec).2 }
  match (chksigs s pending svec).1 with
  | .returned cursig => if cursig = 0 then afterSignals call c w place else interrupted c place
  | .stopped pending svec => { c with pc := .stopped pending svec place }
  | .killed => { c with pc := .exited }

/-! ## Reading and writing -/

/-- `tty_putc_maywait`; it sleeps or looks again where it is not ready. -/
def tty_putc (call : Call) (c : Config) (w : World) : List Nat → Config
  | [] => { c with pc := .loop }
  | ch :: chars =>
    if w.ready = .now then
      let c := { c with out := c.out ++ [ch] }
      if chars = [] then { c with pc := .loop, n := c.n + 1, data := c.data.tail }
      else { c with pc := .putc chars }
    else signals call c w (.putc w.ready (ch :: chars)) w.sched (unheld w.sched.me) 0

/-- `psleep_flags_io` until it sleeps. -/
def psleep (call : Call) (c : Config) : Config :=
  if call.ndelay then sleepError c EAGAIN else { c with pc := .asleep }

def tty_read (call : Call) (c : Config) (w : World) : Config :=
  let t := w.tty
  match w.queue with
  | ch :: rest =>
    let c := { c with queue := rest, n := c.n + 1 }
    if t.icanon ∧ c.n = 1 ∧ ch = t.veof then c.leave 0 c.u_error
    else if t.icanon ∧ (ch = 10 ∨ ch = t.veol) then c.leave c.n c.u_error
    else { c with pc := .loop }
  | [] =>
    if t.dead then c.leave (-1) ENXIO
    else if ¬ t.icanon ∧ (c.n ≠ 0 ∨ t.vtime = 0) ∧ t.vmin ≤ c.n then c.leave c.n c.u_error
    else psleep call c

def tty_write (call : Call) (c : Config) (w : World) : Config :=
  let t := w.tty
  if t.dead then c.leave (-1) ENXIO
  else if t.stop then psleep call c
  else if t.discard then { c with pc := .loop, n := c.n + 1, data := c.data.tail }
  else
    match c.data with
    | [] => { c with pc := .loop }
    | ch :: _ => tty_putc call c w (if t.opost ∧ ch = 10 ∧ t.onlcr then [13, ch] else [ch])

/-- Nothing is left to do. -/
def finished (call : Call) (c : Config) : Prop :=
  if call.write then c.data = [] else call.u_count ≤ c.n

instance (call : Call) (c : Config) : Decidable (finished call c) := by
  unfold finished; infer_instance

def goOn (call : Call) (c : Config) (w : World) : Config :=
  if call.write then tty_write call c w else tty_read call c w

def loop (call : Call) (c : Config) (w : World) : Config :=
  if finished call c then c.leave c.n c.u_error
  else
    match call.job w with
    | .proceed => goOn call c w
    | .fail => jobcontrol c EIO
    | .signal =>
      let s := Sched.ssig w.sched w.sched.cur call.sig
      signals call c w .jobop s (unheld s.me) 0

def step (call : Call) (c : Config) (w : World) : Config :=
  let c := { c with sched := w.sched, queue := w.queue }
  match c.pc with
  | .loop => loop call c w
  | .asleep => signals call c w .io w.sched (unheld w.sched.me) 0
  | .putc chars => tty_putc call c w chars
  | .stopped pending svec place => signals call c w place w.sched pending svec
  | .done => c
  | .exited => c

/-- The call is made. -/
def enter (data : List Nat) (w : World) : Config := ⟨.loop, 0, data, 0, 0, w.sched, w.queue, []⟩

/-! ## What should happen -/

/-- Outside the foreground group of the controlling terminal. -/
def Background (call : Call) (w : World) : Prop :=
  w.tty.pgrp ≠ 0 ∧ w.sched.me.pgrp ≠ w.tty.pgrp ∧ w.p_tty = call.minor

/-- The signal is ignored or held. -/
def Ignored (w : World) (sig : Nat) : Prop :=
  w.sched.me.ignored sig = true ∨ w.sched.me.sigvec sig = .ign ∨ w.sched.me.held sig = true

def Live (w : World) (p : Nat) : Prop :=
  p < PTABSIZE ∧ (w.sched.ptab p).status ≠ .empty ∧ (w.sched.ptab p).status ≠ .zombie

/-- No process manages the group. -/
def Orphaned (w : World) : Prop :=
  ¬ ∃ p, Live w p ∧ Live w (w.sched.ptab p).parent ∧ (w.sched.ptab p).pgrp = w.sched.me.pgrp ∧
    (w.sched.ptab (w.sched.ptab p).parent).pgrp ≠ w.sched.me.pgrp ∧
    w.session (w.sched.ptab p).parent = w.session w.sched.cur

/-- The process may be stopped. -/
def Stoppable (call : Call) (w : World) : Prop :=
  Background call w ∧ ¬ Ignored w call.sig ∧ ¬ Orphaned w

/-- The call is where job control applies to it. -/
def Controlled (call : Call) (c : Config) (w : World) : Prop :=
  c.pc = .loop ∧ ¬ finished call c ∧ (call.write = true → w.tty.tostop = true) ∧
    ¬ (w.tty.dead = true ∧ (call.write = true ∨ w.queue = []))

/-- The process is stopped by the signal, unless another signal goes first or the signal is
caught. -/
def Stops (call : Call) (c' : Config) (w : World) : Prop :=
  ((∃ pending svec, c'.pc = .stopped pending svec .jobop) ∨ c'.pc = .exited ∨
      c'.pc = .done ∧ c'.u_error = EINTR ∧ c'.sched.me.cursig ≠ 0) ∧
    (w.sched.me.cursig = 0 → w.sched.me.sigvec call.sig = .dfl →
      (∀ j, 1 ≤ j → j < call.sig → j ≠ SIGCONT → unheld w.sched.me j = false) →
        (∃ pending svec, c'.pc = .stopped pending svec .jobop) ∧ c'.sched.me.event = call.sig)

structure Right (call : Call) (c : Config) (w : World) : Prop where
  takes : (step call c w).queue ≠ w.queue → ¬ Background call w
  outputs : (step call c w).out ≠ c.out → w.tty.tostop = true → Background call w → Ignored w SIGTTOU
  goesAhead : Controlled call c w → Background call w → call.write = true → Ignored w SIGTTOU →
    call.job w = .proceed
  fails : Controlled call c w → Background call w →
    (call.write = false ∧ Ignored w SIGTTIN ∨ ¬ Ignored w call.sig ∧ Orphaned w) →
      (step call c w).pc = .done ∧ (step call c w).u_error = EIO
  stops : Controlled call c w → Stoppable call w → Stops call (step call c w) w
  foreground : ¬ Background call w → call.job w = .proceed
  resumed : ∀ pending svec, c.pc = .stopped pending svec .jobop →
    (∃ pending svec, (step call c w).pc = .stopped pending svec .jobop) →
      (step call c w).sched.me.event = call.sig → Stoppable call w

/-- The scan goes over the vector of the signal again and finds the default there. -/
def Again (w : World) (pending : Mask) (svec sig : Nat) : Prop :=
  w.sched.me.cursig = 0 ∧ pending sig = true ∧ disposition w.sched.me (svec + sig) = .dfl ∧
    ∀ k, 1 ≤ k → k < sig → pending k = true → Passes w.sched.me (svec + k) k

/-- In the background a read finds the signal ignored or the group orphaned only behind the
first character, and the group is orphaned by the whole table; a write does not find the
signal ignored. Where the process may not be stopped it does not come back from a stop to a
vector with the default, and does not come to write from waiting for the device. -/
structure Clean (call : Call) (c : Config) (w : World) : Prop where
  read : call.write = false → Controlled call c w → Background call w →
    Ignored w SIGTTIN ∨ Orphaned w → orphan_pgrp w w.sched.me.pgrp (w.session w.sched.cur) ∧ c.n ≠ 0
  write : call.write = true → Controlled call c w → Background call w → ¬ Ignored w SIGTTOU ∧
    (Orphaned w → orphan_pgrp w w.sched.me.pgrp (w.session w.sched.cur) ∧ c.n ≠ 0)
  resumed : ∀ pending svec, c.pc = .stopped pending svec .jobop → ¬ Stoppable call w →
    ¬ Again w pending svec call.sig
  putc : ∀ chars, c.pc = .putc chars → chars ≠ [] → w.ready = .now → w.tty.tostop = true →
    Background call w → Ignored w SIGTTOU

/-! ## What jobop decides -/

variable {call : Call} {c : Config} {w : World} {s : Sched.State} {pending : Mask} {svec sig : Nat}
  {place : Place}

theorem sig_read (read : call.write = false) : call.sig = SIGTTIN := by
  simp [Call.sig, read]

theorem sig_write (write : call.write = true) : call.sig = SIGTTOU := by
  simp [Call.sig, write]

theorem sig_range (call : Call) : 1 ≤ call.sig ∧ call.sig < NSIGS ∧ Sched.stopper call.sig = true ∧
    (call.sig = SIGTTIN ∨ call.sig = SIGTTOU) := by
  unfold Call.sig
  split
  · exact ⟨by decide, by decide, by decide, Or.inr rfl⟩
  · exact ⟨by decide, by decide, by decide, Or.inl rfl⟩

theorem jobop_foreground {ign : Bool} (front : ¬ Background call w) :
    jobop w call.minor sig ign = .proceed := by
  unfold jobop
  simp only
  split
  · rfl
  · rw [if_pos]
    by_contra back
    rw [not_or, not_or, not_not] at back
    exact front back

theorem job_foreground (front : ¬ Background call w) : call.job w = .proceed := by
  unfold Call.job
  split
  · split
    · exact jobop_foreground front
    · rfl
  · exact jobop_foreground front

/-- The vector says so, or the signal is held. -/
def Ignores (w : World) (sig : Nat) : Prop :=
  w.sched.me.held sig = true ∨ w.sched.me.sigvec sig = .ign

instance (w : World) (sig : Nat) : Decidable (Ignores w sig) := by unfold Ignores; infer_instance

theorem Ignores.ignored (ignores : Ignores w sig) : Ignored w sig := by
  rcases ignores with held | ign
  · exact Or.inr (Or.inr held)
  · exact Or.inr (Or.inl ign)

/-- The decision in the background. -/
theorem job_background (controlled : Controlled call c w) (back : Background call w) :
    call.job w =
      if (Ignores w call.sig ∧ call.write = true) ∨
          orphan_pgrp w w.sched.me.pgrp (w.session w.sched.cur) then .fail
      else if Ignores w call.sig then .proceed
      else .signal := by
  obtain ⟨_, _, tostop, alive⟩ := controlled
  obtain ⟨group, other, own⟩ := back
  have outside : ¬ (w.tty.pgrp = 0 ∨ w.sched.me.pgrp = w.tty.pgrp ∨ w.p_tty ≠ call.minor) := by
    rintro (none | same | elsewhere)
    · exact group none
    · exact other same
    · exact elsewhere own
  unfold Call.job jobop Call.sig Ignores
  by_cases write : call.write = true
  · have living : ¬ w.tty.dead = true := fun dead => alive ⟨dead, Or.inl write⟩
    simp only [if_pos write, if_pos (tostop write), if_neg outside]
    rw [if_neg (fun gone => living gone.1)]
    simp [write]
  · have living : ¬ (w.tty.dead = true ∧ w.queue = []) := fun gone => alive ⟨gone.1, Or.inr gone.2⟩
    simp only [if_neg write, if_neg outside]
    rw [if_neg (by simpa using living)]
    simp [write]

theorem orphan_of_managed (managed : ¬ Orphaned w) :
    ¬ orphan_pgrp w w.sched.me.pgrp (w.session w.sched.cur) := by
  intro orphan
  apply managed
  rintro ⟨p, live, _, group, outside, session⟩
  exact orphan ⟨p, live.1, group, outside, session⟩

/-! ## Steps without job control -/

def Config.Over (c : Config) : Prop := c.pc = .done ∨ c.pc = .exited

/-- No error is waiting while the call goes on. -/
def Inv (c : Config) : Prop := c.Over ∨ c.u_error = 0

/-- Nothing is read or written, and the call does not fail with EIO. -/
structure Quiet (c c' : Config) : Prop where
  queue : c'.queue = c.queue
  out : c'.out = c.out
  error : c.u_error = 0 → c'.u_error ≠ EIO
  inv : c.u_error = 0 → Inv c'

theorem quiet_leave (ret : Int) {u_error : Nat} (other : u_error ≠ EIO) : Quiet c (c.leave ret u_error) :=
  ⟨rfl, rfl, fun _ => other, fun _ => Or.inl (Or.inl rfl)⟩

theorem quiet_finish (ret : Int) : Quiet c (c.leave ret c.u_error) := by
  refine ⟨rfl, rfl, ?_, fun _ => Or.inl (Or.inl rfl)⟩
  intro zero
  simp [Config.leave, zero, EIO]

theorem quiet_pc (pc : Pc) : Quiet c { c with pc := pc } := by
  refine ⟨rfl, rfl, ?_, fun zero => Or.inr zero⟩
  intro zero
  simp [zero, EIO]

theorem quiet_sleepError {u_error : Nat} (other : u_error ≠ EIO) : Quiet c (sleepError c u_error) := by
  unfold sleepError
  split
  · exact quiet_leave _ other
  · exact quiet_finish _

theorem quiet_after : Quiet c (afterSignals call c w place) := by
  cases place with
  | jobop => exact quiet_pc _
  | io =>
    simp only [afterSignals]
    split
    · exact quiet_finish _
    · exact quiet_pc _
  | putc t chars =>
    simp only [afterSignals]
    split
    · exact quiet_leave _ (by decide)
    · exact quiet_pc _

theorem quiet_interrupted : Quiet c (interrupted c place) := by
  cases place with
  | jobop =>
    simp only [interrupted, jobcontrol]
    split
    · exact quiet_leave _ (by decide)
    · exact quiet_leave _ (by decide)
  | io => exact quiet_sleepError (by decide)
  | putc t chars => exact quiet_leave _ (by decide)

theorem quiet_signals : Quiet c (signals call c w place s pending svec) := by
  have through {c' : Config} (quiet : Quiet { c with sched := (chksigs s pending svec).2 } c') : Quiet c c' :=
    ⟨quiet.queue, quiet.out, quiet.error, quiet.inv⟩
  unfold signals
  simp only
  split
  · split
    · exact through quiet_after
    · exact through quiet_interrupted
  · exact through (quiet_pc _)
  · exact through (quiet_pc _)

theorem quiet_psleep : Quiet c (psleep call c) := by
  unfold psleep
  split
  · exact quiet_sleepError (by decide)
  · exact quiet_pc _

/-- Characters are written; a read is not here. -/
theorem putc_kept {chars : List Nat} : (tty_putc call c w chars).queue = c.queue ∧
    (c.u_error = 0 → (tty_putc call c w chars).u_error ≠ EIO ∧ Inv (tty_putc call c w chars)) := by
  cases chars with
  | nil => exact ⟨rfl, fun zero => ⟨(quiet_pc (c := c) _).error zero, (quiet_pc (c := c) _).inv zero⟩⟩
  | cons ch chars =>
    simp only [tty_putc]
    split
    · split
      · refine ⟨rfl, fun zero => ⟨?_, Or.inr zero⟩⟩
        simp [zero, EIO]
      · refine ⟨rfl, fun zero => ⟨?_, Or.inr zero⟩⟩
        simp [zero, EIO]
    · have quiet : Quiet c (signals call c w (.putc w.ready (ch :: chars)) w.sched (unheld w.sched.me) 0) :=
        quiet_signals
      exact ⟨quiet.queue, fun zero => ⟨quiet.error zero, quiet.inv zero⟩⟩

theorem write_kept : (tty_write call c w).queue = c.queue ∧
    (c.u_error = 0 → (tty_write call c w).u_error ≠ EIO ∧ Inv (tty_write call c w)) := by
  have quiet {c' : Config} (quiet : Quiet c c') : c'.queue = c.queue ∧
      (c.u_error = 0 → c'.u_error ≠ EIO ∧ Inv c') :=
    ⟨quiet.queue, fun zero => ⟨quiet.error zero, quiet.inv zero⟩⟩
  unfold tty_write
  simp only
  split
  · exact quiet (quiet_leave _ (by decide))
  · split
    · exact quiet quiet_psleep
    · split
      · refine ⟨rfl, fun zero => ⟨?_, Or.inr zero⟩⟩
        simp [zero, EIO]
      · split
        · exact quiet (quiet_pc _)
        · exact putc_kept

theorem read_kept : (tty_read call c w).out = c.out ∧
    (c.u_error = 0 → (tty_read call c w).u_error ≠ EIO ∧ Inv (tty_read call c w)) := by
  have quiet {c' : Config} (quiet : Quiet c c') : c'.out = c.out ∧
      (c.u_error = 0 → c'.u_error ≠ EIO ∧ Inv c') :=
    ⟨quiet.out, fun zero => ⟨quiet.error zero, quiet.inv zero⟩⟩
  unfold tty_read
  simp only
  split
  · rename_i ch rest _
    have taken {c' : Config} (next : Quiet { c with queue := rest, n := c.n + 1 } c') : c'.out = c.out ∧
        (c.u_error = 0 → c'.u_error ≠ EIO ∧ Inv c') :=
      ⟨next.out, fun zero => ⟨next.error zero, next.inv zero⟩⟩
    split
    · exact taken (quiet_finish _)
    · split
      · exact taken (quiet_finish _)
      · exact taken (quiet_pc _)
  · split
    · exact quiet (quiet_leave _ (by decide))
    · split
      · exact quiet (quiet_finish _)
      · exact quiet quiet_psleep

/-! ## Stopping -/

/-- A signal in the range of the loop that does not pass ends it, if no other does. -/
theorem scan_acts {q : Proc} {n j i : Nat} (left : Mask) (due : pending i = true)
    (ends : ¬ Passes q (svec + i) i) (low : j ≤ i) (high : i < j + n) :
    ∃ k, j ≤ k ∧ (scan q pending svec n j left).1 = Sched.verdict q (svec + k) k := by
  induction n generalizing j left with
  | zero => omega
  | succ n ih =>
    rcases Sched.round_cases q pending svec j with none | ⟨some, passes⟩ | ⟨some, last⟩
    · have other : j ≠ i := by
        rintro rfl
        rw [due] at none
        cases none
      rw [Sched.scan_skip none]
      obtain ⟨k, above, acts⟩ := ih (j := j + 1) _ (by omega) (by omega)
      exact ⟨k, by omega, acts⟩
    · have other : j ≠ i := by
        rintro rfl
        exact ends passes
      rw [Sched.scan_pass some passes]
      obtain ⟨k, above, acts⟩ := ih (j := j + 1) _ (by omega) (by omega)
      exact ⟨k, by omega, acts⟩
    · rw [Sched.scan_end some last]
      exact ⟨j, Nat.le_refl j, rfl⟩

/-- What `ssig` does to the process that calls it. -/
theorem ssig_me (running : s.me.status = .running) (range : sig = SIGTTIN ∨ sig = SIGTTOU)
    (heard : s.me.ignored sig = false) (free : s.me.held sig = false) :
    (Sched.ssig s s.cur sig).me = { s.me with
      wait := 0, pending := put (put s.me.pending SIGCONT false) sig true } := by
  have here : (s.ptab s.cur).status = .running := running
  have heard : (s.ptab s.cur).ignored sig = false := heard
  have free : (s.ptab s.cur).held sig = false := free
  have other : sig ≠ SIGCONT := by
    rcases range with same | same <;> rw [same] <;> decide
  have stops : Sched.SIGSTOP ≤ sig ∧ sig ≤ SIGTTOU := by
    rcases range with same | same <;> rw [same] <;> decide
  simp [Sched.ssig, here, other, stops, modifyProc, Sched.rouse, Sched.State.me, heard, free, put_same]

theorem verdict_cases (q : Proc) (entry k : Nat) : Sched.verdict q entry k = .stop k ∨
    Sched.verdict q entry k = .kill k ∨ Sched.verdict q entry k = .caught k := by
  unfold Sched.verdict
  split
  · split
    · exact Or.inl rfl
    · exact Or.inr (Or.inl rfl)
  · exact Or.inr (Or.inr rfl)

theorem noSignal_false (due : pending sig = true) (small : sig < NSIGS) : noSignal pending = false := by
  unfold noSignal
  rw [List.all_eq_false]
  exact ⟨sig, List.mem_range.mpr small, by simp [due]⟩

/-- What comes of a signal that is pending and does not pass. -/
theorem chksigs_acts (running : s.me.status ≠ .stopped) (due : pending sig = true) (low : 1 ≤ sig)
    (small : sig < NSIGS) (ends : ¬ Passes s.me (svec + sig) sig) :
    (∃ j, (chksigs s pending svec).1 = .stopped pending (svec + j)) ∨
      (chksigs s pending svec).1 = .killed ∨
      (∃ j, j ≠ 0 ∧ (chksigs s pending svec).1 = .returned j ∧ (chksigs s pending svec).2.me.cursig = j) := by
  by_cases ready : s.me.cursig = 0
  · have quiet : ¬ (s.me.cursig ≠ 0 ∨ noSignal pending = true ∨ s.me.status = .stopped) := by
      simp [ready, noSignal_false due small, running]
    obtain ⟨k, above, acts⟩ := scan_acts (n := NSIGS - 1) s.me.pending due ends low
      (by unfold NSIGS at small ⊢; omega)
    unfold chksigs
    rw [if_neg quiet]
    rcases verdict_cases s.me (svec + k) k with verdict | verdict | verdict
    · left
      simp only [acts, verdict]
      exact ⟨k, rfl⟩
    · right; left
      simp only [acts, verdict]
    · right; right
      simp only [acts, verdict]
      refine ⟨k, by omega, rfl, ?_⟩
      exact congrArg Proc.cursig (Sched.modifyProc_me _ _)
  · right; right
    refine ⟨s.me.cursig, ready, ?_⟩
    unfold chksigs
    rw [if_pos (Or.inl ready)]
    exact ⟨rfl, rfl⟩

theorem chksigs_stop {i : Nat} (running : s.me.status ≠ .stopped) (ready : s.me.cursig = 0)
    (due : noSignal pending = false)
    (stop : (scan s.me pending svec (NSIGS - 1) 1 s.me.pending).1 = .stop i) :
    (chksigs s pending svec).1 = .stopped pending (svec + i) ∧ (chksigs s pending svec).2.me.event = i := by
  unfold chksigs
  rw [if_neg (by simp [ready, due, running])]
  simp only [stop]
  exact ⟨trivial, congrArg Proc.event (Sched.modifyProc_me _ _)⟩

/-- If the process is stopped, by what. -/
theorem stop_of_chksigs {pending' : Mask} {svec' : Nat}
    (stopped : (chksigs s pending svec).1 = .stopped pending' svec') :
    s.me.cursig = 0 ∧ (scan s.me pending svec (NSIGS - 1) 1 s.me.pending).1 =
      .stop (chksigs s pending svec).2.me.event := by
  unfold chksigs at stopped ⊢
  split at stopped
  · cases stopped
  · rename_i quiet
    rw [not_or] at quiet
    rw [if_neg (by rw [not_or]; exact quiet)]
    refine ⟨not_not.mp quiet.1, ?_⟩
    cases verdict : (scan s.me pending svec (NSIGS - 1) 1 s.me.pending).1 with
    | nothing =>
      simp only [verdict] at stopped
      cases stopped
    | caught j =>
      simp only [verdict] at stopped
      cases stopped
    | kill j =>
      simp only [verdict] at stopped
      cases stopped
    | stop j =>
      simp only [verdict]
      congr 1
      symm
      exact congrArg Proc.event (Sched.modifyProc_me _ _)

/-- The process is stopped in the call of `chksigs` that it is in. -/
theorem stopped_signals {pending' : Mask} {svec' : Nat} {place' : Place}
    (stopped : (signals call c w place s pending svec).pc = .stopped pending' svec' place') :
    (chksigs s pending svec).1 = .stopped pending' svec' ∧ place' = place ∧
      (signals call c w place s pending svec).sched = (chksigs s pending svec).2 := by
  unfold signals at stopped ⊢
  simp only at stopped ⊢
  cases answer : (chksigs s pending svec).1 with
  | returned cursig =>
    simp only [answer] at stopped
    exfalso
    split at stopped
    · cases place with
      | jobop => cases stopped
      | io =>
        simp only [afterSignals] at stopped
        split at stopped <;> cases stopped
      | putc t chars =>
        simp only [afterSignals] at stopped
        split at stopped <;> cases stopped
    · cases place with
      | jobop =>
        simp only [interrupted, jobcontrol] at stopped
        split at stopped <;> cases stopped
      | io =>
        simp only [interrupted, sleepError] at stopped
        split at stopped <;> cases stopped
      | putc t chars => cases stopped
  | stopped pending svec =>
    simp only [answer] at stopped ⊢
    injection stopped with samePending sameSvec samePlace
    subst samePending sameSvec samePlace
    exact ⟨rfl, rfl, by trivial⟩
  | killed =>
    simp only [answer] at stopped
    cases stopped

/-- The process may take the stop at once. -/
theorem stops_of_posted (heard : ¬ Ignored w call.sig) : Stops call
    (signals call c w .jobop (Sched.ssig w.sched w.sched.cur call.sig)
      (unheld (Sched.ssig w.sched w.sched.cur call.sig).me) 0) w := by
  obtain ⟨low, small, stops, range⟩ := sig_range call
  unfold Ignored at heard
  rw [not_or, not_or, Bool.not_eq_true, Bool.not_eq_true] at heard
  obtain ⟨unignored, listens, free⟩ := heard
  have me := ssig_me w.running range unignored free
  generalize Sched.ssig w.sched w.sched.cur call.sig = s at me ⊢
  have running : s.me.status ≠ .stopped := by
    rw [me]
    simp [w.running]
  have due : unheld s.me call.sig = true := by
    rw [me]
    simp [unheld, free, put_same]
  have own : disposition s.me (0 + call.sig) = w.sched.me.sigvec call.sig := by
    rw [Sched.disposition_own small, me]
  have ends : ¬ Passes s.me (0 + call.sig) call.sig := by
    rintro (ign | ⟨_, unstopping, _⟩)
    · exact listens (own ▸ ign)
    · rw [stops] at unstopping
      cases unstopping
  constructor
  · unfold signals
    simp only
    rcases chksigs_acts running due low small ends with ⟨j, answer⟩ | answer | ⟨j, some, answer, taken⟩
    · left
      simp only [answer]
      exact ⟨_, _, rfl⟩
    · right; left
      simp only [answer]
    · right; right
      simp only [answer, if_neg some]
      simp only [interrupted, jobcontrol]
      split
      · exact ⟨rfl, rfl, by simp only [Config.leave]; rw [taken]; exact some⟩
      · exact ⟨rfl, rfl, by simp only [Config.leave]; rw [taken]; exact some⟩
  · intro ready default_ first
    have stop : (scan s.me (unheld s.me) 0 (NSIGS - 1) 1 s.me.pending).1 = .stop call.sig := by
      apply Sched.scan_stop.mpr
      refine ⟨⟨low, by unfold NSIGS at small ⊢; omega⟩, due, own.trans default_, stops, ?_⟩
      intro k above below pending
      exfalso
      rw [me] at pending
      by_cases cont : k = SIGCONT
      · have other : SIGCONT ≠ call.sig := by omega
        simp [unheld, cont, put_ne _ _ other, put_same] at pending
      · have unset := first k above below cont
        have other : k ≠ call.sig := by omega
        simp only [unheld, put_ne _ _ other, put_ne _ _ cont] at pending
        rw [unheld, pending] at unset
        cases unset
    have kept : s.me.cursig = 0 := by
      rw [me]
      exact ready
    obtain ⟨answer, event⟩ := chksigs_stop running kept (noSignal_false due small) stop
    unfold signals
    simp only [answer]
    exact ⟨⟨_, _, rfl⟩, event⟩

/-! ## One step -/

/-- The call in the world that it finds. -/
def Config.found (c : Config) (w : World) : Config := { c with sched := w.sched, queue := w.queue }

theorem step_loop (here : c.pc = .loop) : step call c w = loop call (c.found w) w := by
  unfold step
  simp only [here]
  rfl

theorem step_asleep (here : c.pc = .asleep) :
    step call c w = signals call (c.found w) w .io w.sched (unheld w.sched.me) 0 := by
  unfold step Config.found
  simp only [here]

theorem step_putc {chars : List Nat} (here : c.pc = .putc chars) :
    step call c w = tty_putc call (c.found w) w chars := by
  unfold step Config.found
  simp only [here]

theorem step_stopped (here : c.pc = .stopped pending svec place) :
    step call c w = signals call (c.found w) w place w.sched pending svec := by
  unfold step Config.found
  simp only [here]

theorem step_over (ended : c.Over) : step call c w = c.found w := by
  unfold step Config.found
  rcases ended with here | here <;> simp only [here]

theorem step_job (here : c.pc = .loop) (more : ¬ finished call c) :
    step call c w = match call.job w with
      | .proceed => goOn call (c.found w) w
      | .fail => jobcontrol (c.found w) EIO
      | .signal => signals call (c.found w) w .jobop (Sched.ssig w.sched w.sched.cur call.sig)
          (unheld (Sched.ssig w.sched w.sched.cur call.sig).me) 0 := by
  rw [step_loop here]
  exact if_neg more

theorem goOn_error (zero : c.u_error = 0) : (goOn call (c.found w) w).u_error ≠ EIO ∧
    Inv (goOn call (c.found w) w) := by
  unfold goOn
  split
  · exact write_kept.2 zero
  · exact read_kept.2 zero

/-- The call fails with EIO where `jobop` says so, but not on the first character. -/
theorem fails_iff (here : c.pc = .loop) (more : ¬ finished call c) (zero : c.u_error = 0) :
    ((step call c w).pc = .done ∧ (step call c w).u_error = EIO) ↔ call.job w = .fail ∧ c.n ≠ 0 := by
  rw [step_job here more]
  cases job : call.job w with
  | proceed =>
    simp only
    constructor
    · intro failed
      exact absurd failed.2 (goOn_error zero).1
    · rintro ⟨no, _⟩
      cases no
  | fail =>
    have same : (c.found w).n = c.n := rfl
    simp only [jobcontrol, same]
    by_cases first : c.n = 0
    · rw [if_pos first]
      simp [first, Config.leave, EINTR, EIO]
    · rw [if_neg first]
      simp [first, Config.leave]
  | signal =>
    simp only
    constructor
    · intro failed
      exact absurd failed.2 (quiet_signals.error zero)
    · rintro ⟨no, _⟩
      cases no

theorem step_inv (inv : Inv c) : Inv (step call c w) := by
  rcases inv with ended | zero
  · rw [step_over ended]
    exact Or.inl ended
  · have still {c' : Config} (quiet : Quiet (c.found w) c') : Inv c' := quiet.inv zero
    cases here : c.pc with
    | loop =>
      by_cases more : finished call c
      · rw [step_loop here, loop, if_pos (show finished call (c.found w) from more)]
        exact still (quiet_finish _)
      · rw [step_job here more]
        split
        · exact (goOn_error zero).2
        · unfold jobcontrol
          split
          · exact still (quiet_leave _ (by decide))
          · exact Or.inl (Or.inl rfl)
        · exact still quiet_signals
    | asleep =>
      rw [step_asleep here]
      exact still quiet_signals
    | putc chars =>
      rw [step_putc here]
      exact ((putc_kept (c := c.found w)).2 zero).2
    | stopped pending svec place =>
      rw [step_stopped here]
      exact still quiet_signals
    | done =>
      rw [step_over (Or.inl here)]
      exact Or.inl (Or.inl here)
    | exited =>
      rw [step_over (Or.inr here)]
      exact Or.inl (Or.inr here)

/-- Only the loop of a read takes a character, and only when `jobop` lets it. -/
theorem takes_loop (taken : (step call c w).queue ≠ w.queue) :
    c.pc = .loop ∧ ¬ finished call c ∧ call.write = false ∧ w.queue ≠ [] ∧ call.job w = .proceed := by
  have kept {c' : Config} (quiet : Quiet (c.found w) c') : c'.queue = w.queue := quiet.queue
  cases here : c.pc with
  | loop =>
    by_cases more : finished call c
    · rw [step_loop here, loop, if_pos (show finished call (c.found w) from more)] at taken
      exact absurd rfl taken
    · rw [step_job here more] at taken
      cases job : call.job w with
      | proceed =>
        simp only [job, goOn] at taken
        by_cases write : call.write = true
        · rw [if_pos write] at taken
          exact absurd write_kept.1 taken
        · rw [if_neg write] at taken
          refine ⟨rfl, more, Bool.not_eq_true _ ▸ write, ?_, rfl⟩
          intro empty
          apply taken
          unfold tty_read
          simp only [empty]
          split
          · exact empty
          · split
            · exact empty
            · exact (kept quiet_psleep).trans empty
      | fail =>
        simp only [job, jobcontrol] at taken
        split at taken <;> exact absurd rfl taken
      | signal =>
        simp only [job] at taken
        exact absurd (kept quiet_signals) taken
  | asleep =>
    rw [step_asleep here] at taken
    exact absurd (kept quiet_signals) taken
  | putc chars =>
    rw [step_putc here] at taken
    exact absurd putc_kept.1 taken
  | stopped pending svec place =>
    rw [step_stopped here] at taken
    exact absurd (kept quiet_signals) taken
  | done =>
    rw [step_over (Or.inl here)] at taken
    exact absurd rfl taken
  | exited =>
    rw [step_over (Or.inr here)] at taken
    exact absurd rfl taken

/-- A character is put out by the loop of a write, when `jobop` lets it and the terminal is
there, or once the device is ready. -/
theorem outputs_cases (put_ : (step call c w).out ≠ c.out) :
    (c.pc = .loop ∧ ¬ finished call c ∧ call.write = true ∧ w.tty.dead = false ∧ call.job w = .proceed) ∨
      ∃ chars, c.pc = .putc chars ∧ chars ≠ [] ∧ w.ready = .now := by
  have kept {c' : Config} (quiet : Quiet (c.found w) c') : c'.out = c.out := quiet.out
  cases here : c.pc with
  | loop =>
    by_cases more : finished call c
    · rw [step_loop here, loop, if_pos (show finished call (c.found w) from more)] at put_
      exact absurd rfl put_
    · rw [step_job here more] at put_
      cases job : call.job w with
      | proceed =>
        simp only [job, goOn] at put_
        by_cases write : call.write = true
        · rw [if_pos write] at put_
          refine Or.inl ⟨rfl, more, write, ?_, rfl⟩
          by_contra dead
          unfold tty_write at put_
          rw [if_pos (by simpa using dead)] at put_
          exact put_ rfl
        · rw [if_neg write] at put_
          exact absurd read_kept.1 put_
      | fail =>
        simp only [job, jobcontrol] at put_
        split at put_ <;> exact absurd rfl put_
      | signal =>
        simp only [job] at put_
        exact absurd (kept quiet_signals) put_
  | asleep =>
    rw [step_asleep here] at put_
    exact absurd (kept quiet_signals) put_
  | putc chars =>
    rw [step_putc here] at put_
    right
    refine ⟨chars, rfl, ?_, ?_⟩
    · rintro rfl
      exact put_ rfl
    · by_contra waits
      cases chars with
      | nil => exact put_ rfl
      | cons ch chars =>
        simp only [tty_putc, if_neg waits] at put_
        exact put_ (kept quiet_signals)
  | stopped pending svec place =>
    rw [step_stopped here] at put_
    exact absurd (kept quiet_signals) put_
  | done =>
    rw [step_over (Or.inl here)] at put_
    exact absurd rfl put_
  | exited =>
    rw [step_over (Or.inr here)] at put_
    exact absurd rfl put_

/-- In the background a read that may not go on is not let through, if the condition holds. -/
theorem clean_takes (clean : Clean call c w) (taken : (step call c w).queue ≠ w.queue) :
    ¬ Background call w := by
  intro back
  obtain ⟨here, more, read, some, job⟩ := takes_loop taken
  have controlled : Controlled call c w := by
    refine ⟨here, more, ?_, ?_⟩
    · intro write
      rw [read] at write
      cases write
    · rintro ⟨_, write | empty⟩
      · rw [read] at write
        cases write
      · exact some empty
  rw [job_background controlled back, sig_read read] at job
  split at job
  · cases job
  · rename_i unfailed
    split at job
    · rename_i ignores
      exact unfailed (Or.inr (clean.read read controlled back (Or.inl ignores.ignored)).1)
    · cases job

theorem clean_outputs (clean : Clean call c w) (out : (step call c w).out ≠ c.out)
    (tostop : w.tty.tostop = true) (back : Background call w) : Ignored w SIGTTOU := by
  rcases outputs_cases out with ⟨here, more, write, alive, job⟩ | ⟨chars, here, some, ready⟩
  · have controlled : Controlled call c w := by
      refine ⟨here, more, fun _ => tostop, ?_⟩
      rintro ⟨dead, _⟩
      rw [alive] at dead
      cases dead
    rw [job_background controlled back, sig_write write] at job
    split at job
    · cases job
    · split at job
      · rename_i ignores
        exact ignores.ignored
      · cases job
  · exact clean.putc chars here some ready tostop back

/-- The process comes back from a stop to the same stop. -/
theorem again_iff (here : c.pc = .stopped pending svec .jobop) :
    ((∃ pending svec, (step call c w).pc = .stopped pending svec .jobop) ∧
      (step call c w).sched.me.event = call.sig) ↔ Again w pending svec call.sig := by
  obtain ⟨low, small, stops, _⟩ := sig_range call
  have running : w.sched.me.status ≠ .stopped := by
    rw [w.running]
    decide
  rw [step_stopped here]
  constructor
  · rintro ⟨⟨pending', svec', stopped⟩, event⟩
    obtain ⟨answer, _, sched⟩ := stopped_signals stopped
    obtain ⟨ready, verdict⟩ := stop_of_chksigs answer
    rw [← sched, event] at verdict
    obtain ⟨_, due, default_, _, before⟩ := Sched.scan_stop.mp verdict
    exact ⟨ready, due, default_, before⟩
  · rintro ⟨ready, due, default_, before⟩
    have verdict : (scan w.sched.me pending svec (NSIGS - 1) 1 w.sched.me.pending).1 = .stop call.sig :=
      Sched.scan_stop.mpr ⟨⟨low, by unfold NSIGS at small ⊢; omega⟩, due, default_, stops, before⟩
    obtain ⟨answer, event⟩ := chksigs_stop running ready (noSignal_false due small) verdict
    unfold signals
    simp only [answer]
    exact ⟨⟨_, _, rfl⟩, event⟩

theorem Inv.zero (inv : Inv c) (controlled : Controlled call c w) : c.u_error = 0 := by
  rcases inv with (here | here) | zero
  · rw [controlled.1] at here
    cases here
  · rw [controlled.1] at here
    cases here
  · exact zero

theorem orphan_fails (controlled : Controlled call c w) (back : Background call w)
    (orphan : orphan_pgrp w w.sched.me.pgrp (w.session w.sched.cur)) : call.job w = .fail := by
  rw [job_background controlled back, if_pos (Or.inr orphan)]

/-- A read that is refused rightly is refused for the orphan, behind the first character. -/
theorem read_clean (inv : Inv c) (right : Right call c w) (read : call.write = false)
    (controlled : Controlled call c w) (back : Background call w) (refused : Ignored w SIGTTIN ∨ Orphaned w) :
    orphan_pgrp w w.sched.me.pgrp (w.session w.sched.cur) ∧ c.n ≠ 0 := by
  have failed := right.fails controlled back (by
    rw [sig_read read]
    by_cases ignored : Ignored w SIGTTIN
    · exact Or.inl ⟨read, ignored⟩
    · exact Or.inr ⟨ignored, refused.resolve_left ignored⟩)
  obtain ⟨job, some⟩ := (fails_iff controlled.1 controlled.2.1 (inv.zero controlled)).mp failed
  rw [job_background controlled back] at job
  refine ⟨?_, some⟩
  by_contra managed
  rw [if_neg (by simp [read, managed])] at job
  split at job <;> cases job

/-- A write that goes ahead with the signal ignored is not right here. -/
theorem write_heard (right : Right call c w) (write : call.write = true) (controlled : Controlled call c w)
    (back : Background call w) : ¬ Ignored w SIGTTOU := by
  intro ignored
  have job := right.goesAhead controlled back write ignored
  rw [job_background controlled back] at job
  split at job
  · cases job
  · rename_i unfailed
    split at job
    · rename_i ignores
      exact unfailed (Or.inl ⟨ignores, write⟩)
    · cases job

theorem write_clean (inv : Inv c) (right : Right call c w) (write : call.write = true)
    (controlled : Controlled call c w) (back : Background call w) (orphaned : Orphaned w) :
    orphan_pgrp w w.sched.me.pgrp (w.session w.sched.cur) ∧ c.n ≠ 0 := by
  have heard := write_heard right write controlled back
  have failed := right.fails controlled back (Or.inr ⟨by rw [sig_write write]; exact heard, orphaned⟩)
  obtain ⟨job, some⟩ := (fails_iff controlled.1 controlled.2.1 (inv.zero controlled)).mp failed
  rw [job_background controlled back] at job
  refine ⟨?_, some⟩
  by_contra managed
  have listens : ¬ Ignores w call.sig := by
    rw [sig_write write]
    exact fun ignores => heard ignores.ignored
  rw [if_neg (by simp [listens, managed]), if_neg listens] at job
  cases job

theorem clean_fails (inv : Inv c) (clean : Clean call c w) (controlled : Controlled call c w)
    (back : Background call w) (refused : call.write = false ∧ Ignored w SIGTTIN ∨
      ¬ Ignored w call.sig ∧ Orphaned w) : (step call c w).pc = .done ∧ (step call c w).u_error = EIO := by
  apply (fails_iff controlled.1 controlled.2.1 (inv.zero controlled)).mpr
  have orphan : orphan_pgrp w w.sched.me.pgrp (w.session w.sched.cur) ∧ c.n ≠ 0 := by
    by_cases write : call.write = true
    · rcases refused with ⟨read, _⟩ | ⟨_, orphaned⟩
      · rw [write] at read
        cases read
      · exact (clean.write write controlled back).2 orphaned
    · have read : call.write = false := Bool.not_eq_true _ ▸ write
      apply clean.read read controlled back
      rcases refused with ⟨_, ignored⟩ | ⟨_, orphaned⟩
      · exact Or.inl ignored
      · exact Or.inr orphaned
  exact ⟨orphan_fails controlled back orphan.1, orphan.2⟩

/-- A step is right if and only if it is clean. -/
theorem right_iff_clean (inv : Inv c) : Right call c w ↔ Clean call c w := by
  constructor
  · intro right
    constructor
    · exact read_clean inv right
    · intro write controlled back
      exact ⟨write_heard right write controlled back, write_clean inv right write controlled back⟩
    · intro pending svec here unstoppable again
      obtain ⟨stopped, event⟩ := (again_iff here).mpr again
      exact unstoppable (right.resumed pending svec here stopped event)
    · intro chars here some ready tostop back
      apply right.outputs _ tostop back
      rw [step_putc here]
      cases chars with
      | nil => exact absurd rfl some
      | cons ch chars =>
        simp only [tty_putc, if_pos ready]
        split <;> simp [Config.found]
  · intro clean
    constructor
    · exact clean_takes clean
    · exact clean_outputs clean
    · intro controlled back write ignored
      exact absurd ignored (clean.write write controlled back).1
    · exact clean_fails inv clean
    · rintro controlled ⟨back, heard, managed⟩
      have job : call.job w = .signal := by
        have listens : ¬ Ignores w call.sig := fun ignores => heard ignores.ignored
        rw [job_background controlled back, if_neg (by simp [listens, orphan_of_managed managed]),
          if_neg listens]
      rw [step_job controlled.1 controlled.2.1, job]
      exact stops_of_posted heard
    · exact job_foreground
    · intro pending svec here stopped event
      by_contra unstoppable
      exact clean.resumed pending svec here unstoppable ((again_iff here).mp ⟨stopped, event⟩)

/-! ## Every run -/

/-- Every step of a call is right if and only if every step is clean. -/
theorem jobcontrol_kept (call : Call) (data : List Nat) (w : World) (run : List World) :
    Throughout (step call) (Right call) (enter data w) run ↔
      Throughout (step call) (Clean call) (enter data w) run := by
  apply throughout_iff (I := Inv)
  · intro c w inv _
    exact step_inv inv
  · intro c w inv
    exact right_iff_clean inv
  · exact Or.inr rfl

end

/-! ## A read that ignores the signal -/

instance shellMachine : Machine := ⟨21, fun _ => .dfl, by decide⟩

/-- A process of group `p + 1` whose parent is in the slot before. -/
def member (p : Nat) : Proc where
  status := .ready
  pid := p + 1
  pgrp := p + 1
  parent := p - 1
  wait := 0
  pending := fun _ => false
  held := fun _ => false
  ignored := fun _ => false
  event := 0
  sigvec := fun _ => .dfl
  cursig := 0
  frames := []

/-- The process in slot 2 runs. It ignores `SIGTTIN`. -/
def reader : Sched.State where
  ptab := fun p => if p = 2 then { member 2 with
      status := .running, ignored := fun j => j = SIGTTIN
      sigvec := fun j => if j = SIGTTIN then .ign else .dfl } else member p
  nready := 1
  cur := 2
  nextp := 2
  phase := .user

/-- The shell in slot 1 has the terminal, where a character has been typed. -/
def typed : World where
  sched := reader
  running := rfl
  session := fun _ => 1
  p_tty := 1
  p_timeout := 0
  tty := ⟨2, false, false, false, true, false, true, true, 0, 0, 4, 0⟩
  queue := [65]
  ready := .now

theorem background_reads : ¬ Throughout (step ⟨false, 1, false, 1⟩) (Right ⟨false, 1, false, 1⟩)
    (enter [] typed) [typed] := by
  rintro ⟨right, _⟩
  apply right.takes
  · decide
  · exact ⟨by decide, by decide, rfl⟩

end Jobcontrol
