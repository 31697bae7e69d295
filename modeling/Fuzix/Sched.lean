import Fuzix.Lib.Table

/-!
# Scheduling and signals

The process table of process.c and the switch of platform-zeta-v2/tricks.s. A step
is a stretch of code between two points where an interrupt can come; what a process
has still to do inside a nested `switchout` is kept in its list of frames. Memory,
files, accounting and the stack of the interrupt handler are left out.
-/

namespace Sched

open Table

def NSIGS : Nat := 32
def SIGHUP : Nat := 1
def SIGKILL : Nat := 9
def SIGCHLD : Nat := 17
def SIGCONT : Nat := 18
def SIGSTOP : Nat := 19
def SIGTSTP : Nat := 20
def SIGTTIN : Nat := 21
def SIGTTOU : Nat := 22
def SIGURG : Nat := 23
def SIGWINCH : Nat := 28
def SIGIO : Nat := 29

/-- The mask `stopper` of `chksigs`. -/
def stopper (sig : Nat) : Bool :=
  sig = SIGSTOP ∨ sig = SIGTTIN ∨ sig = SIGTTOU ∨ sig = SIGTSTP

/-- The mask `clear` of `chksigs`. -/
def clear (sig : Nat) : Bool :=
  stopper sig ∨ sig = SIGCHLD ∨ sig = SIGURG ∨ sig = SIGWINCH ∨ sig = SIGIO ∨ sig = SIGCONT

inductive Status where
  | empty
  | running
  | ready
  | sleep
  | stopped
  | forking
  | zombie
  | nosleep
deriving DecidableEq

/-- An entry of `u_sigvec`. -/
inductive Disp where
  | dfl
  | ign
  | handler
deriving DecidableEq

abbrev Mask := Nat → Bool

/-- Where a process goes on: in `chksigs` behind the call of `switchout` for a stop,
with the local copy of the pending signals and the place of `svec`, or in
`switchout` behind the call of `chksigs`. -/
inductive Frame where
  | rescan (pending : Mask) (svec : Nat)
  | switch

/-- A process table entry with what its `udata` adds. -/
structure Proc where
  status : Status
  pid : Nat
  pgrp : Nat
  parent : Nat
  wait : Nat
  pending : Mask
  held : Mask
  ignored : Mask
  event : Nat
  sigvec : Nat → Disp
  cursig : Nat
  frames : List Frame

/-- What the processor is doing: code of the running process, `_execve` while it must
not sleep, the entry of `switchout`, `chksigs` behind a stop, the loop of `getproc`,
and `doexit` before and behind its signals. -/
inductive Phase where
  | user
  | exec
  | switchout
  | rescan (pending : Mask) (svec : Nat)
  | getproc
  | doexit
  | exited

structure State where
  ptab : Nat → Proc
  nready : Nat
  cur : Nat
  nextp : Nat
  phase : Phase

inductive Panic where
  | voodoo
  | getproc
  | killedInit
deriving DecidableEq

class Machine where
  PTABSIZE : Nat
  /-- What `chksigs` takes for a disposition behind the end of `u_sigvec`. -/
  beyond : Nat → Disp
  tableBound : PTABSIZE < 256

export Machine (PTABSIZE)

def State.me (s : State) : Proc := s.ptab s.cur

def modifyProc (s : State) (p : Nat) (f : Proc → Proc) : State :=
  { s with ptab := put s.ptab p (f (s.ptab p)) }

def setStatus (s : State) (p : Nat) (status : Status) : State :=
  modifyProc s p (fun q => { q with status := status })

def State.more (s : State) : State := { s with nready := (s.nready + 1) % 256 }

def State.less (s : State) : State := { s with nready := (s.nready + 255) % 256 }

variable [Machine]

/-- `for (p = ptab; p < ptab_end; ++p)`, the first `n` rounds. -/
def forProcs (f : State → Nat → State) : Nat → State → State
  | 0, s => s
  | n + 1, s => f (forProcs f n s) n

/-! ## Waking up -/

def pwake (s : State) (p : Nat) : State :=
  match (s.ptab p).status with
  | .sleep => modifyProc s.more p (fun q => { q with status := .ready, wait := 0 })
  | .ready => modifyProc s p (fun q => { q with wait := 0 })
  | _ => s

/-- `p_status > P_RUNNING`. -/
def parked (status : Status) : Bool := status ≠ .empty ∧ status ≠ .running

def wakeup (event : Nat) (s : State) : State :=
  forProcs (fun s p =>
    if parked (s.ptab p).status ∧ (s.ptab p).wait = event then pwake s p else s) PTABSIZE s

/-- The event is the address of a process table entry. -/
def ptabEvent (p : Nat) : Nat := p + 1

/-! ## Posting a signal -/

/-- What `SIGCONT` does to a process even if it ignores it. -/
def cont (s : State) (p : Nat) : State :=
  let s := if (s.ptab p).status = .stopped
    then modifyProc s.more p (fun q => { q with status := .ready, event := 0 }) else s
  modifyProc s p (fun q => { q with pending := fun j => q.pending j && !stopper j })

/-- A signal that is not held ends a sleep. -/
def rouse (s : State) (p : Nat) : State :=
  let s := if (s.ptab p).status = .sleep then setStatus s.more p .ready else s
  modifyProc s p (fun q => { q with wait := 0 })

def ssig (s : State) (p sig : Nat) : State :=
  if (s.ptab p).status = .empty then s
  else
    let s := if sig = SIGCONT then cont s p else s
    let s := if SIGSTOP ≤ sig ∧ sig ≤ SIGTTOU
      then modifyProc s p (fun q => { q with pending := put q.pending SIGCONT false }) else s
    if (s.ptab p).ignored sig then s
    else
      let s := if (s.ptab p).held sig then s else rouse s p
      modifyProc s p (fun q => { q with pending := put q.pending sig true })

/-! ## Taking signals -/

inductive Verdict where
  | nothing
  | caught (sig : Nat)
  | stop (sig : Nat)
  | kill (sig : Nat)
deriving DecidableEq

/-- `*svec`. -/
def disposition (q : Proc) (k : Nat) : Disp :=
  if k < NSIGS then q.sigvec k else Machine.beyond k

/-- The loop of `chksigs` from signal `j` on; `svec` is where the pointer stood before
the loop. The second answer is what is left in `p_pending`. -/
def scan (q : Proc) (pending : Mask) (svec : Nat) : Nat → Nat → Mask → Verdict × Mask
  | 0, _, left => (.nothing, left)
  | n + 1, j, left =>
    if pending j = false then scan q pending svec n (j + 1) left
    else
      match disposition q (svec + j) with
      | .dfl =>
        if stopper j then (.stop j, put left j false)
        else if clear j ∨ q.pid = 1 then scan q pending svec n (j + 1) (put left j false)
        else (.kill j, put left j false)
      | .handler => (.caught j, put left j false)
      | .ign => scan q pending svec n (j + 1) left

/-- `chksigs` returns to `switchout` or to the code of the process. -/
def leaveChksigs (s : State) : State :=
  match s.me.frames with
  | .switch :: rest =>
    { modifyProc s s.cur (fun q => { q with frames := rest }) with phase := .getproc }
  | _ => { s with phase := .user }

def noSignal (pending : Mask) : Bool := (List.range NSIGS).all (fun j => pending j = false)

/-- `chksigs` at the label `rescan`. -/
def chksigs (s : State) (pending : Mask) (svec : Nat) : State :=
  if s.me.cursig ≠ 0 ∨ noSignal pending ∨ s.me.status = .stopped then leaveChksigs s
  else
    let (verdict, left) := scan s.me pending svec (NSIGS - 1) 1 s.me.pending
    let s := modifyProc s s.cur (fun q => { q with pending := left })
    match verdict with
    | .nothing => leaveChksigs s
    | .caught j => leaveChksigs (modifyProc s s.cur (fun q => { q with cursig := j }))
    | .stop j =>
      { modifyProc s.less s.cur (fun q => { q with
          status := .stopped
          event := j
          frames := .rescan pending (svec + j) :: q.frames }) with phase := .switchout }
    | .kill _ =>
      let s := if s.me.status = .sleep then setStatus s.more s.cur .running else s
      { s with phase := .doexit }

/-- `p_pending & ~p_held`. -/
def unheld (q : Proc) : Mask := fun j => q.pending j && !q.held j

/-- `switchout` up to the return of `chksigs`. -/
def switchout (s : State) : State :=
  let s := modifyProc s s.cur (fun q => { q with frames := .switch :: q.frames })
  chksigs s (unheld s.me) 0

/-! ## Switching -/

/-- The process goes on where it called `switchout`. -/
def switchin (s : State) (p : Nat) : State :=
  let s := setStatus { s with cur := p } p .running
  match (s.ptab p).frames with
  | .rescan pending svec :: rest =>
    { modifyProc s p (fun q => { q with frames := rest }) with phase := .rescan pending svec }
  | _ => { s with phase := .user }

/-- One round of the loop of `getproc`, and `switchin` with the process it returns. -/
def getproc (s : State) : Except Panic State :=
  let next := if s.nextp + 1 < PTABSIZE then s.nextp + 1 else 0
  let s := { s with nextp := next }
  match (s.ptab next).status with
  | .running => throw .getproc
  | .ready => return switchin s next
  | _ => return s

def psleep (event : Nat) (s : State) : Except Panic State :=
  let asleep (s : State) : State :=
    { modifyProc s.less s.cur (fun q => { q with status := .sleep, wait := event }) with
      phase := .switchout }
  match s.me.status with
  | .sleep => return asleep s.more
  | .stopped => return asleep s.more
  | .running => return asleep s
  | _ => throw .voodoo

def schedYield (s : State) : State :=
  if 1 < s.nready then { s with phase := .switchout } else s

/-- The end of a system call or a clock interrupt, when the time is up. -/
def preempt (s : State) : State :=
  if 1 < s.nready then { setStatus s s.cur .ready with phase := .switchout } else s

/-! ## fork, exec, exit, wait -/

/-- What `ptab_alloc` makes of a free entry. -/
def blank (pid pgrp : Nat) : Proc where
  status := .empty
  pid := pid
  pgrp := pgrp
  parent := 0
  wait := 0
  pending := fun _ => false
  held := fun _ => false
  ignored := fun _ => false
  event := 0
  sigvec := fun _ => .dfl
  cursig := 0
  frames := []

/-- What `newproc` makes of it; the handlers come with the copy of `udata`. -/
def newproc (entry parent : Proc) (me : Nat) : Proc :=
  { entry with
    status := .running
    parent := me
    ignored := parent.ignored
    sigvec := parent.sigvec }

def freeSlot (s : State) : Option Nat :=
  (List.range PTABSIZE).find? (fun p => (s.ptab p).status = .empty)

/-- The flags are set when there is memory and when `dofork` could copy it. The child
runs first. -/
def fork (pid : Nat) (memory copied : Bool) (s : State) : State :=
  match freeSlot s with
  | none => s
  | some p =>
    let entry := blank pid s.me.pgrp
    if memory = false then modifyProc s p (fun _ => { entry with pgrp := 0 })
    else if copied then
      let child := newproc entry s.me s.cur
      { modifyProc (setStatus s.more s.cur .ready) p (fun _ => child) with cur := p }
    else modifyProc s.less p (fun _ => entry)

def execBegin (s : State) : State := { setStatus s s.cur .nosleep with phase := .exec }

/-- Once the program is loaded no signal is caught any more. -/
def execEnd (loaded : Bool) (s : State) : State :=
  { modifyProc s s.cur (fun q => { q with
      status := .running
      sigvec := if loaded then fun _ => .dfl else q.sigvec }) with phase := .user }

/-- One round of `doexit` over the process table. -/
def leaveFamily (s : State) (p : Nat) : State :=
  if (s.ptab p).status = .empty ∨ p = s.cur then s
  else
    let s := if (s.ptab p).parent = s.cur then
        let s := modifyProc s p (fun q => { q with parent := 0 })
        if (s.ptab 0).ignored SIGCHLD then setStatus s p .empty
        else wakeup (ptabEvent 0) (ssig s 0 SIGCHLD)
      else s
    if (s.ptab p).pgrp = s.me.pid then
      ssig (ssig (modifyProc s p (fun q => { q with pgrp := 0 })) p SIGHUP) p SIGCONT
    else s

def doexit (s : State) : Except Panic State :=
  if s.me.pid = 1 then throw .killedInit
  else
    let s := modifyProc s s.cur (fun q => { q with held := fun _ => true, cursig := 0 })
    return { forProcs leaveFamily PTABSIZE s with phase := .exited }

/-- `signal_parent` and the switch to another process. -/
def endProcess (s : State) : State :=
  let parent := s.me.parent
  let s := if (s.ptab parent).ignored SIGCHLD then setStatus s s.cur .empty
    else setStatus (wakeup (ptabEvent parent) (ssig s parent SIGCHLD)) s.cur .zombie
  { s.less with phase := .getproc }

/-! ## Runs -/

inductive Action where
  | psleep (event : Nat)
  | schedYield
  | preempt
  | chksigs
  | deliver
  | signal (sig : Nat) (func : Disp)
  | sigdisp (sig : Nat) (hold : Bool)
  | setpgrp
  | fork (pid : Nat) (memory copied : Bool)
  | reap (p : Nat)
  | execBegin
  | execEnd (loaded : Bool)
  | exit
  | go
  | ssig (p sig : Nat)
  | wakeup (event : Nat)
  | pwake (p : Nat)

/-- `_signal`. -/
def setHandler (sig : Nat) (func : Disp) (q : Proc) : Proc :=
  { q with
    ignored := if func = .ign ∧ (sig = SIGKILL ∨ sig = SIGSTOP) then q.ignored
      else put q.ignored sig (decide (func = .ign))
    sigvec := if sig = SIGKILL ∨ sig = SIGSTOP then q.sigvec else put q.sigvec sig func
    cursig := 0 }

/-- A signal handler is called: `u_cursig` and its entry of `u_sigvec` are cleared. -/
def callHandler (q : Proc) : Proc :=
  if q.cursig = 0 then q
  else { q with cursig := 0, sigvec := put q.sigvec q.cursig .dfl }

/-- The process, the processor or an interrupt may do this now. -/
def Action.enabled (s : State) : Action → Prop
  | .go => s.phase ≠ .user ∧ s.phase ≠ .exec
  | .execEnd _ => s.phase = .exec
  | .ssig p sig => p < PTABSIZE ∧ 0 < sig ∧ sig < NSIGS
  | .wakeup _ => True
  | .pwake p => p < PTABSIZE
  | .signal sig _ => s.phase = .user ∧ 0 < sig ∧ sig < NSIGS
  | .sigdisp sig _ => s.phase = .user ∧ 0 < sig ∧ sig < NSIGS ∧ sig ≠ SIGKILL ∧ sig ≠ SIGSTOP
  | .reap p => s.phase = .user ∧ p < PTABSIZE ∧ (s.ptab p).status = .zombie ∧
      (s.ptab p).parent = s.cur
  | .fork pid _ _ => s.phase = .user ∧ 1 < pid
  | _ => s.phase = .user

/-- What the processor does next by itself. -/
def advance (s : State) : Except Panic State :=
  match s.phase with
  | .switchout => return switchout s
  | .rescan pending svec => return chksigs s pending svec
  | .getproc => getproc s
  | .doexit => doexit s
  | .exited => return endProcess s
  | _ => return s

def Action.run (s : State) : Action → Except Panic State
  | .psleep event => Sched.psleep event s
  | .schedYield => return Sched.schedYield s
  | .preempt => return Sched.preempt s
  | .chksigs => return Sched.chksigs s (unheld s.me) 0
  | .deliver => return modifyProc s s.cur callHandler
  | .signal sig func => return modifyProc s s.cur (setHandler sig func)
  | .sigdisp sig hold => return modifyProc s s.cur (fun q => { q with
      held := put q.held sig hold
      cursig := 0 })
  | .setpgrp => return modifyProc s s.cur (fun q => { q with pgrp := q.pid })
  | .fork pid memory copied => return Sched.fork pid memory copied s
  | .reap p => return setStatus s p .empty
  | .execBegin => return Sched.execBegin s
  | .execEnd loaded => return Sched.execEnd loaded s
  | .exit => return { s with phase := .doexit }
  | .go => advance s
  | .ssig p sig => return Sched.ssig s p sig
  | .wakeup event => return Sched.wakeup event s
  | .pwake p => return Sched.pwake s p

end Sched
