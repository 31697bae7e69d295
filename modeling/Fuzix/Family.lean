import Fuzix.Sched
import Fuzix.Lib.Run

/-!
# Process families

Fork, exit and wait on the process table of process.c, and whatever else writes to an
entry in between. Signals are words here: `doexit` leaves the times of the process on
top of its priority and its pending signals. Signals that the process takes itself in
`chksigs` are taken in any order. The count of ready processes, swapping, the memory
behind the pages and the null pointer that `ptab_alloc` writes through when it finds no
memory are left out. The pages are those of bankfixed.c.
-/

namespace Family

open Table
open Sched (Status NSIGS SIGHUP SIGKILL SIGCHLD SIGCONT SIGSTOP SIGTSTP SIGTTIN SIGTTOU stopper)

abbrev Half := BitVec 16
abbrev Word := BitVec 32

def MAXPID : Nat := 32000
def MAXTICKS : Int := 10
def SIGALRM : Nat := 14
def EINTR : Nat := 4
def ECHILD : Nat := 10
def WSTOPPED : Nat := 255

class Machine where
  PTABSIZE : Nat
  ticks_per_dsecond : Nat
  /-- One more than the largest `uarg_t`. -/
  uargSize : Nat
  littleEndian : Bool
  /-- Where the compiler puts `p_pending`, in units of two bytes from `p_priority`. -/
  pendingAt : Nat
  aligned : pendingAt = 1 ∨ pendingAt = 2
  tableBound : PTABSIZE < 256

export Machine (PTABSIZE ticks_per_dsecond uargSize littleEndian pendingAt)

/-- An entry of the process table. `area` is the memory from `p_priority` to the end of
`p_ignored`, in units of two bytes. -/
structure Entry where
  status : Status
  pid : Nat
  pptr : Nat
  alarm : Nat
  exitval : Half
  wait : Nat
  page : Nat
  area : Nat → Half
  held : Word
  timeout : Nat
  pgrp : Nat
  nice : Int
  event : Nat

structure Udata where
  utime : Word
  stime : Word
  cutime : Word
  cstime : Word
  files : Nat → Option Nat

/-- `exiting` says that the running process is in `doexit` behind its signals. -/
structure State where
  ptab : Nat → Entry
  udata : Nat → Udata
  cur : Nat
  nproc : Nat
  nextpid : Nat
  ticks_this_dsecond : Nat
  pfree : List Nat
  exiting : Bool

def State.me (s : State) : Entry := s.ptab s.cur

def modify (s : State) (p : Nat) (f : Entry → Entry) : State :=
  { s with ptab := put s.ptab p (f (s.ptab p)) }

def modifyUdata (s : State) (p : Nat) (f : Udata → Udata) : State :=
  { s with udata := put s.udata p (f (s.udata p)) }

variable [Machine]

/-! ## The end of an entry -/

def low (w : Word) : Half := w.extractLsb' 0 16

def high (w : Word) : Half := w.extractLsb' 16 16

def long (area : Nat → Half) (k : Nat) : Word :=
  if littleEndian then area (k + 1) ++ area k else area k ++ area (k + 1)

def setLong (area : Nat → Half) (k : Nat) (w : Word) : Nat → Half :=
  if littleEndian then put (put area k (low w)) (k + 1) (high w)
  else put (put area k (high w)) (k + 1) (low w)

def Entry.priority (q : Entry) : Half := q.area 0

def Entry.pending (q : Entry) : Word := long q.area pendingAt

def Entry.ignored (q : Entry) : Word := long q.area (pendingAt + 2)

def Entry.setPending (q : Entry) (w : Word) : Entry :=
  { q with area := setLong q.area pendingAt w }

def Entry.setIgnored (q : Entry) (w : Word) : Entry :=
  { q with area := setLong q.area (pendingAt + 2) w }

/-- `memcpy(&p_priority, &u_utime, 2 * sizeof(clock_t))` -/
def Entry.setTimes (q : Entry) (utime stime : Word) : Entry :=
  { q with area := setLong (setLong q.area 0 utime) 2 stime }

/-- `((clock_t *)&p_priority)[0]` -/
def Entry.utime (q : Entry) : Word := long q.area 0

/-- `((clock_t *)&p_priority)[1]` -/
def Entry.stime (q : Entry) : Word := long q.area 2

/-! ## Signals and wakeups -/

def sigmask (sig : Nat) : Word := 1#32 <<< sig

def stops : Word := sigmask SIGSTOP ||| sigmask SIGTTIN ||| sigmask SIGTTOU ||| sigmask SIGTSTP

/-- The bit of the signal is set. -/
def has (w : Word) (sig : Nat) : Prop := w &&& sigmask sig ≠ 0

instance (w : Word) (sig : Nat) : Decidable (has w sig) := by unfold has; infer_instance

/-- What `SIGCONT` does to a process even if it ignores it. -/
def cont (q : Entry) : Entry :=
  let q := if q.status = .stopped then { q with status := .ready, event := 0 } else q
  q.setPending (q.pending &&& ~~~ stops)

/-- A signal that is not held ends a sleep. -/
def rouse (q : Entry) : Entry :=
  { q with status := if q.status = .sleep then .ready else q.status, wait := 0 }

def ssig (sig : Nat) (q : Entry) : Entry :=
  if q.status = .empty then q
  else
    let q := if sig = SIGCONT then cont q else q
    let q := if SIGSTOP ≤ sig ∧ sig ≤ SIGTTOU
      then q.setPending (q.pending &&& ~~~ sigmask SIGCONT) else q
    if has q.ignored sig then q
    else
      let q := if has q.held sig then q else rouse q
      q.setPending (q.pending ||| sigmask sig)

def pwake (q : Entry) : Entry :=
  match q.status with
  | .sleep => { q with status := .ready, wait := 0 }
  | .ready => { q with wait := 0 }
  | _ => q

/-- A loop over the table that changes each entry by itself. -/
def eachProc (f : Nat → Entry → Entry) (s : State) : State :=
  { s with ptab := fun p => if p < PTABSIZE then f p (s.ptab p) else s.ptab p }

def wakeup (event : Nat) (s : State) : State :=
  eachProc (fun _ q => if Sched.parked q.status ∧ q.wait = event then pwake q else q) s

/-- The event is the address of a process table entry. -/
def ptabEvent (p : Nat) : Nat := p + 1

def sgrpsig (pgrp sig : Nat) (s : State) : State :=
  eachProc (fun _ q => if pgrp ≠ 0 ∧ q.pgrp = pgrp then ssig sig q else q) s

/-- The entries that `_kill` sends the signal to. `allowed` is `can_signal`. -/
def targets (s : State) (pid : Int) (allowed : Nat → Bool) : List Nat :=
  let pid := if pid = 0 then -(s.me.pgrp : Int) else pid
  let found := (List.range PTABSIZE).filter (fun p =>
    (-((s.ptab p).pgrp : Int) = pid ∨ ((s.ptab p).pid : Int) = pid) ∧ allowed p)
  if 0 < pid then found.take 1 else found

def kill (pid : Int) (sig : Nat) (allowed : Nat → Bool) (s : State) : State :=
  if sig = 0 then s
  else eachProc (fun p q => if p ∈ targets s pid allowed then ssig sig q else q) s

/-! ## The clock -/

def alarms (q : Entry) : Entry :=
  if q.alarm = 0 then q
  else if q.alarm = 1 then ssig SIGALRM { q with alarm := 0 }
  else { q with alarm := q.alarm - 1 }

def timeouts (q : Entry) : Entry :=
  if 1 < q.timeout then
    let q := { q with timeout := q.timeout - 1 }
    if q.timeout = 1 then pwake q else q
  else q

/-- The running process pays for the tick. -/
def charge (insys : Bool) (s : State) : State :=
  if s.me.status = .running then
    modifyUdata s s.cur (fun u =>
      if insys then { u with stime := u.stime + 1 } else { u with utime := u.utime + 1 })
  else s

/-- The alarm clocks and the timeouts run once in a tenth of a second. -/
def timer_interrupt (insys : Bool) (s : State) : State :=
  let s := charge insys s
  if s.ticks_this_dsecond + 1 = ticks_per_dsecond then
    eachProc (fun _ q => timeouts (alarms q)) { s with ticks_this_dsecond := 0 }
  else { s with ticks_this_dsecond := s.ticks_this_dsecond + 1 }

/-! ## fork -/

def freeSlot (s : State) : Option Nat :=
  (List.range PTABSIZE).find? (fun p => (s.ptab p).status = .empty)

def nextPid (n : Nat) : Nat := if MAXPID < n then 20 else n + 1

/-- No other entry has the number. -/
def fresh (s : State) (n : Nat) : Prop :=
  n ≠ 0 ∧ ∀ p < PTABSIZE, (s.ptab p).status ≠ .empty → (s.ptab p).pid ≠ n

instance (s : State) (n : Nat) : Decidable (fresh s n) := by unfold fresh; infer_instance

/-- The loop that picks a number, after at most `fuel` rounds. -/
def pickPid (s : State) : Nat → Nat → Option Nat
  | 0, _ => none
  | fuel + 1, n => if fresh s (nextPid n) then some (nextPid n) else pickPid s fuel (nextPid n)

/-- `memset` and the fields that `ptab_alloc` sets. The null pointer to the parent is no
entry of the table. -/
def blank (pid pgrp page : Nat) : Entry where
  status := .forking
  pid := pid
  pptr := PTABSIZE
  alarm := 0
  exitval := 0
  wait := 0
  page := page
  area := fun _ => 0
  held := 0
  timeout := 0
  pgrp := pgrp
  nice := 0
  event := 0

def ptab_alloc (s : State) : Option (State × Option Nat) :=
  match freeSlot s with
  | none => some (s, none)
  | some p =>
    (pickPid s (PTABSIZE + 1) s.nextpid).map fun pid =>
      match s.pfree with
      | [] => ({ s with
          nextpid := pid
          ptab := put s.ptab p { blank pid 0 0 with status := .empty } }, none)
      | page :: rest => ({ s with
          nextpid := pid
          pfree := rest
          nproc := (s.nproc + 1) % 65536
          ptab := put s.ptab p (blank pid s.me.pgrp page) }, some p)

def pagemap_free (p : Nat) (s : State) : State := { s with pfree := (s.ptab p).page :: s.pfree }

/-- The child runs with a copy of the `udata` of its parent. -/
def newproc (p : Nat) (s : State) : State :=
  let s := modify s p (fun q => { q with
    status := .running
    pptr := s.cur }.setIgnored s.me.ignored)
  let s := modify s p (fun q => { q with area := put q.area 0 (BitVec.ofInt 16 MAXTICKS) })
  { s with
    udata := put s.udata p { s.udata s.cur with utime := 0, stime := 0, cutime := 0, cstime := 0 }
    cur := p }

/-- `copied` says whether `dofork` could copy the memory of the parent. -/
def fork (copied : Bool) (s : State) : Option State :=
  (ptab_alloc s).map fun (s, new_process) =>
    match new_process with
    | none => s
    | some p =>
      let s := modify s s.cur (fun q => { q with status := .ready })
      if copied then newproc p s
      else
        let s := modify s s.cur (fun q => { q with status := .running })
        let s := modify (pagemap_free p s) p (fun q => { q with status := .empty })
        { s with nproc := (s.nproc + 65535) % 65536 }

/-! ## exit -/

/-- `SIGCHLD` and the wakeup for the parent `p`. -/
def tell (p : Nat) (s : State) : State := wakeup (ptabEvent p) (modify s p (ssig SIGCHLD))

/-- A child of the process that exits gets init for its parent, or no parent at all. -/
def orphan (s : State) (p : Nat) : State :=
  if (s.ptab p).pptr = s.cur then
    let s := modify s p (fun q => { q with pptr := 0 })
    if has (s.ptab 0).ignored SIGCHLD then modify s p (fun q => { q with status := .empty })
    else tell 0 s
  else s

/-- A member of the process group of the process that exits leaves it. -/
def hangup (s : State) (p : Nat) : State :=
  if (s.ptab p).pgrp = s.me.pid then
    modify s p (fun q => ssig SIGCONT (ssig SIGHUP { q with pgrp := 0 }))
  else s

/-- One round of `doexit` over the process table. -/
def leaveFamily (s : State) (p : Nat) : State :=
  if (s.ptab p).status = .empty ∨ p = s.cur then s else hangup (orphan s p) p

/-- `doexit` up to its loop: what it does to the process itself. -/
def leave (val : Half) (s : State) : State :=
  let s := pagemap_free s.cur (modify s s.cur (fun q => { q with held := BitVec.allOnes 32 }))
  let s := modifyUdata s s.cur (fun u => { u with files := fun _ => none })
  let s := modify s s.cur (fun q => { q with exitval := val })
  let s := modifyUdata s s.cur (fun u => { u with
    utime := u.utime + u.cutime
    stime := u.stime + u.cstime })
  modify s s.cur (fun q => q.setTimes (s.udata s.cur).utime (s.udata s.cur).stime)

/-- `doexit` up to the end of its loop. It panics for process 1. -/
def doexit (val : Half) (s : State) : Option State :=
  if s.me.pid = 1 ∨ s.me.page = 0 then none
  else some { Run.upTo leaveFamily PTABSIZE (leave val s) with exiting := true }

/-- `signal_parent` and the rest of `doexit`. -/
def signal_parent (s : State) : State :=
  let p := s.me.pptr
  let s := if has (s.ptab p).ignored SIGCHLD then
      modify s s.cur (fun q => { q with status := .empty })
    else
      modify (tell p s) s.cur (fun q => { q with status := .zombie })
  { s with nproc := (s.nproc + 65535) % 65536, exiting := false }

/-! ## wait -/

/-- What `_waitpid` answers, or that it sleeps. -/
inductive Answer where
  | child (pid : Nat) (status : Half)
  | stopped (val : Nat)
  | error (err : Nat)
  | asleep
deriving DecidableEq

/-- The entry is one the caller waits for. -/
def wanted (s : State) (pid : Int) (p : Nat) : Prop :=
  (s.ptab p).pptr = s.cur ∧
    (pid = -1 ∨ ((s.ptab p).pid : Int) = pid ∨ ((s.ptab p).pgrp : Int) = -pid)

instance (s : State) (pid : Int) (p : Nat) : Decidable (wanted s pid p) := by
  unfold wanted; infer_instance

def psleep (event : Nat) (q : Entry) : Entry := { q with status := .sleep, wait := event }

/-- One round of the loop of `_waitpid`. -/
def waitRound (pid : Int) (nohang untraced : Bool) (s : State) : State × Answer :=
  match (List.range PTABSIZE).find? (fun p => wanted s pid p ∧
    ((s.ptab p).status = .zombie ∨ (s.ptab p).event ≠ 0 ∧ untraced)) with
  | some p =>
    let q := s.ptab p
    if q.status = .zombie then
      (modifyUdata (modify s p (fun q => { q with status := .empty })) s.cur (fun u => { u with
        cutime := u.cutime + q.utime
        cstime := u.cstime + q.stime }), .child q.pid q.exitval)
    else (modify s p (fun q => { q with event := 0 }), .stopped (q.event * 256 + WSTOPPED))
  | none =>
    if nohang then (s, .error EINTR) else (modify s s.cur (psleep (ptabEvent s.cur)), .asleep)

def waitpid (pid : Int) (nohang untraced : Bool) (s : State) : State × Answer :=
  if (List.range PTABSIZE).any (fun p =>
    (s.ptab p).status ≠ .empty ∧ (s.ptab p).pptr = s.cur ∧ p ≠ s.cur) then
    waitRound (if pid = 0 then -(s.me.pgrp : Int) else pid) nohang untraced s
  else (s, .error ECHILD)

/-! ## Steps -/

/-- What a process does to its own entry only. `take` and `stop` are `chksigs`, `raise`
is `ssig` on itself, and `timeout` is what `_pause`, `select` and the drivers set. -/
inductive Own where
  | alarm (secs : Nat)
  | timeout (t : Nat)
  | psleep (event : Nat)
  | signal (sig : Nat) (ign : Bool)
  | sigdisp (sig : Nat) (hold : Bool)
  | nice (pri : Int)
  | setpgrp
  | take (sig : Nat)
  | stop (sig : Nat)
  | raise (sig : Nat)
  | resched

def Own.enabled (q : Entry) : Own → Prop
  | .take sig => has (q.pending &&& ~~~ q.held) sig
  | .stop sig => has (q.pending &&& ~~~ q.held) sig ∧ stopper sig
  | _ => True

instance (q : Entry) (o : Own) : Decidable (o.enabled q) := by
  cases o <;> unfold Own.enabled <;> infer_instance

/-- The byte `p_nice` is added unsigned, and the sum is kept in a word. -/
def setNice (pri : Int) (q : Entry) : Entry :=
  let np := min 19 (max (-20) ((q.nice + pri + 32768) % 65536 - 32768))
  { q with nice := np % 256, area := put q.area 0 (BitVec.ofInt 16 (MAXTICKS - np / 4)) }

def Own.apply (q : Entry) : Own → Entry
  | .alarm secs => { q with alarm := secs * 10 % uargSize }
  | .timeout t => { q with timeout := t % 65536 }
  | .psleep event => Family.psleep event q
  | .signal sig ign =>
    if ign then
      if sig = SIGKILL ∨ sig = SIGSTOP then q else q.setIgnored (q.ignored ||| sigmask sig)
    else q.setIgnored (q.ignored &&& ~~~ sigmask sig)
  | .sigdisp sig hold =>
    { q with held := if hold then q.held ||| sigmask sig else q.held &&& ~~~ sigmask sig }
  | .nice pri => setNice pri q
  | .setpgrp => { q with pgrp := q.pid }
  | .take sig => q.setPending (q.pending &&& ~~~ sigmask sig)
  | .stop sig => { q.setPending (q.pending &&& ~~~ sigmask sig) with
      status := .stopped
      event := sig }
  | .raise sig => ssig sig q
  | .resched => { q with status := .ready }

/-- A step of the running process, of an interrupt, or of the scheduler. -/
inductive Action where
  | own (o : Own)
  | fork (copied : Bool)
  | exit (val : Half)
  | gone
  | waitpid (pid : Int) (nohang untraced : Bool)
  | waitAgain (pid : Int) (nohang untraced : Bool)
  | kill (pid : Int) (sig : Nat) (allowed : Nat → Bool)
  | sgrpsig (pgrp sig : Nat)
  | timer (insys : Bool)
  | wakeup (event : Nat)
  | switch (p : Nat)

/-- The running process makes a system call. -/
def State.user (s : State) : Prop := s.exiting = false ∧ s.me.status = .running

instance (s : State) : Decidable s.user := by unfold State.user; infer_instance

def State.idle (s : State) : Prop := s.exiting = false ∧ s.me.status ≠ .running

instance (s : State) : Decidable s.idle := by unfold State.idle; infer_instance

/-- `getproc` found the process `p`. -/
def switchin (p : Nat) (s : State) : State :=
  { modify s p (fun q => { q with status := .running }) with cur := p }

def Action.apply (s : State) : Action → Option State
  | .own o => if s.user ∧ o.enabled s.me then some (modify s s.cur (fun q => o.apply q)) else none
  | .fork copied => if s.user then Family.fork copied s else none
  | .exit val => if s.user then doexit val s else none
  | .gone => if s.exiting then some (signal_parent s) else none
  | .waitpid pid nohang untraced =>
    if s.user then some (Family.waitpid pid nohang untraced s).1 else none
  | .waitAgain pid nohang untraced =>
    if s.user then some (waitRound pid nohang untraced s).1 else none
  | .kill pid sig allowed =>
    if s.user ∧ sig < NSIGS then some (Family.kill pid sig allowed s) else none
  | .sgrpsig pgrp sig => some (Family.sgrpsig pgrp sig s)
  | .timer insys => some (timer_interrupt insys s)
  | .wakeup event => some (Family.wakeup event s)
  | .switch p =>
    if s.idle ∧ p < PTABSIZE ∧ (s.ptab p).status = .ready then some (switchin p s) else none

end Family
