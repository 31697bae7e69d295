import Fuzix.Sock

/-!
# Requests to the network daemon

A call on a socket posts a request in the slot of the socket and sleeps until the daemon has
answered. A process may be woken at any time. The users of a slot and their requests are
counted, and it is recorded what the daemon has read and answered and what came of it;
no call looks at this history. Data transfer, the addresses and `accept` are left out.
-/

namespace NetNative

open Table Run
open Sock (SockType SS_UNUSED SS_INIT SS_UNCONNECTED SS_BOUND SS_LISTENING SS_CONNECTING SS_CLOSED)

class Limits where
  NSOCKET : Nat
  PTABSIZE : Nat

export Limits (NSOCKET PTABSIZE)

def ENETDOWN : Nat := 46

/-- A request that the daemon has read and not answered. -/
structure Taken where
  number : Nat
  user : Nat
  closing : Bool

/-- `struct socket` and its `struct sockdata`, with the flags of `event` as fields. From
`user` on it is history. -/
structure Slot where
  s_type : SockType
  s_state : Nat
  s_error : Nat
  ret : Nat
  nev_state : Bool
  nevw_state : Bool
  newstate : Nat
  user : Nat
  asked : Nat
  unread : Bool
  taken : Option Taken
  answers : Nat → Option Nat
  /-- The daemon has answered the close of this user. -/
  acked : Bool
  /-- The user that the daemon takes the slot to have. -/
  served : Option Nat
  /-- The daemon has gone since the user came. -/
  orphan : Bool

/-- What a call does once the socket is bound. -/
inductive Next where
  | listen
  | connect (ok : Bool)
deriving DecidableEq

inductive Purpose where
  | socket
  | bind
  | listen
  | connect
  | bindFor (next : Next)
deriving DecidableEq

def Purpose.state : Purpose → Nat
  | .socket => SS_UNCONNECTED
  | .bind => SS_BOUND
  | .listen => SS_LISTENING
  | .connect => SS_CONNECTING
  | .bindFor _ => SS_BOUND

/-- Where a call sleeps: in `netn_synchronous_event`, in `sock_wait_leave` for a new or for
a connecting socket, or in `sock_wait_enter`. `erred` is history: an answer carried an error. -/
inductive Stage where
  | request (purpose : Purpose) (number : Nat) (erred : Bool)
  | opening (erred : Bool)
  | connecting (erred : Bool)
  | closing
deriving DecidableEq

structure Proc where
  slot : Nat
  stage : Stage
deriving DecidableEq

/-- What came of a request, of a call, of a slot and of a message. -/
inductive Deed where
  | posts (heard : Bool)
  | resumes (answer : Option Nat) (gone failed : Bool)
  | ends (erred failed : Bool)
  | frees (acked gone : Bool)
  | moves (about : Option Nat) (user : Nat)
deriving DecidableEq

structure State where
  net_ino : Bool
  slot : Nat → Slot
  /-- There is an open file for the socket. -/
  file : Nat → Bool
  procs : Nat → Option Proc
  deeds : List Deed

def blank : Slot :=
  ⟨.TCP, SS_UNUSED, 0, 0, false, false, 0, 0, 0, false, none, fun _ => none, false, none, false⟩

def start : State := ⟨false, fun _ => blank, fun _ => false, fun _ => none, []⟩

/-! ## Small steps -/

def modify (s : State) (i : Nat) (f : Slot → Slot) : State :=
  { s with slot := put s.slot i (f (s.slot i)) }

def note (s : State) (d : Deed) : State := { s with deeds := s.deeds ++ [d] }

def sleep (s : State) (r i : Nat) (stage : Stage) : State :=
  { s with procs := put s.procs r (some ⟨i, stage⟩) }

/-- A call comes to its end. -/
def finish (s : State) (r : Nat) (erred failed : Bool) : State :=
  note { s with procs := put s.procs r none } (.ends erred failed)

def Slot.post (sl : Slot) (state : Nat) : Slot :=
  { sl with
    nev_state := true
    nevw_state := true
    newstate := state
    asked := sl.asked + 1
    unread := true }

/-- The daemon has read the last request, or the one that should have is gone. -/
def Slot.heard (sl : Slot) : Bool := !sl.unread || sl.orphan

def post (s : State) (i state : Nat) : State :=
  note (modify s i fun sl => sl.post state) (.posts (s.slot i).heard)

/-- The slot returns to `SS_UNUSED`. -/
def free (s : State) (i : Nat) : State :=
  note (modify s i fun sl => { sl with s_state := SS_UNUSED })
    (.frees (s.slot i).acked (s.slot i).orphan)

/-! ## `netn_synchronous_event` -/

/-- It returns -1, and so does the call. -/
def fails (s : State) (r i : Nat) (purpose : Purpose) (number : Nat) (erred : Bool) : State :=
  let s := note s (.resumes ((s.slot i).answers number) (s.slot i).orphan true)
  finish (if purpose = .socket then free s i else s) r erred true

/-- From the test for `SS_CLOSED` to the sleep. -/
def loop (s : State) (r i : Nat) (purpose : Purpose) (number : Nat) (erred : Bool) : State :=
  if (s.slot i).s_state = SS_CLOSED then fails s r i purpose number erred
  else sleep s r i (.request purpose number erred)

def ask (s : State) (r i : Nat) (purpose : Purpose) (erred : Bool) : State :=
  let s := post s i purpose.state
  loop s r i purpose (s.slot i).asked erred

/-! ## What the calls do with the answer -/

/-- `_listen` and `_connect` from the test for `SS_BOUND` on. -/
def proceed (s : State) (r i : Nat) (next : Next) (erred : Bool) : State :=
  match next with
  | .listen =>
    if (s.slot i).s_type = .TCP ∧ (s.slot i).s_state = SS_BOUND then ask s r i .listen erred
    else finish s r erred true
  | .connect ok =>
    if (s.slot i).s_state = SS_BOUND ∧ ok then ask s r i .connect erred
    else finish s r erred true

/-- `make_socket` returns the descriptor. -/
def opened (s : State) (r i : Nat) (erred interrupted : Bool) : State :=
  finish { s with file := put s.file i true } r erred (erred || interrupted)

/-- The end of `_connect`, with `sock_error`. -/
def connected (s : State) (r i : Nat) (erred : Bool) : State :=
  finish (modify s i fun sl => { sl with s_error := 0 }) r erred ((s.slot i).s_error ≠ 0)

/-- The calls after `netn_synchronous_event` returned 0 with `u_error` as answered. `room`:
there are a descriptor, a table entry and an inode left for `make_socket`. -/
def returns (s : State) (r i : Nat) (purpose : Purpose) (erred room : Bool) : State :=
  match purpose with
  | .socket =>
    if room then
      if (s.slot i).s_state = SS_INIT then sleep s r i (.opening erred) else opened s r i erred false
    else finish (free s i) r erred true
  | .bind => finish s r erred ((s.slot i).ret ≠ 0)
  | .listen => finish s r erred ((s.slot i).ret ≠ 0)
  | .connect =>
    if (s.slot i).s_state = SS_CONNECTING then sleep s r i (.connecting erred)
    else connected s r i erred
  | .bindFor next => proceed s r i next erred

/-- A process in `netn_synchronous_event` is woken. -/
def resume (s : State) (r i : Nat) (purpose : Purpose) (number : Nat) (erred room : Bool) : State :=
  if (s.slot i).nevw_state then loop s r i purpose number erred
  else
    let sl := s.slot i
    returns (note s (.resumes (sl.answers number) sl.orphan (sl.ret ≠ 0))) r i purpose
      (erred || sl.ret ≠ 0) room

/-- The end of `sock_close`. -/
def close (s : State) (r i : Nat) : State := { free s i with procs := put s.procs r none }

section Net
variable [Limits]

/-! ## The calls -/

/-- `alloc_socket`, `make_socket` and `net_init` on a free slot. -/
def Slot.init (sl : Slot) (type : SockType) : Slot :=
  { sl with
    s_type := type
    s_state := SS_INIT
    nev_state := false
    nevw_state := false
    user := sl.user + 1
    unread := false
    acked := false
    orphan := false }

/-- Without a daemon `net_init` fails and the slot is unused again. -/
def socket (s : State) (r : Nat) (type : SockType) : State :=
  match (List.range NSOCKET).find? fun i => decide ((s.slot i).s_state = SS_UNUSED) with
  | none => s
  | some i =>
    if s.net_ino then
      let s := note (modify s i fun sl => (sl.init type).post SS_UNCONNECTED) (.posts (s.slot i).heard)
      loop s r i .socket (s.slot i).asked false
    else s

def bind (s : State) (r i : Nat) (ok : Bool) : State :=
  if (s.slot i).s_state = SS_UNCONNECTED ∧ ok then ask s r i .bind false else s

def listen (s : State) (r i : Nat) : State :=
  if (s.slot i).s_state = SS_UNCONNECTED then ask s r i (.bindFor .listen) false
  else proceed s r i .listen false

def connect (s : State) (r i : Nat) (ok : Bool) : State :=
  if (s.slot i).s_state = SS_CONNECTING then s
  else if (s.slot i).s_state = SS_UNCONNECTED then ask s r i (.bindFor (.connect ok)) false
  else proceed s r i (.connect ok) false

/-- `sock_close` up to the sleep. -/
def sock_close (s : State) (r i : Nat) : State :=
  let s := { post s i SS_CLOSED with file := put s.file i false }
  if (s.slot i).s_state = SS_CLOSED then close s r i else sleep s r i .closing

/-! ## The daemon -/

inductive Message where
  | init (ret : Nat)
  | newstate (data ret : Nat)
  | event (data ret : Nat)
  | reset (ret : Nat)
  | shutr (ret : Nat)

def Slot.fault (sl : Slot) (ret : Nat) : Slot := if ret = 0 then sl else { sl with s_error := ret }

/-- A state change that was asked for. -/
def Slot.answer (sl : Slot) (state ret : Nat) : Slot :=
  { sl with
    s_state := state
    ret := ret
    nevw_state := false
    taken := none
    answers := sl.taken.elim sl.answers fun a => put sl.answers a.number (some ret)
    acked := sl.acked || sl.taken.elim false fun a => a.closing && decide (a.user = sl.user)
    served := sl.taken.elim sl.served fun a => if a.closing then none else sl.served }

/-- `s_state` is a byte. -/
def Message.change (sl : Slot) : Message → Slot
  | .init ret => sl.answer SS_UNCONNECTED ret
  | .newstate data ret => sl.answer (data % 256) ret
  | .event data ret => ({ sl with s_state := data % 256 } : Slot).fault ret
  | .reset ret => ({ sl with s_state := SS_CLOSED } : Slot).fault ret
  | .shutr ret => sl.fault ret

/-- The user that the daemon means. -/
def Message.about (sl : Slot) : Message → Option Nat
  | .init _ => sl.taken.map Taken.user
  | .newstate _ _ => sl.taken.map Taken.user
  | _ => sl.served

def netdev_write (s : State) (i : Nat) (m : Message) : State :=
  if s.net_ino ∧ i < NSOCKET then
    let t := modify s i m.change
    if (m.change (s.slot i)).s_state = (s.slot i).s_state then t
    else note t (.moves (m.about (s.slot i)) (s.slot i).user)
  else s

def netdev_findevent (s : State) : Option Nat :=
  (List.range NSOCKET).find? fun i => (s.slot i).nev_state || (s.slot i).nevw_state

/-- `netdev_report` -/
def Slot.report (sl : Slot) : Slot :=
  { sl with
    nev_state := false
    unread := false
    taken := if sl.unread then some ⟨sl.asked, sl.user, decide (sl.newstate = SS_CLOSED)⟩ else sl.taken
    served := if sl.unread ∧ sl.newstate = SS_UNCONNECTED then some sl.user else sl.served }

def netdev_read (s : State) : State :=
  if s.net_ino then (netdev_findevent s).elim s fun i => modify s i Slot.report else s

def Slot.down (sl : Slot) : Slot :=
  let sl := { sl with taken := none, served := none }
  if sl.s_state = SS_UNUSED then sl
  else { sl with s_state := SS_CLOSED, s_error := ENETDOWN, orphan := true }

def netdev_close (s : State) : State :=
  if s.net_ino then
    { s with net_ino := false, slot := fun i => if i < NSOCKET then (s.slot i).down else s.slot i }
  else s

/-! ## Steps -/

inductive Action where
  | socket (r : Nat) (type : SockType)
  | bind (r i : Nat) (ok : Bool)
  | listen (r i : Nat)
  | connect (r i : Nat) (ok : Bool)
  | close (r i : Nat)
  | run (r : Nat) (room : Bool)
  | signal (r : Nat)
  | message (i : Nat) (m : Message)
  | read
  | exit
  | init

/-- The process is in no call. -/
def idle (s : State) (r : Nat) : Prop := r < PTABSIZE ∧ s.procs r = none

instance (s : State) (r : Nat) : Decidable (idle s r) := by unfold idle; infer_instance

/-- No process is in a call on the socket. -/
def alone (s : State) (i : Nat) : Prop := ∀ r < PTABSIZE, (s.procs r).map Proc.slot ≠ some i

instance (s : State) (i : Nat) : Decidable (alone s i) := by unfold alone; infer_instance

/-- A process that was woken goes on. -/
def wake (s : State) (r i : Nat) (room : Bool) : Stage → State
  | .request purpose number erred => resume s r i purpose number erred room
  | .opening erred => if (s.slot i).s_state = SS_INIT then s else opened s r i erred false
  | .connecting erred => if (s.slot i).s_state = SS_CONNECTING then s else connected s r i erred
  | .closing => if (s.slot i).s_state = SS_CLOSED then close s r i else s

/-- The sleep of `netn_synchronous_event` goes on after a signal, the others end. -/
def interrupt (s : State) (r i : Nat) : Stage → State
  | .request _ _ _ => s
  | .opening erred => opened s r i erred true
  | .connecting erred => finish s r erred true
  | .closing => close s r i

/-- A call is made on an open file; the last one is closed while nobody uses it. -/
def Action.apply (s : State) : Action → Option State
  | .socket r type => if idle s r then some (NetNative.socket s r type) else none
  | .bind r i ok => if idle s r ∧ s.file i then some (NetNative.bind s r i ok) else none
  | .listen r i => if idle s r ∧ s.file i then some (NetNative.listen s r i) else none
  | .connect r i ok => if idle s r ∧ s.file i then some (NetNative.connect s r i ok) else none
  | .close r i => if idle s r ∧ s.file i ∧ alone s i then some (sock_close s r i) else none
  | .run r room => (s.procs r).map fun p => wake s r p.slot room p.stage
  | .signal r => (s.procs r).map fun p => interrupt s r p.slot p.stage
  | .message i m => some (netdev_write s i m)
  | .read => some (netdev_read s)
  | .exit => some (netdev_close s)
  | .init => some { s with net_ino := true }

end Net

end NetNative
