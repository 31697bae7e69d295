import Fuzix.Sock

/-!
# The link table of the network daemon

`netd` keeps a link for each socket of the kernel, from `SS_UNCONNECTED` until it tells the
kernel that the socket is closed. Requests are read from the slots of the kernel, and uIP calls
back on its connections. What uIP does is given from outside. The rings and their data are left
out. The users of the slots are counted, and it is recorded who holds a link and who made a
connection; the daemon does not look at this history.
-/

namespace Netd

open Table Run
open Sock (SockType SS_UNUSED SS_INIT SS_UNCONNECTED SS_BOUND SS_LISTENING SS_ACCEPTWAIT SS_CONNECTING
  SS_CONNECTED SS_CLOSED)

class Limits where
  NSOCKET : Nat

export Limits (NSOCKET)

/-- A connection of uIP. -/
inductive Conn where
  | tcp (c : Nat)
  | udp (c : Nat)
  | raw (c : Nat)
deriving DecidableEq

def Conn.type : Conn → SockType
  | .tcp _ => .TCP
  | .udp _ => .UDP
  | .raw _ => .RAW

/-- `struct link`, the flags as fields. -/
structure Link where
  closed : Bool
  shutr : Bool
  shutw : Bool
  isOpen : Bool
  dead : Bool
  socketn : Nat
  lcn : Nat
  conn : Option Conn
  port : Nat
deriving DecidableEq

/-- A link after `memset`. -/
def blank : Link := ⟨false, false, false, false, false, 0, 0, none, 0⟩

/-- What the kernel has of a socket. `opened` is whether a process has it, `event` is `newstate`
while the daemon has not read it, and `user` is history. -/
structure Slot where
  s_type : SockType
  s_state : Nat
  lcn : Nat
  opened : Bool
  event : Option Nat
  user : Nat

/-- What the daemon did: which link `get_map` gave and whether it was in use, who had the link
that went to `rel_map` and for whom, who has the link that a callback acts on and who made the
connection, whose socket a callback tells of and who made the connection, and the connection
that a close uses. -/
inductive Deed where
  | takes (link : Option Nat) (used : Bool)
  | returns (holder user : Option Nat)
  | acts (holder maker : Option Nat)
  | tells (user : Nat) (maker : Option Nat)
  | uses (conn : Option Conn)
deriving DecidableEq

structure State where
  map : Nat → Link
  freelist : List Nat
  /-- The index that uIP keeps with a connection. -/
  appstate : Conn → Nat
  /-- uIP has the datagram connection: `lport` is not zero, or `proto` is not 255. -/
  bound : Conn → Bool
  /-- `sm.s.s_num`, the socket of the last message. -/
  s_num : Nat
  slot : Nat → Slot
  holder : Nat → Option Nat
  maker : Conn → Option Nat
  users : Nat
  deeds : List Deed

/-- The start, after `init_map`. -/
def start [Limits] : State where
  map _ := blank
  freelist := (List.range NSOCKET).reverse
  appstate _ := 0
  bound _ := false
  s_num := 0
  slot _ := ⟨.TCP, SS_UNUSED, 0, false, none, 0⟩
  holder _ := none
  maker _ := none
  users := 0
  deeds := []

section Steps

variable (s : State)

def note (d : Deed) : State := { s with deeds := s.deeds ++ [d] }

def setLink (l : Nat) (f : Link → Link) : State := { s with map := put s.map l (f (s.map l)) }

def setSlot (n : Nat) (f : Slot → Slot) : State := { s with slot := put s.slot n (f (s.slot n)) }

@[simp] theorem setLink_same (l : Nat) (f : Link → Link) : (setLink s l f).map l = f (s.map l) := put_same s.map l _

@[simp] theorem setLink_ne {l k : Nat} (f : Link → Link) (other : k ≠ l) : (setLink s l f).map k = s.map k :=
  put_ne s.map _ other

@[simp] theorem setSlot_same (n : Nat) (f : Slot → Slot) : (setSlot s n f).slot n = f (s.slot n) :=
  put_same s.slot n _

@[simp] theorem setSlot_ne {n m : Nat} (f : Slot → Slot) (other : m ≠ n) : (setSlot s n f).slot m = s.slot m :=
  put_ne s.slot _ other

/-- On an empty list the entry before the table would be read. -/
def get_map : State × Option Nat :=
  match s.freelist with
  | [] => (note s (.takes none false), none)
  | l :: rest =>
    (note (setLink { s with freelist := rest } l fun _ => blank) (.takes (some l) (s.holder l).isSome), some l)

/-- The link `l` is released for the socket of `user`. -/
def rel_map (l : Nat) (user : Option Nat) : State :=
  note { s with freelist := l :: s.freelist, holder := put s.holder l none } (.returns (s.holder l) user)

/-- `NE_NEWSTATE` for a request of the kernel. -/
def answer (n state : Nat) : State := setSlot s n fun sl => { sl with s_state := state }

/-- A message from a callback about the socket `n`: `NE_EVENT`, `NE_NEWSTATE` and `NE_RESET`
change its state. -/
def tell (n : Nat) (maker : Option Nat) (state : Option Nat) : State :=
  note (setSlot s n fun sl => { sl with s_state := state.getD sl.s_state }) (.tells (s.slot n).user maker)

/-! ## Requests of the kernel -/

/-- `SS_UNCONNECTED`, which `NE_INIT` answers. -/
def init (n : Nat) : State :=
  match get_map s with
  | (s, none) => s
  | (s, some l) =>
    let s := setLink s l fun link => { link with socketn := n }
    let s := { s with holder := put s.holder l (some (s.slot n).user) }
    setSlot s n fun sl => { sl with lcn := l, s_state := SS_UNCONNECTED, opened := true }

/-- uIP has the connection `c` for the link of the socket `n`. -/
def joined (n : Nat) (c : Conn) : State :=
  let l := (s.slot n).lcn
  let s := setLink s l fun link =>
    { link with conn := some c, lcn := if c.type = .UDP then l else link.lcn }
  { s with
    appstate := put s.appstate c l
    bound := put s.bound c true
    maker := put s.maker c (some (s.slot n).user) }

/-- `SS_CONNECTING`; `new` is the connection that uIP has for it. -/
def connecting (n : Nat) (new : Option Nat) : State :=
  match (s.slot n).s_type, new with
  | .TCP, none => answer s n SS_CLOSED
  | .TCP, some c => answer (joined s n (.tcp c)) n SS_CONNECTING
  | .UDP, some c => answer (joined s n (.udp c)) n SS_CONNECTED
  | .RAW, some c => answer (joined s n (.raw c)) n SS_CONNECTED
  | _, none => s

/-- `SS_CLOSED`; a connection that is not there is used all the same. -/
def closing (n : Nat) : State :=
  let l := (s.slot n).lcn
  let m := s.map l
  let s := note s (.uses m.conn)
  match (s.slot n).s_type with
  | .UDP =>
    let s := match m.conn with
      | some c => { s with bound := put s.bound c false }
      | none => s
    answer (rel_map s m.lcn (some (s.slot n).user)) n SS_CLOSED
  | _ => setLink s l fun link => { link with closed := true }

def listening (n port : Nat) : State :=
  answer (setLink s (s.slot n).lcn fun link => { link with port := port }) n SS_LISTENING

/-- `dokernel` on the request `state` of the socket `n`. -/
def dokernel (n state : Nat) (new : Option Nat) (port : Nat) : State :=
  let s := setSlot { s with s_num := n } n fun sl => { sl with event := none }
  if state = SS_UNCONNECTED then init s n
  else if state = SS_BOUND then answer s n SS_BOUND
  else if state = SS_CONNECTING then connecting s n new
  else if state = SS_CLOSED then closing s n
  else if state = SS_LISTENING then listening s n port
  else s

/-! ## Callbacks of uIP -/

/-- `uip_flags`, and whether a datagram waits to be sent. -/
structure Flags where
  connected : Bool
  newdata : Bool
  acked : Bool
  poll : Bool
  aborted : Bool
  timedout : Bool
  closed : Bool
  tosend : Bool
deriving DecidableEq

def noFlags : Flags := ⟨false, false, false, false, false, false, false, false⟩

/-- Some link has the port, be it in use or not. -/
def isListening [Limits] (lport : Nat) : Bool := (List.range NSOCKET).any fun i => (s.map i).port = lport

def connected [Limits] (l lport : Nat) (maker : Option Nat) : State :=
  if isListening s lport then tell s (s.map l).socketn maker (some SS_ACCEPTWAIT)
  else setLink (tell s (s.map l).socketn maker (some SS_CONNECTED)) l fun link => { link with isOpen := true }

/-- The end of a link: the kernel hears of `state`, and the link is dead and released. -/
def drop (l n : Nat) (maker : Option Nat) : State :=
  rel_map (setLink (tell s n maker (some SS_CLOSED)) l fun link => { link with dead := true }) l maker

theorem drop_map (l n : Nat) (maker : Option Nat) :
    (drop s l n maker).map = put s.map l { s.map l with dead := true } := rfl

theorem drop_slot (l n : Nat) (maker : Option Nat) :
    (drop s l n maker).slot = put s.slot n { s.slot n with s_state := SS_CLOSED } := rfl

theorem drop_deeds (l n : Nat) (maker : Option Nat) : (drop s l n maker).deeds =
    s.deeds ++ [.tells (s.slot n).user maker] ++ [.returns (s.holder l) maker] := rfl

/-- A local close in a poll. `uip_close` and `uip_abort` replace the flags. -/
def pollClose (l : Nat) (maker : Option Nat) (f : Flags) (outstanding : Bool) : State × Flags :=
  if f.poll ∧ (s.map l).closed then
    (drop (setLink s l fun link => { link with closed := false, shutw := true }) l (s.map l).socketn maker,
      if outstanding then { noFlags with aborted := true } else { noFlags with closed := true })
  else (s, f)

def ended (l : Nat) (maker : Option Nat) (f : Flags) : State :=
  if f.aborted then
    drop (setLink s l fun link => { link with shutr := true, shutw := true }) l (s.map l).socketn maker
  else if f.timedout then drop s l (s.map l).socketn maker
  else if f.closed then
    if (s.map l).shutr ∧ (s.map l).shutw then rel_map (setLink s l fun link => { link with dead := true }) l maker
    else if !(s.map l).shutr ∧ !(s.map l).shutw then tell s (s.map l).socketn maker none
    else s
  else s

/-- The parts of `netd_appcall` before the poll. -/
def arrived [Limits] (l lport : Nat) (maker : Option Nat) (f : Flags) : State :=
  let s := note s (.acts (s.holder l) maker)
  let s := if f.connected then connected s l lport maker else s
  let s := if f.newdata then tell s (s.map l).socketn maker none else s
  if f.acked then tell s (s.map l).socketn maker none else s

/-- `netd_appcall` -/
def appcall [Limits] (c : Nat) (f : Flags) (outstanding : Bool) (lport : Nat) : State :=
  let l := s.appstate (.tcp c)
  let maker := s.maker (.tcp c)
  if (s.map l).dead then s
  else
    let polled := pollClose (arrived s l lport maker f) l maker f outstanding
    ended polled.1 l maker polled.2

/-- A poll sends the datagram that waits. -/
def sending (l : Nat) (maker : Option Nat) (f : Flags) : State :=
  let s := note s (.acts (s.holder l) maker)
  if f.poll ∧ f.tosend then tell s (s.map l).socketn maker none else s

/-- `netd_udp_appcall` and `netd_raw_appcall`, which differ in the order of two stores. -/
def dgramcall (c : Conn) (f : Flags) : State :=
  let l := s.appstate c
  let maker := s.maker c
  if (s.map l).dead then s
  else
    let s := sending s l maker f
    if f.poll ∧ (s.map l).closed then
      -- The message goes to the socket of the last request.
      let s := drop s l s.s_num maker
      { s with bound := put s.bound c false }
    else if f.newdata then tell s (s.map l).socketn maker none
    else s

end Steps

/-! ## Actions -/

inductive Action where
  /-- `alloc_socket` and `net_init`. -/
  | socket (n : Nat) (type : SockType)
  /-- `make_socket` has no file, open file or inode for a socket that the daemon knows. -/
  | fails (n : Nat)
  | bind (n : Nat)
  | listen (n : Nat)
  | connect (n : Nat)
  | close (n : Nat)
  /-- The close is over. -/
  | leave (n : Nat)
  | dokernel (n : Nat) (new : Option Nat) (port : Nat)
  | tcp (c : Nat) (f : Flags) (outstanding : Bool) (lport : Nat)
  | udp (c : Nat) (f : Flags)
  | raw (c : Nat) (f : Flags)
deriving DecidableEq

def post (s : State) (n state : Nat) : State := setSlot s n fun sl => { sl with event := some state }

/-- A connection that uIP gives for a request is a free one of its kind. -/
def unbound (s : State) (n : Nat) : Option Nat → Bool
  | none => true
  | some c =>
    match (s.slot n).s_type with
    | .TCP => true
    | .UDP => !s.bound (.udp c)
    | .RAW => !s.bound (.raw c)

def Action.apply [Limits] (s : State) : Action → Option State
  | .socket n type =>
    if n < NSOCKET ∧ (s.slot n).s_state = SS_UNUSED then
      some (setSlot { s with users := s.users + 1 } n fun sl =>
        { sl with
          s_type := type, s_state := SS_INIT, opened := false, event := some SS_UNCONNECTED, user := s.users })
    else none
  | .fails n =>
    if (s.slot n).opened ∧ (s.slot n).s_state = SS_UNCONNECTED then
      some (setSlot s n fun sl => { sl with s_state := SS_UNUSED, opened := false })
    else none
  | .bind n =>
    if (s.slot n).opened ∧ (s.slot n).s_state = SS_UNCONNECTED then some (post s n SS_BOUND) else none
  | .listen n =>
    if (s.slot n).opened ∧ (s.slot n).s_type = .TCP ∧ (s.slot n).s_state = SS_BOUND then
      some (post s n SS_LISTENING)
    else none
  | .connect n =>
    if (s.slot n).opened ∧ (s.slot n).s_state = SS_BOUND then some (post s n SS_CONNECTING) else none
  | .close n =>
    if (s.slot n).opened then some (setSlot s n fun sl => { sl with opened := false, event := some SS_CLOSED })
    else none
  | .leave n =>
    if !(s.slot n).opened ∧ (s.slot n).s_state = SS_CLOSED then
      some (setSlot s n fun sl => { sl with s_state := SS_UNUSED })
    else none
  | .dokernel n new port =>
    (s.slot n).event.bind fun state => if unbound s n new then some (Netd.dokernel s n state new port) else none
  | .tcp c f outstanding lport => some (appcall s c f outstanding lport)
  | .udp c f => if s.bound (.udp c) then some (dgramcall s (.udp c) f) else none
  | .raw c f => if s.bound (.raw c) then some (dgramcall s (.raw c) f) else none

end Netd
