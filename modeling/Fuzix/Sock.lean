import Fuzix.Lib.Run
import Fuzix.Lib.Table
import Mathlib.Data.Finset.Card
import Mathlib.Data.Nat.Find

/-!
# Socket addresses

The table of sockets, the calls that open, bind and close them, and the messages of the
network daemon that move them from state to state. A call that sleeps is a step for
each part. That a socket was bound since it was opened is recorded as history.
-/

set_option linter.unusedSectionVars false

namespace Sock

open Table Run

def SS_UNUSED : Nat := 0
def SS_INIT : Nat := 1
def SS_UNCONNECTED : Nat := 2
def SS_BOUND : Nat := 3
def SS_LISTENING : Nat := 4
def SS_ACCEPTWAIT : Nat := 6
def SS_CONNECTING : Nat := 7
def SS_CONNECTED : Nat := 8
def SS_CLOSED : Nat := 11

/-- `ntohs` is nothing, the function `swab`, or a macro that takes its argument twice,
for the low or for the high byte first. -/
inductive Order where
  | same
  | swab
  | twice (lowFirst : Bool)

class Cpu where
  NSOCKET : Nat
  /-- `s_num` is a byte. -/
  few : NSOCKET ≤ 256
  order : Order
  our_address : BitVec 32

export Cpu (NSOCKET order our_address)

inductive SockType where
  | TCP
  | UDP
  | RAW
deriving DecidableEq

inductive Which where
  | SRC
  | DST
  | TMP
deriving DecidableEq

structure Sockaddrs where
  addr : BitVec 32
  port : BitVec 16
deriving DecidableEq

/-- What a caller hands over. -/
structure SockaddrIn where
  /-- `sin_family` is `AF_INET`. -/
  inet : Bool
  addr : BitVec 32
  port : BitVec 16
deriving DecidableEq

structure Socket where
  s_type : SockType
  s_state : Nat
  s_data : Nat
  s_addr : Which → Sockaddrs
  /-- Bound by its user or by the kernel, since it was opened. -/
  bound : Bool

structure Sockets where
  socket : Nat → Socket
  nextauto : BitVec 16

def INADDR_ANY : BitVec 32 := 0

section Calls
variable [Cpu]

/-! ## Ports -/

def swapped (low high : BitVec 16) : BitVec 16 :=
  BitVec.ofNat 16 (low.toNat % 256 * 256 + high.toNat / 256)

def ntohs (w : BitVec 16) : BitVec 16 :=
  match order with
  | .same => w
  | _ => swapped w w

/-- `ntohs(nextauto++)`, and `nextauto` after it. -/
def draw (n : BitVec 16) : BitVec 16 × BitVec 16 :=
  match order with
  | .same => (n, n + 1)
  | .swab => (swapped n n, n + 1)
  | .twice true => (swapped n (n + 1), n + 2)
  | .twice false => (swapped (n + 1) n, n + 2)

/-! ## The table -/

def modify (s : Sockets) (i : Nat) (f : Socket → Socket) : Sockets :=
  { s with socket := put s.socket i (f (s.socket i)) }

/-- A socket that nobody uses any more is not bound. -/
def Socket.enter (p : Socket) (state : Nat) : Socket :=
  { p with s_state := state, bound := p.bound && decide (state ≠ SS_UNUSED) }

def Socket.setAddr (p : Socket) (sv : Which) (sa : Sockaddrs) : Socket :=
  { p with s_addr := put p.s_addr sv sa }

/-- The local address, and that it was bound. -/
def Socket.bindTo (p : Socket) (sa : Sockaddrs) : Socket :=
  { p with s_addr := put p.s_addr .SRC sa, bound := true }

@[simp] theorem bindTo_src (p : Socket) (sa : Sockaddrs) : (p.bindTo sa).s_addr .SRC = sa :=
  put_same p.s_addr Which.SRC sa

/-- One turn of the loop of `sock_find`. -/
def found (p : Socket) (type : SockType) (sv : Which) (sa : Sockaddrs) : Bool :=
  if p.s_state = SS_UNUSED ∨ p.s_type ≠ type then false
  else if (p.s_addr sv).port ≠ sa.port then false
  else if (p.s_addr sv).addr ≠ sa.addr ∧ (p.s_addr sv).addr ≠ INADDR_ANY then false
  else true

def sock_find (s : Sockets) (type : SockType) (sv : Which) (sa : Sockaddrs) : Option Nat :=
  (List.range NSOCKET).find? fun i => found (s.socket i) type sv sa

/-- `sock_find_local` is still to be written. -/
def sock_find_local (_addr : BitVec 32) (_port : BitVec 16) : Option Nat := none

/-- The loop of `sock_autobind`: the port and the counter after it, or nothing if the
fuel does not last. -/
def autoPort (s : Sockets) (type : SockType) : Nat → BitVec 16 → Option (BitVec 16 × BitVec 16)
  | 0, _ => none
  | fuel + 1, n =>
    if (sock_find s type .SRC ⟨INADDR_ANY, (draw n).1⟩).isSome then autoPort s type fuel (draw n).2
    else some (draw n)

/-- `sock_autobind`. After 65536 turns the counter has seen all its values. -/
def sock_autobind (s : Sockets) (i : Nat) : Option Sockets :=
  match autoPort s (s.socket i).s_type 65536 s.nextauto with
  | none => none
  | some r => some ⟨put s.socket i ((s.socket i).bindTo ⟨INADDR_ANY, r.1⟩), r.2⟩

/-! ## The calls -/

/-- `alloc_socket`, and `make_socket` up to the wait for the daemon. -/
def socket (s : Sockets) (type : SockType) : Sockets :=
  match (List.range NSOCKET).find? fun i => decide ((s.socket i).s_state = SS_UNUSED) with
  | none => s
  | some i => modify s i fun p => { p.enter SS_INIT with s_type := type, bound := false }

/-- `sa_getlocal` -/
def localOk (sin : SockaddrIn) (super : Bool) : Prop :=
  sin.inet = true ∧ ¬ ((ntohs sin.port).toNat < 1024 ∧ super = false) ∧
    ¬ (sin.addr ≠ INADDR_ANY ∧ sin.addr >>> 24 ≠ 0x7F ∧ sin.addr ≠ our_address)

instance (sin : SockaddrIn) (super : Bool) : Decidable (localOk sin super) := by
  unfold localOk; infer_instance

/-- `sa_getremote` -/
def remoteOk (sin : SockaddrIn) (super : Bool) : Prop :=
  sin.inet = true ∧
    ¬ (512 ≤ (ntohs sin.port).toNat ∧ (ntohs sin.port).toNat < 1024 ∧ super = false)

instance (sin : SockaddrIn) (super : Bool) : Decidable (remoteOk sin super) := by
  unfold remoteOk; infer_instance

/-- `_bind` gets as far as the address. -/
def bindOk (s : Sockets) (i : Nat) (sin : SockaddrIn) (super : Bool) : Prop :=
  (s.socket i).s_state = SS_UNCONNECTED ∧ localOk sin super ∧
    sock_find_local sin.addr sin.port = none

instance (s : Sockets) (i : Nat) (sin : SockaddrIn) (super : Bool) :
    Decidable (bindOk s i sin super) := by
  unfold bindOk; infer_instance

def bind (s : Sockets) (i : Nat) (sin : SockaddrIn) (super : Bool) : Sockets :=
  if bindOk s i sin super then modify s i fun p => p.bindTo ⟨sin.addr, sin.port⟩ else s

/-- `_listen` -/
def listen (s : Sockets) (i : Nat) : Option Sockets :=
  if (s.socket i).s_state = SS_UNCONNECTED then sock_autobind s i else some s

/-- `_connect`, which goes on as a second step when it had to bind the socket. -/
def connect (s : Sockets) (i : Nat) (sin : SockaddrIn) (super : Bool) : Option Sockets :=
  if (s.socket i).s_state = SS_UNCONNECTED then sock_autobind s i
  else if (s.socket i).s_state = SS_BOUND ∧ remoteOk sin super then
    some (modify s i fun p => p.setAddr .DST ⟨sin.addr, sin.port⟩)
  else some s

/-- `_sendto`, without the bytes. -/
def sendto (s : Sockets) (i : Nat) (dest : Option SockaddrIn) (super : Bool) : Option Sockets :=
  if (s.socket i).s_state = SS_UNCONNECTED then sock_autobind s i
  else match dest with
    | none => some s
    | some sin =>
      if (s.socket i).s_state = SS_BOUND ∧ (s.socket i).s_type ≠ .TCP ∧ remoteOk sin super then
        some (modify s i fun p => p.setAddr .TMP ⟨sin.addr, sin.port⟩)
      else some s

def sock_pending (s : Sockets) (l : Nat) : Option Nat :=
  (List.range NSOCKET).find? fun i =>
    decide ((s.socket i).s_state = SS_ACCEPTWAIT ∧ (s.socket i).s_data = l)

/-- `_accept`, up to the wait of `make_socket`. -/
def accept (s : Sockets) (l : Nat) : Sockets :=
  if (s.socket l).s_state = SS_LISTENING then s
  else match sock_pending s l with
    | none => s
    | some n => modify s n fun p => { p.enter SS_INIT with s_type := .TCP }

/-- What a message of the daemon does to a socket. -/
inductive Event where
  | init
  | newstate (state : Nat)
  | event (state : Nat)
  | setaddr (sv : Which) (sa : Sockaddrs)
  | reset

def Event.change (p : Socket) : Event → Socket
  | .init => p.enter SS_UNCONNECTED
  | .newstate state => p.enter state
  | .event state => p.enter state
  | .setaddr sv sa => p.setAddr sv sa
  | .reset => p.enter SS_CLOSED

/-- `netdev_write`, and `netdev_close` for each socket that is in use. -/
def message (s : Sockets) (i : Nat) (e : Event) : Sockets :=
  if i < NSOCKET then modify s i fun p => e.change p else s

inductive Call where
  | socket (type : SockType)
  | bind (i : Nat) (sin : SockaddrIn) (super : Bool)
  | listen (i : Nat)
  | connect (i : Nat) (sin : SockaddrIn) (super : Bool)
  | sendto (i : Nat) (dest : Option SockaddrIn) (super : Bool)
  | accept (i : Nat)
  /-- The end of `_accept`. -/
  | accepted (i : Nat)
  /-- The end of `sock_close`, or of a `make_socket` that failed. -/
  | close (i : Nat)
  | message (i : Nat) (e : Event)

/-- Nothing, if the call does not come to an end. -/
def Call.apply (s : Sockets) : Call → Option Sockets
  | .socket type => some (Sock.socket s type)
  | .bind i sin super => some (Sock.bind s i sin super)
  | .listen i => Sock.listen s i
  | .connect i sin super => Sock.connect s i sin super
  | .sendto i dest super => Sock.sendto s i dest super
  | .accept i => some (Sock.accept s i)
  | .accepted i => some (modify s i fun p => p.enter SS_CONNECTED)
  | .close i => some (modify s i fun p => p.enter SS_UNUSED)
  | .message i e => some (Sock.message s i e)

def Call.step (s : Sockets) (c : Call) (t : Sockets) : Prop := c.apply s = some t

/-- The tables when the kernel starts. -/
def start : Sockets :=
  ⟨fun _ => ⟨.TCP, SS_UNUSED, 0, fun _ => ⟨0, 0⟩, false⟩, 5000⟩

/-! ## Ports are drawn one after the other -/

/-- The counter after `k` turns. -/
def counter : Nat → BitVec 16 → BitVec 16
  | 0, n => n
  | k + 1, n => counter k (draw n).2

/-- The port of turn `k`. -/
def portAt (k : Nat) (n : BitVec 16) : BitVec 16 := (draw (counter k n)).1

theorem swapped_toNat (low high : BitVec 16) :
    (swapped low high).toNat = low.toNat % 256 * 256 + high.toNat / 256 := by
  have bound := high.isLt
  unfold swapped
  rw [BitVec.toNat_ofNat]
  exact Nat.mod_eq_of_lt (by omega)

/-- Swapping puts the two bytes back. -/
theorem swapped_back (low high : BitVec 16) :
    (swapped (swapped low high) (swapped low high)).toNat =
      high.toNat / 256 * 256 + low.toNat % 256 := by
  have small : high.toNat / 256 < 256 := by
    have bound := high.isLt
    omega
  rw [swapped_toNat, swapped_toNat]
  generalize high.toNat / 256 = a at small
  generalize low.toNat = b
  omega

theorem digits {a b c d : Nat} (same : a * 256 + b = c * 256 + d) (hb : b < 256) (hd : d < 256) :
    a = c ∧ b = d := by omega

theorem draw_injective {n m : BitVec 16} (same : (draw n).1 = (draw m).1) : n = m := by
  have bound := n.isLt
  have bound' := m.isLt
  have next : (n + 1).toNat = (n.toNat + 1) % 65536 := BitVec.toNat_add n 1
  have next' : (m + 1).toNat = (m.toNat + 1) % 65536 := BitVec.toNat_add m 1
  apply BitVec.eq_of_toNat_eq
  have values := congrArg BitVec.toNat same
  unfold draw at values
  split at values
  · exact values
  · simp only [swapped_toNat] at values
    have both := digits values (by omega) (by omega)
    omega
  · simp only [swapped_toNat, next, next'] at values
    have both := digits values (by omega) (by omega)
    clear values next next' same
    omega
  · simp only [swapped_toNat, next, next'] at values
    have both := digits values (by omega) (by omega)
    clear values next next' same
    omega

/-- The step of the counter. -/
def pace : Nat :=
  match order with
  | .twice _ => 2
  | _ => 1

theorem pace_bounds : 0 < pace ∧ pace ≤ 2 := by
  unfold pace
  split <;> omega

theorem draw_next (n : BitVec 16) : (draw n).2.toNat = (n.toNat + pace) % 65536 := by
  unfold draw pace
  generalize (order : Order) = o
  rcases o with _ | _ | _ | _
  · exact BitVec.toNat_add n 1
  · exact BitVec.toNat_add n 1
  · exact BitVec.toNat_add n 2
  · exact BitVec.toNat_add n 2

theorem counter_toNat (k : Nat) (n : BitVec 16) :
    (counter k n).toNat = (n.toNat + pace * k) % 65536 := by
  induction k generalizing n with
  | zero => exact (Nat.mod_eq_of_lt n.isLt).symm
  | succ k ih =>
    have further : pace * (k + 1) = pace + pace * k := by rw [Nat.mul_succ, Nat.add_comm]
    rw [counter, ih, draw_next, further]
    omega

/-- No port comes back within the first 32768 turns. -/
theorem portAt_injective {j k : Nat} {n : BitVec 16} (hj : j < 32768) (hk : k < 32768)
    (same : portAt j n = portAt k n) : j = k := by
  have values := congrArg BitVec.toNat (draw_injective same)
  have bound := n.isLt
  rw [counter_toNat, counter_toNat] at values
  obtain ⟨least, most⟩ := pace_bounds
  rcases Nat.lt_or_ge pace 2 with one | two
  · have one' : pace = 1 := by omega
    rw [one'] at values
    omega
  · have two' : pace = 2 := by omega
    rw [two'] at values
    omega

/-! ## The search -/

section Search
variable {s t : Sockets} {type : SockType} {n : BitVec 16}

/-- `sock_find` knows the port. -/
def taken (s : Sockets) (type : SockType) (port : BitVec 16) : Prop :=
  (sock_find s type .SRC ⟨INADDR_ANY, port⟩).isSome = true

instance (s : Sockets) (type : SockType) (port : BitVec 16) : Decidable (taken s type port) := by
  unfold taken; infer_instance

theorem taken_iff (port : BitVec 16) : taken s type port ↔ ∃ i, i < NSOCKET ∧
    (s.socket i).s_state ≠ SS_UNUSED ∧ (s.socket i).s_type = type ∧
      (s.socket i).s_addr .SRC = ⟨INADDR_ANY, port⟩ := by
  unfold taken sock_find
  rw [List.find?_isSome]
  constructor
  · rintro ⟨i, member, matches'⟩
    refine ⟨i, List.mem_range.mp member, ?_⟩
    unfold found at matches'
    split at matches'
    · cases matches'
    rename_i used
    split at matches'
    · cases matches'
    rename_i port'
    split at matches'
    · cases matches'
    rename_i addr
    obtain ⟨state, type'⟩ := not_or.mp used
    refine ⟨state, not_not.mp type', ?_⟩
    have any : ((s.socket i).s_addr .SRC).addr = INADDR_ANY := by
      by_contra other
      exact addr ⟨other, other⟩
    have port'' := not_not.mp port'
    cases h : (s.socket i).s_addr .SRC with
    | mk a p =>
      rw [h] at any port''
      rw [show a = INADDR_ANY from any, show p = port from port'']
  · rintro ⟨i, hi, state, type', addr⟩
    refine ⟨i, List.mem_range.mpr hi, ?_⟩
    unfold found
    rw [if_neg (not_or.mpr ⟨state, not_not.mpr type'⟩), addr, if_neg (not_not.mpr rfl),
      if_neg fun no => no.1 rfl]

/-- The search ends at the first port that is not taken. -/
theorem autoPort_first {k fuel : Nat} (before : ∀ j, j < k → taken s type (portAt j n))
    (free : ¬ taken s type (portAt k n)) (enough : k < fuel) :
    autoPort s type fuel n = some (portAt k n, counter (k + 1) n) := by
  induction k generalizing n fuel with
  | zero =>
    cases fuel with
    | zero => exact absurd enough (Nat.not_lt_zero 0)
    | succ fuel => exact if_neg free
  | succ k ih =>
    cases fuel with
    | zero => exact absurd enough (Nat.not_lt_zero _)
    | succ fuel =>
      have first := before 0 (Nat.succ_pos k)
      rw [autoPort]
      exact (if_pos first).trans
        (ih (fun j hj => before (j + 1) (Nat.succ_lt_succ hj)) free (Nat.lt_of_succ_lt_succ enough))

/-- One of the first ports is free: there are more of them than sockets. -/
theorem some_free (s : Sockets) (type : SockType) (n : BitVec 16) :
    ∃ k, k ≤ NSOCKET ∧ ¬ taken s type (portAt k n) := by
  by_contra none_free
  have all : ∀ k, k < NSOCKET + 1 → ∃ i, i < NSOCKET ∧
      (s.socket i).s_addr .SRC = ⟨INADDR_ANY, portAt k n⟩ := by
    intro k hk
    have is_taken : taken s type (portAt k n) := by
      by_contra free
      exact none_free ⟨k, Nat.le_of_lt_succ hk, free⟩
    obtain ⟨i, hi, _, _, addr⟩ := (taken_iff _).mp is_taken
    exact ⟨i, hi, addr⟩
  choose! holder inside holds using all
  have maps : ∀ k ∈ Finset.range (NSOCKET + 1), holder k ∈ Finset.range NSOCKET :=
    fun k member => Finset.mem_range.mpr (inside k (Finset.mem_range.mp member))
  have more : (Finset.range NSOCKET).card < (Finset.range (NSOCKET + 1)).card := by
    rw [Finset.card_range, Finset.card_range]
    exact Nat.lt_succ_self _
  obtain ⟨j, hj, k, hk, differ, same⟩ :=
    Finset.exists_ne_map_eq_of_card_lt_of_maps_to more maps
  have few := Cpu.few
  have hj' := Finset.mem_range.mp hj
  have hk' := Finset.mem_range.mp hk
  have addrs := (holds j hj').symm.trans ((congrArg (fun i => (s.socket i).s_addr .SRC) same).trans
    (holds k hk'))
  injection addrs with _ ports
  exact differ (portAt_injective (by omega) (by omega) ports)

/-- Automatic binding comes to an end, at the first free port. -/
theorem autoPort_ends (s : Sockets) (type : SockType) (n : BitVec 16) :
    ∃ k, k ≤ NSOCKET ∧ (∀ j, j < k → taken s type (portAt j n)) ∧ ¬ taken s type (portAt k n) ∧
      autoPort s type 65536 n = some (portAt k n, counter (k + 1) n) := by
  have exists_free : ∃ k, ¬ taken s type (portAt k n) := by
    obtain ⟨k, _, free⟩ := some_free s type n
    exact ⟨k, free⟩
  have few := Cpu.few
  obtain ⟨bound, small, free⟩ := some_free s type n
  have least : Nat.find exists_free ≤ bound := Nat.find_min' exists_free free
  have before : ∀ j, j < Nat.find exists_free → taken s type (portAt j n) :=
    fun j hj => not_not.mp (Nat.find_min exists_free hj)
  exact ⟨Nat.find exists_free, Nat.le_trans least small, before, Nat.find_spec exists_free,
    autoPort_first before (Nat.find_spec exists_free) (by omega)⟩

end Search

/-! ## Every address has one socket -/

/-- No two sockets that are open and of the same type are bound to the same address. -/
def Unique (s : Sockets) : Prop := ∀ i j, i < NSOCKET → j < NSOCKET → i ≠ j →
  (s.socket i).s_state ≠ SS_UNUSED → (s.socket i).bound = true →
  (s.socket j).s_state ≠ SS_UNUSED → (s.socket j).bound = true →
  (s.socket i).s_type = (s.socket j).s_type → (s.socket i).s_addr .SRC ≠ (s.socket j).s_addr .SRC

/-- No other socket of the type of socket `i` is bound to the address. -/
def addrFree (s : Sockets) (i : Nat) (sa : Sockaddrs) : Prop := ∀ j, j < NSOCKET → j ≠ i →
  (s.socket j).bound = true → (s.socket j).s_type = (s.socket i).s_type →
  (s.socket j).s_addr .SRC ≠ sa

/-- The counter comes to a port that `sock_find` does not know before it wraps, and no
socket of the type is bound to that port with an address of its own. -/
def autoCalm (s : Sockets) (i : Nat) : Prop :=
  ∃ k, (∀ j, j < k → taken s (s.socket i).s_type (portAt j s.nextauto)) ∧
    ¬ taken s (s.socket i).s_type (portAt k s.nextauto) ∧
    1024 ≤ s.nextauto.toNat ∧ s.nextauto.toNat + pace * (k + 1) ≤ 65536 ∧
    ∀ a, a ≠ INADDR_ANY → addrFree s i ⟨a, portAt k s.nextauto⟩

def Event.calm : Event → Prop
  | .setaddr sv _ => sv ≠ .SRC
  | _ => True

/-- An explicit bind asks for an address that is free, an automatic one is calm, accept
takes a stream socket, and the daemon leaves the local addresses alone. -/
def Call.calm (s : Sockets) : Call → Prop
  | .bind i sin super => bindOk s i sin super → addrFree s i ⟨sin.addr, sin.port⟩
  | .listen i => (s.socket i).s_state = SS_UNCONNECTED → autoCalm s i
  | .connect i _ _ => (s.socket i).s_state = SS_UNCONNECTED → autoCalm s i
  | .sendto i _ _ => (s.socket i).s_state = SS_UNCONNECTED → autoCalm s i
  | .accept i => ∀ n, sock_pending s i = some n → (s.socket n).s_type = .TCP
  | .message _ e => e.calm
  | _ => True

def Call.calmStep (s : Sockets) (c : Call) (t : Sockets) : Prop := c.calm s ∧ c.step s t

/-- What holds after every calm step. -/
structure Valid (s : Sockets) : Prop where
  unused : ∀ i, (s.socket i).s_state = SS_UNUSED → (s.socket i).bound = false
  unique : ∀ i j, i < NSOCKET → j < NSOCKET → i ≠ j → (s.socket i).bound = true →
    (s.socket j).bound = true → (s.socket i).s_type = (s.socket j).s_type →
    (s.socket i).s_addr .SRC ≠ (s.socket j).s_addr .SRC

theorem Valid.weaken {s : Sockets} (valid : Valid s) : Unique s :=
  fun i j hi hj differ _ bound _ bound' => valid.unique i j hi hj differ bound bound'

theorem start_valid : Valid start :=
  ⟨fun _ _ => rfl, fun _ _ _ _ _ bound => by cases bound⟩

section Valid
variable {s t : Sockets} {i : Nat} {p : Socket}

/-- One socket is stored anew. -/
theorem Valid.store (valid : Valid s) (n : BitVec 16)
    (unused : p.s_state = SS_UNUSED → p.bound = false)
    (free : i < NSOCKET → p.bound = true → ∀ j, j < NSOCKET → j ≠ i →
      (s.socket j).bound = true → (s.socket j).s_type = p.s_type → (s.socket j).s_addr .SRC ≠ p.s_addr .SRC) :
    Valid ⟨put s.socket i p, n⟩ := by
  constructor
  · intro j state
    by_cases here : j = i
    · have same : (Sockets.mk (put s.socket i p) n).socket j = p := by
        rw [here]
        exact put_same _ _ _
      rw [same] at state ⊢
      exact unused state
    · have other : (Sockets.mk (put s.socket i p) n).socket j = s.socket j := put_ne _ _ here
      rw [other] at state ⊢
      exact valid.unused j state
  · intro j k hj hk differ bound bound' type
    dsimp only at bound bound' type ⊢
    by_cases left : j = i
    · have right : k ≠ i := fun same => differ (left.trans same.symm)
      rw [left, put_same] at bound type ⊢
      rw [put_ne _ _ right] at bound' type ⊢
      exact (free (left ▸ hj) bound k hk right bound' type.symm).symm
    · rw [put_ne _ _ left] at bound type ⊢
      by_cases right : k = i
      · rw [right, put_same] at bound' type ⊢
        exact free (right ▸ hk) bound' j hj left bound type
      · rw [put_ne _ _ right] at bound' type ⊢
        exact valid.unique j k hj hk differ bound bound' type

/-- A socket that stays bound keeps its type and its address. -/
theorem Valid.modify (valid : Valid s) {f : Socket → Socket}
    (unused : (f (s.socket i)).s_state = SS_UNUSED → (f (s.socket i)).bound = false)
    (kept : (f (s.socket i)).bound = true → (s.socket i).bound = true ∧
      (f (s.socket i)).s_type = (s.socket i).s_type ∧
      (f (s.socket i)).s_addr .SRC = (s.socket i).s_addr .SRC) :
    Valid (modify s i f) := by
  refine valid.store _ unused fun hi bound j hj differ bound' type => ?_
  obtain ⟨before, type', addr⟩ := kept bound
  rw [type'] at type
  rw [addr]
  exact valid.unique j i hj hi differ bound' before type

theorem Valid.enter (valid : Valid s) (i : Nat) (state : Nat) :
    Valid (Sock.modify s i fun p => p.enter state) := by
  have bound_eq : ((s.socket i).enter state).bound =
      ((s.socket i).bound && decide (state ≠ SS_UNUSED)) := rfl
  refine valid.modify (fun gone => ?_) fun bound => ⟨?_, rfl, rfl⟩
  · have gone' : state = SS_UNUSED := gone
    rw [bound_eq, gone']
    simp
  · rw [bound_eq, Bool.and_eq_true] at bound
    exact bound.1

theorem Valid.setAddr (valid : Valid s) (i : Nat) {sv : Which} (other : sv ≠ .SRC)
    (sa : Sockaddrs) : Valid (Sock.modify s i fun p => p.setAddr sv sa) := by
  refine valid.modify (fun gone => valid.unused i gone) fun bound => ⟨bound, rfl, ?_⟩
  exact put_ne _ _ other.symm

/-- The port of a turn before the counter wraps is for everybody. -/
theorem draw_unprivileged {n : BitVec 16} (low : 1024 ≤ n.toNat) (high : n.toNat + pace ≤ 65536) :
    1024 ≤ (ntohs (draw n).1).toNat := by
  have next : (n + 1).toNat = (n.toNat + 1) % 65536 := BitVec.toNat_add n 1
  unfold pace at high
  unfold draw ntohs
  generalize (order : Order) = o at high ⊢
  rcases o with _ | _ | _ | _
  · exact low
  · dsimp only
    rw [swapped_back]
    omega
  · have high' : n.toNat + 2 ≤ 65536 := high
    dsimp only
    rw [swapped_back, next]
    omega
  · have high' : n.toNat + 2 ≤ 65536 := high
    dsimp only
    rw [swapped_back, next]
    omega

/-- The new local port of a socket is one that every user may have and that no other
socket of its type has. -/
def Picked (s t : Sockets) (i : Nat) : Prop :=
  1024 ≤ (ntohs ((t.socket i).s_addr .SRC).port).toNat ∧ ((t.socket i).s_addr .SRC).port ≠ 0 ∧
    ∀ j, j < NSOCKET → j ≠ i → (s.socket j).s_state ≠ SS_UNUSED → (s.socket j).bound = true →
      (s.socket j).s_type = (s.socket i).s_type →
      ((s.socket j).s_addr .SRC).port ≠ ((t.socket i).s_addr .SRC).port

theorem ntohs_zero : ntohs 0 = 0 := by
  unfold ntohs
  generalize (order : Order) = o
  cases o with
  | same => rfl
  | swab => rfl
  | twice _ => rfl

/-- Automatic binding always comes to an end. -/
theorem autobind_ends (s : Sockets) (i : Nat) : ∃ t, sock_autobind s i = some t := by
  obtain ⟨k, _, _, _, ends⟩ := autoPort_ends s (s.socket i).s_type s.nextauto
  unfold sock_autobind
  rw [ends]
  exact ⟨_, rfl⟩

theorem Valid.autobind (valid : Valid s) (live : (s.socket i).s_state = SS_UNCONNECTED)
    (calm : autoCalm s i) (bound : sock_autobind s i = some t) : Valid t ∧ Picked s t i := by
  obtain ⟨k, before, free, low, high, specific⟩ := calm
  have few := pace_bounds
  have enough : k < 65536 := by
    have least : k + 1 ≤ pace * (k + 1) := Nat.le_mul_of_pos_left _ few.1
    omega
  unfold sock_autobind at bound
  rw [autoPort_first before free enough] at bound
  injection bound with result
  have clear : ∀ j, j < NSOCKET → j ≠ i → (s.socket j).bound = true →
      (s.socket j).s_type = (s.socket i).s_type →
      ((s.socket j).s_addr .SRC).port ≠ portAt k s.nextauto := by
    intro j hj differ held type same
    by_cases any : ((s.socket j).s_addr .SRC).addr = INADDR_ANY
    · refine free ((taken_iff _).mpr ⟨j, hj, fun gone => ?_, type, ?_⟩)
      · have no := valid.unused j gone
        rw [held] at no
        cases no
      · rw [← any, ← same]
    · refine specific _ any j hj differ held type ?_
      rw [← same]
  have here : (t.socket i).s_addr .SRC = ⟨INADDR_ANY, portAt k s.nextauto⟩ := by
    rw [← result]
    dsimp only
    rw [put_same, bindTo_src]
  have unprivileged : 1024 ≤ (ntohs (portAt k s.nextauto)).toNat := by
    have turns : pace * (k + 1) = pace * k + pace := Nat.mul_succ _ _
    have value : (counter k s.nextauto).toNat = s.nextauto.toNat + pace * k := by
      rw [counter_toNat]
      exact Nat.mod_eq_of_lt (by omega)
    exact draw_unprivileged (by omega) (by omega)
  constructor
  · rw [← result]
    refine valid.store _ (fun gone => ?_) fun _ _ j hj differ held type same => ?_
    · have no : (s.socket i).s_state = SS_UNUSED := gone
      rw [live] at no
      cases no
    · rw [bindTo_src] at same
      exact clear j hj differ held type (congrArg Sockaddrs.port same)
  · unfold Picked
    rw [here]
    refine ⟨unprivileged, fun zero => ?_, fun j hj differ _ held type => clear j hj differ held type⟩
    have zero' : portAt k s.nextauto = 0 := zero
    rw [zero', ntohs_zero] at unprivileged
    exact absurd unprivileged (by decide)

theorem Valid.socket (valid : Valid s) (type : SockType) : Valid (Sock.socket s type) := by
  unfold Sock.socket
  split
  · exact valid
  · rename_i j found
    exact valid.modify (fun _ => rfl) fun bound => by cases bound

theorem Valid.bind (valid : Valid s) {sin : SockaddrIn} {super : Bool}
    (calm : bindOk s i sin super → addrFree s i ⟨sin.addr, sin.port⟩) :
    Valid (Sock.bind s i sin super) := by
  unfold Sock.bind
  split
  · rename_i ok
    have free := calm ok
    refine valid.store _ (fun gone => ?_) fun _ _ j hj differ held type => ?_
    · have no : (s.socket i).s_state = SS_UNUSED := gone
      rw [ok.1] at no
      cases no
    · rw [bindTo_src]
      exact free j hj differ held type
  · exact valid

theorem Valid.accept (valid : Valid s)
    (calm : ∀ n, sock_pending s i = some n → (s.socket n).s_type = .TCP) :
    Valid (Sock.accept s i) := by
  unfold Sock.accept
  split
  · exact valid
  split
  · exact valid
  · rename_i n pending
    refine valid.modify (fun gone => by cases gone) fun bound => ?_
    have bound' : ((s.socket n).bound && decide (SS_INIT ≠ SS_UNUSED)) = true := bound
    rw [Bool.and_eq_true] at bound'
    exact ⟨bound'.1, (calm n pending).symm, rfl⟩

theorem Valid.message (valid : Valid s) {e : Event} (calm : e.calm) : Valid (message s i e) := by
  unfold Sock.message
  split
  · cases e with
    | init => exact valid.enter i SS_UNCONNECTED
    | newstate state => exact valid.enter i state
    | event state => exact valid.enter i state
    | setaddr sv sa => exact valid.setAddr i calm sa
    | reset => exact valid.enter i SS_CLOSED
  · exact valid

theorem Valid.step {c : Call} (valid : Valid s) (calm : c.calm s) (run : c.step s t) : Valid t := by
  cases c with
  | socket type =>
    injection run with result
    rw [← result]
    exact valid.socket type
  | bind i sin super =>
    injection run with result
    rw [← result]
    exact valid.bind calm
  | listen i =>
    unfold Call.step Call.apply Sock.listen at run
    dsimp only at run
    split at run
    · rename_i live
      exact (valid.autobind live (calm live) run).1
    · injection run with result
      rw [← result]
      exact valid
  | connect i sin super =>
    unfold Call.step Call.apply Sock.connect at run
    dsimp only at run
    split at run
    · rename_i live
      exact (valid.autobind live (calm live) run).1
    split at run
    · injection run with result
      rw [← result]
      exact valid.setAddr i (by decide) _
    · injection run with result
      rw [← result]
      exact valid
  | sendto i dest super =>
    unfold Call.step Call.apply Sock.sendto at run
    dsimp only at run
    split at run
    · rename_i live
      exact (valid.autobind live (calm live) run).1
    split at run
    · injection run with result
      rw [← result]
      exact valid
    split at run
    · injection run with result
      rw [← result]
      exact valid.setAddr i (by decide) _
    · injection run with result
      rw [← result]
      exact valid
  | accept i =>
    injection run with result
    rw [← result]
    exact valid.accept calm
  | accepted i =>
    injection run with result
    rw [← result]
    exact valid.enter i SS_CONNECTED
  | close i =>
    injection run with result
    rw [← result]
    exact valid.enter i SS_UNUSED
  | message i e =>
    injection run with result
    rw [← result]
    exact valid.message calm

/-- After a run of calm calls every address has one socket, automatic binding comes to an
end, and a calm one picks a port as it should be. -/
theorem addresses_unique {calls : List Call} (run : Steps Call.calmStep start calls s) :
    Unique s ∧ (∀ i, ∃ t, sock_autobind s i = some t) ∧
      ∀ i t, (s.socket i).s_state = SS_UNCONNECTED → autoCalm s i →
        sock_autobind s i = some t → Picked s t i := by
  have valid : Valid s := run.keeps (fun s c t valid step => valid.step step.1 step.2) start_valid
  exact ⟨valid.weaken, autobind_ends s, fun i t live calm bound => (valid.autobind live calm bound).2⟩

end Valid

end Calls

/-! ## Two runs -/

/-- A Z80 with eight sockets. -/
@[reducible] def z80 : Cpu where
  NSOCKET := 8
  few := by omega
  order := .twice true
  our_address := 0x010000C0

/-- Port 80 of all local addresses. -/
def web : SockaddrIn := ⟨true, 0, 0x5000⟩

/-- A datagram socket that connect binds by itself. -/
theorem addresses_unique_after_connect : ∃ (_ : Cpu) (s : Sockets),
    Unique s ∧ ((s.socket 0).s_addr .SRC).port = 0x8813 := by
  let m := z80
  have opened : Call.calmStep start (.socket .UDP) (socket start .UDP) := ⟨trivial, rfl⟩
  have ready : Call.calmStep (socket start .UDP) (.message 0 .init)
      (message (socket start .UDP) 0 .init) := ⟨trivial, rfl⟩
  have alone : ∀ j, j < NSOCKET → ((message (socket start .UDP) 0 .init).socket j).bound = true →
      False := by decide +kernel
  have calm : autoCalm (message (socket start .UDP) 0 .init) 0 :=
    ⟨0, fun j hj => absurd hj (Nat.not_lt_zero j), by decide +kernel, by decide +kernel,
      by decide +kernel, fun _ _ j hj _ bound => (alone j hj bound).elim⟩
  obtain ⟨t, bound⟩ := autobind_ends (message (socket start .UDP) 0 .init) 0
  have connected : Call.calmStep (message (socket start .UDP) 0 .init) (.connect 0 web true) t :=
    ⟨fun _ => calm, bound⟩
  have run := (((Steps.nil start).snoc opened).snoc ready).snoc connected
  have port : (sock_autobind (message (socket start .UDP) 0 .init) 0).map
      (fun t => ((t.socket 0).s_addr .SRC).port) = some 0x8813 := by decide +kernel
  rw [bound] at port
  exact ⟨z80, t, (addresses_unique run).1, Option.some.inj port⟩

/-- Two datagram sockets, both bound to port 80. -/
theorem address_bound_twice : ∃ (_ : Cpu) (calls : List Call) (s : Sockets),
    Steps Call.step start calls s ∧ ¬ Unique s := by
  let m := z80
  let first := bind (message (socket start .UDP) 0 .init) 0 web true
  let second := bind (message (socket first .UDP) 1 .init) 1 web true
  have opened : Call.step start (.socket .UDP) (socket start .UDP) := rfl
  have ready : Call.step (socket start .UDP) (.message 0 .init)
      (message (socket start .UDP) 0 .init) := rfl
  have bound : Call.step (message (socket start .UDP) 0 .init) (.bind 0 web true) first := rfl
  have opened' : Call.step first (.socket .UDP) (socket first .UDP) := rfl
  have ready' : Call.step (socket first .UDP) (.message 1 .init)
      (message (socket first .UDP) 1 .init) := rfl
  have bound' : Call.step (message (socket first .UDP) 1 .init) (.bind 1 web true) second := rfl
  have run := ((((((Steps.nil start).snoc opened).snoc ready).snoc bound).snoc opened').snoc
    ready').snoc bound'
  refine ⟨z80, _, second, run, fun unique => ?_⟩
  exact unique 0 1 (by decide) (by decide) (by decide) (by decide +kernel) (by decide +kernel)
    (by decide +kernel) (by decide +kernel) (by decide +kernel) (by decide +kernel)

end Sock
