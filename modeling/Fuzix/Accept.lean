import Fuzix.NetNative

/-!
# Accepting connections

`_accept` over the sockets and calls of `NetNative`. It makes the socket of a pending connection
with `make_socket`, so it waits for the daemon as `socket` does. Incoming connections are
those of `sock_alloc_accept`. How each call began, and how it should have begun, is recorded as
history.
-/

namespace Accept

open Table Run NetNative
open Sock (Which Sockaddrs SS_UNUSED SS_INIT SS_UNCONNECTED SS_BOUND SS_LISTENING SS_ACCEPTWAIT SS_CONNECTED
  SS_CLOSED)

def SS_ACCEPTING : Nat := 5
def EAGAIN : Nat := 11
def EALREADY : Nat := 39

/-- How a call begins: it returns an error, or sleeps until a connection comes, or makes a
socket of the slot `n`. -/
inductive Outcome where
  | failed (error : Nat)
  | sleeps
  | takes (n : Nat)
deriving DecidableEq

/-- How a call should begin. -/
inductive Wanted where
  | error
  | waits
  | socket (n : Nat)
deriving DecidableEq

structure State where
  net : NetNative.State
  s_data : Nat → Nat
  s_addr : Nat → Which → Sockaddrs
  /-- The process sleeps in `_accept` on the socket. -/
  waiting : Nat → Option Nat
  /-- The process is in `make_socket` for `_accept`. -/
  taking : Nat → Option Nat
  calls : List (Wanted × Outcome)

def start : State := ⟨NetNative.start, fun _ => 0, fun _ _ => ⟨0, 0⟩, fun _ => none, fun _ => none, []⟩

section Calls
variable [Limits] (s : State)

def sock_pending (l : Nat) : Option Nat :=
  (List.range NSOCKET).find? fun i =>
    decide ((s.net.slot i).s_state = SS_ACCEPTWAIT ∧ s.s_data i = l)

/-- `make_socket` on the slot of a pending connection, up to the wait for the daemon. -/
def make_socket (r n : Nat) : State × Outcome :=
  if s.net.net_ino then
    let net := NetNative.modify s.net n fun sl => (sl.init .TCP).post SS_UNCONNECTED
    ({ s with
        net := loop (note net (.posts (s.net.slot n).heard)) r n .socket (net.slot n).asked false
        taking := put s.taking r (some n) }, .takes n)
  else ({ s with net := free s.net n }, .failed ENETDOWN)

/-- The loop of `_accept` from the test for a pending connection on. -/
def turn (r l : Nat) (ndelay : Bool) : State × Outcome :=
  match sock_pending s l with
  | some n => make_socket s r n
  | none => if ndelay then (s, .failed EAGAIN) else ({ s with waiting := put s.waiting r (some l) }, .sleeps)

def accept (r l : Nat) (ndelay : Bool) : State × Outcome :=
  if (s.net.slot l).s_state = SS_LISTENING then (s, .failed EALREADY)
  else turn s r l ndelay

/-- `room`: there are a descriptor, a table entry and an inode left. -/
def wanted (l : Nat) (ndelay room : Bool) : Wanted :=
  if (s.net.slot l).s_state = SS_LISTENING then
    match sock_pending s l with
    | some n => if room then .socket n else .error
    | none => if ndelay then .error else .waits
  else .error

/-- A process in `_accept` is woken. -/
def woken (r l : Nat) : State × Outcome :=
  let t := { s with waiting := put s.waiting r none }
  if (s.net.slot l).s_error = 0 then turn t r l false
  else ({ t with net := NetNative.modify t.net l fun sl => { sl with s_error := 0 } }, .failed (s.net.slot l).s_error)

/-- The end of `_accept`, if `make_socket` is over. -/
def settle (r : Nat) : State :=
  match s.taking r, s.net.procs r with
  | some n, none =>
    let t := { s with taking := put s.taking r none }
    if s.net.file n then { t with net := NetNative.modify t.net n fun sl => { sl with s_state := SS_CONNECTED } } else t
  | _, _ => s

/-- `sock_alloc_accept` of the listener `l` on a free slot, with the address of the peer. -/
def sock_alloc_accept (l n : Nat) (peer : Sockaddrs) : State :=
  { s with
    net := NetNative.modify s.net n fun sl =>
      { sl with s_type := (s.net.slot l).s_type, s_state := SS_ACCEPTING, s_error := (s.net.slot l).s_error }
    s_data := put s.s_data n l
    s_addr := put s.s_addr n (put (s.s_addr l) .DST peer) }

end Calls

/-! ## Steps -/

inductive Action where
  /-- The other calls, their sleep and the daemon. -/
  | net (a : NetNative.Action)
  | incoming (l n : Nat) (peer : Sockaddrs)
  | ready (n : Nat)
  | accept (r l : Nat) (ndelay room : Bool)
  | wake (r : Nat)
  | interrupt (r : Nat)

/-- The process that an action is about. -/
def caller : NetNative.Action → Option Nat
  | .socket r _ => some r
  | .bind r _ _ => some r
  | .listen r _ => some r
  | .connect r _ _ => some r
  | .close r _ => some r
  | .run r _ => some r
  | .signal r => some r
  | _ => none

/-- The process is not asleep in `_accept`. -/
def free' (s : State) : Option Nat → Bool
  | none => true
  | some r => (s.waiting r).isNone

def Action.apply [Limits] (s : State) : Action → Option State
  | .net a =>
    if free' s (caller a) then
      (a.apply s.net).map fun net => (caller a).elim { s with net := net } (settle { s with net := net })
    else none
  | .incoming l n peer =>
    if (s.net.slot l).s_state = SS_LISTENING ∧ (s.net.slot n).s_state = SS_UNUSED ∧ n < NSOCKET then
      some (sock_alloc_accept s l n peer)
    else none
  | .ready n =>
    if (s.net.slot n).s_state = SS_ACCEPTING then
      some { s with net := NetNative.modify s.net n fun sl => { sl with s_state := SS_ACCEPTWAIT } }
    else none
  | .accept r l ndelay room =>
    if idle s.net r ∧ s.waiting r = none ∧ s.net.file l then
      let began := Accept.accept s r l ndelay
      some { began.1 with calls := began.1.calls ++ [(wanted s l ndelay room, began.2)] }
    else none
  | .wake r => (s.waiting r).map fun l => (woken s r l).1
  | .interrupt r => (s.waiting r).map fun _ => { s with waiting := put s.waiting r none }

/-! ## Calls that begin as they should -/

section Meets
variable [Limits] {s : State}

/-- The call begins as it should, and a call that fails changes nothing. -/
def meets (s : State) (r l : Nat) (ndelay room : Bool) : Prop :=
  match wanted s l ndelay room with
  | .error => (accept s r l ndelay).1 = s ∧ ∃ e, (accept s r l ndelay).2 = .failed e
  | .waits => (accept s r l ndelay).2 = .sleeps
  | .socket n => (accept s r l ndelay).2 = .takes n

/-- The call is one that has to fail, and no connection is pending for a socket that is not
listening. -/
def fitting (s : State) (l : Nat) (ndelay room : Bool) : Prop :=
  if (s.net.slot l).s_state = SS_LISTENING then
    if sock_pending s l = none then ndelay = true else room = false
  else sock_pending s l = none ∧ ndelay = true

instance (s : State) (l : Nat) (ndelay room : Bool) : Decidable (fitting s l ndelay room) := by
  unfold fitting
  infer_instance

theorem pending_waits {l n : Nat} (found : sock_pending s l = some n) : (s.net.slot n).s_state = SS_ACCEPTWAIT ∧
    n < NSOCKET := by
  unfold sock_pending at found
  have holds := List.find?_some found
  rw [decide_eq_true_eq] at holds
  exact ⟨holds.1, List.mem_range.mp (List.mem_of_find?_eq_some found)⟩

omit [Limits] in
/-- Taking a pending connection changes its slot, whether the daemon is there or not. -/
theorem make_socket_changes (s : State) (r : Nat) {n : Nat} (pending : (s.net.slot n).s_state = SS_ACCEPTWAIT) :
    (make_socket s r n).1 ≠ s := by
  intro same
  have state : ((make_socket s r n).1.net.slot n).s_state = SS_ACCEPTWAIT := by
    rw [same]
    exact pending
  unfold make_socket at state
  split at state
  · have init : ∀ net : NetNative.State, (net.slot n).s_state = SS_INIT → ∀ k,
        ((loop net r n .socket k false).slot n).s_state = SS_INIT := by
      intro net init k
      unfold loop
      split
      · rename_i closed
        rw [init] at closed
        exact absurd closed (by decide)
      · exact init
    rw [init] at state
    · exact absurd state (by decide)
    · exact congrArg Slot.s_state (put_same s.net.slot n _)
  · have unused : ((free s.net n).slot n).s_state = SS_UNUSED := congrArg Slot.s_state (put_same s.net.slot n _)
    exact absurd (unused.symm.trans state) (by decide)

theorem meets_iff (s : State) (r l : Nat) (ndelay room : Bool) :
    meets s r l ndelay room ↔ fitting s l ndelay room := by
  unfold meets fitting wanted accept
  by_cases listening : (s.net.slot l).s_state = SS_LISTENING
  · simp only [listening, if_true]
    cases found : sock_pending s l with
    | none => cases ndelay <;> simp
    | some n => cases room <;> simp
  · simp only [listening, if_false]
    unfold turn
    cases found : sock_pending s l with
    | none => cases ndelay <;> simp
    | some n =>
      have changed := make_socket_changes s r (pending_waits found).1
      simp [changed]

/-! ## Runs -/

def fair (s : State) : Action → Prop
  | .accept _ l ndelay room => fitting s l ndelay room
  | _ => True

instance (s : State) (a : Action) : Decidable (fair s a) := by
  cases a with
  | accept r l ndelay room => exact inferInstanceAs (Decidable (fitting s l ndelay room))
  | _ => exact inferInstanceAs (Decidable True)

/-- A call that had to fail and did. -/
def failed (x : Wanted × Outcome) : Prop := x.1 = .error ∧ ∃ e, x.2 = .failed e

/-- No process is in `_accept`, and all calls of it failed as they had to. -/
structure Sound (s : State) : Prop where
  waiting : ∀ r, s.waiting r = none
  taking : ∀ r, s.taking r = none
  calls : ∀ x ∈ s.calls, failed x

/-- The call that has to fail is the only one that begins as it should. -/
theorem fitting_fails {l : Nat} {ndelay room : Bool} (fine : fitting s l ndelay room) :
    wanted s l ndelay room = .error := by
  unfold fitting at fine
  unfold wanted
  split at fine
  · rename_i listening
    rw [if_pos listening]
    split at fine
    · rename_i none
      rw [none, fine]
      rfl
    · cases found : sock_pending s l with
      | none => contradiction
      | some n =>
        rw [fine]
        rfl
  · rename_i other
    rw [if_neg other]

omit [Limits] in
theorem settle_idle (none : ∀ r, s.taking r = none) (r : Nat) : settle s r = s := by
  unfold settle
  rw [none r]

theorem Sound.step (sound : Sound s) {a : Action} (fine : fair s a) {t : State} (run : a.apply s = some t) :
    Sound t := by
  cases a with
  | net a =>
    simp only [Action.apply, Option.ite_none_right_eq_some, Option.map_eq_some_iff] at run
    obtain ⟨_, net, _, same⟩ := run
    have moved : Sound { s with net := net } := ⟨sound.waiting, sound.taking, sound.calls⟩
    rw [← same]
    cases caller a with
    | none => exact moved
    | some r =>
      have idle := settle_idle moved.taking r
      change Sound (settle { s with net := net } r)
      rw [idle]
      exact moved
  | incoming l n peer =>
    simp only [Action.apply, Option.ite_none_right_eq_some, Option.some.injEq] at run
    rw [← run.2]
    exact ⟨sound.waiting, sound.taking, sound.calls⟩
  | ready n =>
    simp only [Action.apply, Option.ite_none_right_eq_some, Option.some.injEq] at run
    rw [← run.2]
    exact ⟨sound.waiting, sound.taking, sound.calls⟩
  | accept r l ndelay room =>
    simp only [Action.apply, Option.ite_none_right_eq_some, Option.some.injEq] at run
    rw [← run.2]
    have began := (meets_iff s r l ndelay room).mpr fine
    have error := fitting_fails fine
    unfold meets at began
    rw [error] at began
    obtain ⟨kept, e, outcome⟩ := began
    constructor
    · rw [kept]
      exact sound.waiting
    · rw [kept]
      exact sound.taking
    · rw [kept]
      intro x member
      rcases List.mem_append.mp member with old | new
      · exact sound.calls x old
      · rw [List.mem_singleton.mp new]
        exact ⟨error, e, outcome⟩
  | wake r =>
    obtain ⟨l, waits, _⟩ := Option.map_eq_some_iff.mp run
    rw [sound.waiting r] at waits
    cases waits
  | interrupt r =>
    obtain ⟨l, waits, _⟩ := Option.map_eq_some_iff.mp run
    rw [sound.waiting r] at waits
    cases waits

omit [Limits] in
theorem start_sound : Sound start := ⟨fun _ => rfl, fun _ => rfl, fun _ no => by cases no⟩

/-- A call of `accept` begins as it should just if it is fitting, whatever the state, and in a run in
which all of them are, every call fails as it has to and none sleeps or makes a socket. -/
theorem accepts_fail {as : List Action} {t : State}
    (run : Steps (fun s a t => fair s a ∧ a.apply s = some t) start as t) :
    (∀ s r l ndelay room, meets s r l ndelay room ↔ fitting s l ndelay room) ∧ (∀ x ∈ t.calls, failed x) ∧
    ∀ r, t.waiting r = none ∧ t.taking r = none := by
  have sound : Sound t := run.keeps (fun _ _ _ kept step => kept.step step.1 step.2) start_sound
  exact ⟨meets_iff, sound.calls, fun r => ⟨sound.waiting r, sound.taking r⟩⟩

end Meets

/-! ## A listening socket -/

/-- Two sockets and two processes. -/
@[reducible] def couple : Limits := ⟨2, 2⟩

/-- A process listens on the socket 0. -/
def listens : List Action :=
  [.net .init, .net (.socket 0 .TCP), .net .read, .net (.message 0 (.init 0)), .net (.run 0 true),
    .net (.bind 0 0 true), .net .read, .net (.message 0 (.newstate 3 0)), .net (.run 0 true),
    .net (.listen 0 0), .net .read, .net (.message 0 (.newstate 4 0)), .net (.run 0 true)]

/-- It does not want to wait, and no connection is there. -/
theorem accepts_fail_at_once : ∃ (_ : Limits) (t : State), (∀ x ∈ t.calls, failed x) ∧
    t.calls = [(.error, .failed EALREADY)] := by
  let m := couple
  refine ⟨m, ?_⟩
  have ran : (perform Action.apply fair (listens ++ [.accept 0 0 true true]) start).map (fun t => t.calls) =
      some [(.error, .failed EALREADY)] := by decide +kernel
  obtain ⟨t, done, calls⟩ := Option.map_eq_some_iff.mp ran
  exact ⟨t, (accepts_fail (perform_steps done)).2.1, calls⟩

/-- A connection is pending, and the call fails. -/
theorem pending_refused : ∃ (_ : Limits) (t : State), Steps (fun s a t => Action.apply s a = some t) start
    (listens ++ [.incoming 0 1 ⟨7, 80⟩, .ready 1]) t ∧ (t.net.slot 0).s_state = SS_LISTENING ∧
    wanted t 0 false true = .socket 1 ∧ accept t 0 0 false = (t, .failed EALREADY) ∧ ¬ meets t 0 0 false true := by
  let m := couple
  refine ⟨m, ?_⟩
  have ran : (perform Action.apply (fun _ _ => True) (listens ++ [.incoming 0 1 ⟨7, 80⟩, .ready 1]) start).map
      (fun t => ((t.net.slot 0).s_state, wanted t 0 false true)) = some (SS_LISTENING, .socket 1) := by
    decide +kernel
  obtain ⟨t, done, seen⟩ := Option.map_eq_some_iff.mp ran
  injection seen with listening wants
  have refused : accept t 0 0 false = (t, .failed EALREADY) := if_pos listening
  refine ⟨t, (perform_steps done).mono fun _ _ _ step => step.2, listening, wants, refused, ?_⟩
  intro meets
  unfold Accept.meets at meets
  rw [wants, refused] at meets
  cases meets

end Accept
