import Fuzix.Selmap

/-!
# select

`_select` of select.c with the answers of `tty_ioctl`. What happens while the process is asleep
is given with each sleep. Left out are `u_error`, the words at `base` and what `selwait_inode`
stores behind the maps of an inode.
-/

namespace Select

open Table
open Bits (Byte)
open Selmap (Event Memory events wants selwait_inode BLKSIZE)

/-- `getmode` -/
inductive Kind where
  | block
  | file
  | dir
  | pipe
  | tty
  | device
  | sock
deriving DecidableEq

/-- The flags of a terminal, and whether `tty_writeready` says later. A read would return at
once if there is `input`. -/
structure Tty where
  dead : Bool
  stop : Bool
  later : Bool
  input : Bool

/-- What may change of an inode. `reply` is what the driver of a device that is no terminal
answers for the events, with nothing for -1, and `traffic` the events of a socket. -/
structure Cond where
  i_size : Nat
  c_refs : Nat
  c_writers : Nat
  tty : Tty
  reply : Byte → Option Byte
  traffic : Event → Bool

/-- `files` is `getinode`, and `proc` the slot of the process. The timeout is that of the user.
There are as many descriptors as a table has that may have 16 at most. -/
structure Call where
  nfd : Nat
  within : nfd ≤ 16
  request : Event → BitVec 16
  timeout : Nat
  files : Nat → Option Nat
  kind : Nat → Kind
  proc : Nat

/-- `found` has `inr`, `outr` and `exr`. History are `looks`, the descriptors that were examined in
each round, `seen`, the inodes as the last round found them, and what other calls have added to
the two counts meanwhile. -/
structure State where
  irq : Bool
  pipesel : BitVec 16
  tty_select : BitVec 16
  p_timeout : Nat
  cond : Nat → Cond
  maps : Nat → Memory
  found : Event → BitVec 16
  looks : List (List Nat)
  seen : Nat → Cond
  otherPipes : BitVec 16
  otherTtys : BitVec 16

/-- A sleep in `psleep_flags`, which finds a signal at its end if it is `interrupted`. -/
structure Sleep where
  interrupted : Bool
  p_timeout : Nat
  cond : Nat → Cond
  maps : Nat → Memory
  irq : Bool
  pipes : BitVec 16
  ttys : BitVec 16

def SELECT_IN : Byte := 1

def SELECT_OUT : Byte := 2

def SELECT_EX : Byte := 4

/-- The byte `m` in 16 bits. -/
def wide (m : Byte) : BitVec 16 := m.setWidth 16

def Call.sum (c : Call) : BitVec 16 := c.request .input ||| c.request .output ||| c.request .except

/-- The events that the masks ask for with this bit. -/
def Call.asked (c : Call) (m : Byte) : Byte :=
  (if c.request .input &&& wide m ≠ 0 then SELECT_IN else 0) |||
    (if c.request .output &&& wide m ≠ 0 then SELECT_OUT else 0) |||
    (if c.request .except &&& wide m ≠ 0 then SELECT_EX else 0)

/-- `SELECT_BEGIN` and `SELECT_TEST`, which stop at a dead terminal, so that the look at
`TTYF_DEAD` for `SELECT_EX` never finds it. Nothing is said of the input. -/
def tty_ioctl (t : Tty) (n : Byte) : Option Byte :=
  if t.dead then none else some (if wants n .output ∧ t.stop = false ∧ t.later = false then SELECT_OUT else 0)

/-- `setbits:` -/
def State.setbits (s : State) (n m : Byte) : State :=
  { s with found := fun e => if wants n e then s.found e ||| wide m else s.found e }

/-- The events of a pipe. -/
def pipeMask (d : Cond) : Byte :=
  (if d.i_size ≠ 0 ∨ d.c_refs = 0 then SELECT_IN else 0) ||| (if d.i_size < 8 * BLKSIZE then SELECT_OUT else 0)

section
variable [Selmap.Machine]

def State.selwait (c : Call) (ino : Nat) (smask : Byte) (setit : Bool) (s : State) : State :=
  { s with maps := put s.maps ino (selwait_inode c.proc smask setit (s.maps ino)) }

def pipesel_begin (c : Call) (ino : Nat) (bits : Byte) (s : State) : Byte × State :=
  (pipeMask (s.cond ino) &&& bits, { s with pipesel := s.pipesel + 1 }.selwait c ino bits true)

def pipesel_end (c : Call) (ino : Nat) (s : State) : State :=
  { s with pipesel := s.pipesel - 1 }.selwait c ino (SELECT_IN ||| SELECT_OUT ||| SELECT_EX) false

/-- A character device: a reply is kept in `n`, and -1 makes it ready for reading and writing. -/
def State.answered (c : Call) (start : Bool) (ino : Nat) (m : Byte) (reply : Option Byte) (s : State) : State :=
  match reply with
  | none => s.setbits (SELECT_IN ||| SELECT_OUT) m
  | some n => (if start then s.selwait c ino n true else s).setbits n m

/-- The cases of `switch (getmode(ino))`. -/
def examine (c : Call) (start : Bool) (ino : Nat) (m : Byte) (s : State) : State :=
  match c.kind ino with
  | .block => s.setbits (SELECT_IN ||| SELECT_OUT) m
  | .file => s.setbits (SELECT_IN ||| SELECT_OUT) m
  | .dir => s.setbits SELECT_IN m
  | .pipe => (pipesel_begin c ino (c.asked m) s).2.setbits (pipesel_begin c ino (c.asked m) s).1 m
  | .tty =>
    let counted := if start ∧ (s.cond ino).tty.dead = false then { s with tty_select := s.tty_select + 1 } else s
    counted.answered c start ino m (tty_ioctl (s.cond ino).tty (c.asked m))
  | .device => s.answered c start ino m ((s.cond ino).reply (c.asked m))
  | .sock => s

/-- The descriptor is noted in the round. -/
def State.look (s : State) (i : Nat) : State :=
  match s.looks with
  | [] => s
  | l :: ls => { s with looks := (i :: l) :: ls }

/-- The loop over the descriptors from `i` on, with an error for the return of -1. -/
def scan (c : Call) (start : Bool) : Nat → Nat → Byte → State → Except State State
  | 0, _, _, s => .ok s
  | left + 1, i, m, s =>
    if c.sum &&& wide m ≠ 0 then
      match c.files i with
      | none => .error (s.look i)
      | some ino => scan c start left (i + 1) (m <<< 1) (examine c start ino m (s.look i))
    else scan c start left (i + 1) (m <<< 1) s

/-- A round up to the wait. -/
def turn (c : Call) (start : Bool) (s : State) : Except State State :=
  (scan c start c.nfd 0 1 { s with irq := false, looks := [] :: s.looks, seen := s.cond }).map fun t =>
    { t with found := fun e => t.found e &&& c.request e }

/-- `!sumo && udata.u_ptab->p_timeout > 1` -/
def State.waits (s : State) : Prop :=
  s.found .input ||| s.found .output ||| s.found .except = 0 ∧ 1 < s.p_timeout

instance (s : State) : Decidable s.waits := by unfold State.waits; infer_instance

def State.sleep (s : State) (z : Sleep) : State :=
  { s with
    irq := z.irq
    p_timeout := z.p_timeout
    cond := z.cond
    maps := z.maps
    pipesel := s.pipesel + z.pipes
    tty_select := s.tty_select + z.ttys
    otherPipes := s.otherPipes + z.pipes
    otherTtys := s.otherTtys + z.ttys }

/-- The loop with the sleeps that it finds. It returns nothing while it is still asleep. -/
def rounds (c : Call) (start : Bool) (script : List Sleep) (s : State) : Option (Except State State) :=
  match turn c start s with
  | .error t => some (.error t)
  | .ok t =>
    if t.waits then
      match script with
      | [] => none
      | z :: rest =>
        let u := { t.sleep z with irq := s.irq }
        if z.interrupted = false ∧ 1 < u.p_timeout then rounds c false rest u else some (.ok u)
    else some (.ok { t with irq := s.irq })

def release (c : Call) (ino : Nat) (s : State) : State :=
  match c.kind ino with
  | .tty => { s with tty_select := s.tty_select - 1 }.selwait c ino (SELECT_IN ||| SELECT_OUT ||| SELECT_EX) false
  | .device => s.selwait c ino (SELECT_IN ||| SELECT_OUT ||| SELECT_EX) false
  | .pipe => pipesel_end c ino s
  | _ => s

/-- The loop behind the results, which meets no bad descriptor. -/
def scanEnd (c : Call) : Nat → Nat → Byte → State → State
  | 0, _, _, s => s
  | left + 1, i, m, s =>
    if c.sum &&& wide m ≠ 0 then
      match c.files i with
      | none => s
      | some ino => scanEnd c left (i + 1) (m <<< 1) (release c ino s)
    else scanEnd c left (i + 1) (m <<< 1) s

/-- What the loop begins with. -/
def begun (c : Call) (s : State) : State :=
  { s with found := fun _ => 0, p_timeout := c.timeout, looks := [], otherPipes := 0, otherTtys := 0 }

/-- `_select` -/
def select (c : Call) (script : List Sleep) (s : State) : Option (Except State State) :=
  (rounds c true script (begun c s)).map fun r => r.map fun t => scanEnd c c.nfd 0 1 { t with p_timeout := 0 }

end

/-! ## What is asked of it -/

/-- Bit `i` is set in one of the masks. -/
def Call.requested (c : Call) (i : Nat) : Bool := c.sum.getLsbD i

/-- It is to be examined: no bad descriptor ends the call before it. -/
def Call.Due (c : Call) (i : Nat) : Prop :=
  i < c.nfd ∧ c.requested i = true ∧ ∀ j < i, c.requested j = true → c.files j ≠ none

/-- A device is ready for what its driver says. -/
def answers (reply : Option Byte) (e : Event) : Bool := wants (reply.getD (SELECT_IN ||| SELECT_OUT)) e

/-- An operation would not wait, or a terminal has been hung up. -/
def ready (k : Kind) (d : Cond) (asked : Byte) (e : Event) : Bool :=
  match k, e with
  | .block, .input => true
  | .block, .output => true
  | .file, .input => true
  | .file, .output => true
  | .dir, .input => true
  | .pipe, .input => d.i_size ≠ 0 || d.c_writers = 0
  | .pipe, .output => d.i_size < 8 * BLKSIZE
  | .tty, .input => d.tty.dead || d.tty.input
  | .tty, .output => d.tty.dead || !d.tty.stop && !d.tty.later
  | .tty, .except => d.tty.dead
  | .device, e => answers (d.reply asked) e
  | .sock, e => d.traffic e
  | _, _ => false

/-- What the loop takes for ready. -/
def sees (k : Kind) (d : Cond) (asked : Byte) (e : Event) : Bool :=
  match k, e with
  | .pipe, .input => d.i_size ≠ 0 || d.c_refs = 0
  | .tty, .input => d.tty.dead
  | .tty, .except => false
  | .sock, _ => false
  | k, e => ready k d asked e

/-- What holds of the inode of descriptor `i`. -/
def Call.holds (c : Call) (p : Kind → Cond → Bool) (cond : Nat → Cond) (i : Nat) : Bool :=
  match c.files i with
  | none => false
  | some ino => p (c.kind ino) (cond ino)

/-- The descriptor is seen ready for an event that it is requested for. -/
def Call.sees (c : Call) (cond : Nat → Cond) (e : Event) (i : Nat) : Bool :=
  c.holds (fun k d => Select.sees k d (c.asked (1#8 <<< i)) e) cond i

def Call.ready (c : Call) (cond : Nat → Cond) (e : Event) (i : Nat) : Bool :=
  c.holds (fun k d => Select.ready k d (c.asked (1#8 <<< i)) e) cond i

/-- The requested descriptors below `n` that a byte has a bit for and that `p` is true of. -/
def Call.tally (c : Call) (p : Nat → Bool) : Nat → Nat
  | 0 => 0
  | n + 1 => c.tally p n + if n < 8 ∧ c.requested n = true ∧ p n = true then 1 else 0

def Call.pipes (c : Call) (n : Nat) : Nat :=
  c.tally (fun i => (c.files i).any fun ino => c.kind ino = .pipe) n

/-- The terminals that begin to be selected on. -/
def Call.live (c : Call) (cond : Nat → Cond) (n : Nat) : Nat :=
  c.tally (c.holds (fun k d => k = .tty && !d.tty.dead) cond) n

def Call.dead (c : Call) (cond : Nat → Cond) (n : Nat) : Nat :=
  c.tally (c.holds (fun k d => k = .tty && d.tty.dead) cond) n

/-- No event of the eight first descriptors is seen. -/
def Call.silent (c : Call) (cond : Nat → Cond) : Prop :=
  ∀ i < 8, i < c.nfd → ∀ e ∈ events, (c.request e).getLsbD i = true → c.sees cond e i = false

instance (c : Call) (cond : Nat → Cond) : Decidable (c.silent cond) := by
  unfold Call.silent
  infer_instance

/-- How often the descriptors are examined again, and what the inodes are like the last time. -/
def Call.again (c : Call) (cond : Nat → Cond) (timeout : Nat) : List Sleep → Nat × (Nat → Cond)
  | [] => (0, cond)
  | z :: rest =>
    if c.silent cond ∧ 1 < timeout ∧ z.interrupted = false ∧ 1 < z.p_timeout then
      let later := c.again z.cond z.p_timeout rest
      (later.1 + 1, later.2)
    else (0, cond)

def theState : Except State State → State
  | .ok t => t
  | .error t => t

/-- The descriptors that are due are examined in each round, the masks that are returned have
the ready ones, the two counts have changed by what others have added, and the state of the
interrupts is that before the call. -/
structure Right (c : Call) (s : State) (r : Except State State) : Prop where
  examined : ∀ l ∈ (theState r).looks, ∀ i, i ∈ l ↔ c.Due i
  masks : ∀ t, r = .ok t → ∀ e i, (t.found e).getLsbD i = true ↔
    i < c.nfd ∧ (c.request e).getLsbD i = true ∧ c.ready t.seen e i = true
  pipes : (theState r).pipesel = s.pipesel + (theState r).otherPipes
  ttys : (theState r).tty_select = s.tty_select + (theState r).otherTtys
  irq : (theState r).irq = s.irq

/-- No descriptor behind the first eight is due. A bad one is met with the interrupts off and
nothing counted before it. Otherwise no terminal has been hung up before the call, the pipes are
examined again so often that their count wraps to where it was, and the last time everything
that is requested is seen as it is. -/
structure Sound (c : Call) (s : State) (script : List Sleep) : Prop where
  narrow : ∀ i, c.Due i → i < 8
  bad : ∀ i, c.Due i → c.files i = none → s.irq = false ∧ c.pipes i = 0 ∧ c.live s.cond i = 0
  good : (∀ i < c.nfd, c.requested i = true → c.files i ≠ none) →
    c.dead s.cond c.nfd = 0 ∧ 65536 ∣ (c.again s.cond c.timeout script).1 * c.pipes c.nfd ∧
      ∀ e, ∀ i < c.nfd, (c.request e).getLsbD i = true →
        c.sees (c.again s.cond c.timeout script).2 e i = c.ready (c.again s.cond c.timeout script).2 e i

/-! ## Bits of the masks -/

/-- The byte `m` of descriptor `i` has a bit for the first eight only. -/
theorem wide_bit (i j : Nat) : (wide (1#8 <<< i)).getLsbD j = decide (j = i ∧ i < 8) := by
  unfold wide
  rw [← BitVec.twoPow_eq, BitVec.getLsbD_setWidth, BitVec.getLsbD_twoPow]
  by_cases same : j = i
  · subst same
    by_cases low : j < 8
    · simp [low, Nat.lt_trans low (by decide : 8 < 16)]
    · simp [low]
  · have other : i ≠ j := fun h => same h.symm
    simp [same, other]

theorem and_wide (v : BitVec 16) (i : Nat) : v &&& wide (1#8 <<< i) ≠ 0 ↔ i < 8 ∧ v.getLsbD i = true := by
  constructor
  · intro some
    by_contra none
    apply some
    apply BitVec.eq_of_getLsbD_eq
    intro j _
    rw [BitVec.getLsbD_and, wide_bit]
    by_cases same : j = i
    · subst same
      by_cases low : j < 8
      · have off : v.getLsbD j = false := Bool.eq_false_iff.mpr fun on => none ⟨low, on⟩
        simp [off]
      · simp [low]
    · simp [same]
  · rintro ⟨low, on⟩ zero
    have here := congrArg (fun v => v.getLsbD i) zero
    rw [BitVec.getLsbD_and, wide_bit, on] at here
    simp [low] at here

theorem zero_bit (i : Nat) : (0 : BitVec 16).getLsbD i = false := BitVec.getLsbD_zero

theorem shifted (i : Nat) : (1#8 <<< i) <<< 1 = 1#8 <<< (i + 1) := (BitVec.shiftLeft_add 1#8 i 1).symm

theorem sum_wide (c : Call) (i : Nat) : c.sum &&& wide (1#8 <<< i) ≠ 0 ↔ i < 8 ∧ c.requested i = true :=
  and_wide c.sum i

theorem wants_or (a b : Byte) (e : Event) : wants (a ||| b) e = (wants a e || wants b e) := BitVec.getLsbD_or

theorem wants_and (a b : Byte) (e : Event) : wants (a &&& b) e = (wants a e && wants b e) := BitVec.getLsbD_and

theorem wants_ite (p : Prop) [Decidable p] (a : Byte) (e : Event) :
    wants (if p then a else 0) e = (decide p && wants a e) := by
  by_cases h : p
  · simp [h]
  · rw [if_neg h]
    simp [h, wants]

/-- The events that the byte of a descriptor asks for are those that it is requested for. -/
theorem wants_asked (c : Call) {i : Nat} (low : i < 8) (e : Event) :
    wants (c.asked (1#8 <<< i)) e = (c.request e).getLsbD i := by
  have one : ∀ e, decide (c.request e &&& wide (1#8 <<< i) ≠ 0) = (c.request e).getLsbD i := by
    intro e
    rw [Bool.eq_iff_iff, decide_eq_true_iff, and_wide]
    exact ⟨fun on => on.2, fun on => ⟨low, on⟩⟩
  unfold Call.asked
  rw [wants_or, wants_or, wants_ite, wants_ite, wants_ite, one, one, one]
  cases e <;> simp [wants, SELECT_IN, SELECT_OUT, SELECT_EX, Event.index]

theorem requested_of {c : Call} {e : Event} {i : Nat} (on : (c.request e).getLsbD i = true) :
    c.requested i = true := by
  unfold Call.requested Call.sum
  cases e <;> simp [BitVec.getLsbD_or, on]

/-! ## The look at a descriptor -/

/-- What a look at an inode does, for the byte of descriptor `i`. -/
structure Examined (c : Call) (start : Bool) (ino i : Nat) (s t : State) : Prop where
  irq : t.irq = s.irq
  timeout : t.p_timeout = s.p_timeout
  cond : t.cond = s.cond
  looks : t.looks = s.looks
  seen : t.seen = s.seen
  otherPipes : t.otherPipes = s.otherPipes
  otherTtys : t.otherTtys = s.otherTtys
  pipes : t.pipesel = s.pipesel + if c.kind ino = .pipe then 1 else 0
  ttys : t.tty_select = s.tty_select + if start = true ∧ c.kind ino = .tty ∧ (s.cond ino).tty.dead = false then 1 else 0
  found : ∃ n : Byte, (t.found = fun e => if wants n e then s.found e ||| wide (1#8 <<< i) else s.found e) ∧
    ∀ e, (c.request e).getLsbD i = true → wants n e = sees (c.kind ino) (s.cond ino) (c.asked (1#8 <<< i)) e

section
variable {c : Call} {start : Bool} {ino i : Nat} {s t : State}

/-- Bits are set after a store into the maps and the counts. -/
theorem Examined.of_setbits {maps : Nat → Memory} {pipesel tty_select : BitVec 16} {n : Byte}
    (set : t = { s with maps := maps, pipesel := pipesel, tty_select := tty_select }.setbits n (1#8 <<< i))
    (pipes : pipesel = s.pipesel + if c.kind ino = .pipe then 1 else 0)
    (ttys : tty_select = s.tty_select +
      if start = true ∧ c.kind ino = .tty ∧ (s.cond ino).tty.dead = false then 1 else 0)
    (same : ∀ e, (c.request e).getLsbD i = true →
      wants n e = sees (c.kind ino) (s.cond ino) (c.asked (1#8 <<< i)) e) :
    Examined c start ino i s t := by
  subst set
  exact ⟨rfl, rfl, rfl, rfl, rfl, rfl, rfl, pipes, ttys, n, rfl, same⟩

/-- Nothing is counted for an inode that is no pipe and no terminal. -/
theorem Examined.plain {maps : Nat → Memory} {n : Byte} (set : t = { s with maps := maps }.setbits n (1#8 <<< i))
    (pipe : c.kind ino ≠ .pipe) (tty : c.kind ino ≠ .tty)
    (same : ∀ e, (c.request e).getLsbD i = true →
      wants n e = sees (c.kind ino) (s.cond ino) (c.asked (1#8 <<< i)) e) :
    Examined c start ino i s t :=
  Examined.of_setbits set (by simp [pipe]) (by simp [tty]) same

end

section
variable [Selmap.Machine]

theorem examine_examined (c : Call) (start : Bool) (ino : Nat) {i : Nat} (low : i < 8) (s : State) :
    Examined c start ino i s (examine c start ino (1#8 <<< i) s) := by
  have asked : ∀ e, (c.request e).getLsbD i = true → wants (c.asked (1#8 <<< i)) e = true := by
    intro e on
    rw [wants_asked c low, on]
  unfold examine
  cases kind : c.kind ino with
  | block =>
    refine Examined.plain rfl (by simp [kind]) (by simp [kind]) (fun e _ => ?_)
    rw [kind]
    cases e <;> rfl
  | file =>
    refine Examined.plain rfl (by simp [kind]) (by simp [kind]) (fun e _ => ?_)
    rw [kind]
    cases e <;> rfl
  | dir =>
    refine Examined.plain rfl (by simp [kind]) (by simp [kind]) (fun e _ => ?_)
    rw [kind]
    cases e <;> rfl
  | sock =>
    have still : s = { s with maps := s.maps }.setbits 0 (1#8 <<< i) := by
      cases s
      simp [State.setbits, wants]
    refine Examined.plain still (by simp [kind]) (by simp [kind]) (fun e _ => ?_)
    rw [kind]
    cases e <;> rfl
  | pipe =>
    refine Examined.of_setbits rfl (by rw [if_pos kind]) (by simp [kind]) (fun e on => ?_)
    have mask : (pipesel_begin c ino (c.asked (1#8 <<< i)) s).1 = pipeMask (s.cond ino) &&& c.asked (1#8 <<< i) := rfl
    rw [kind, mask, wants_and, asked e on, Bool.and_true]
    unfold pipeMask
    rw [wants_or, wants_ite, wants_ite]
    cases e <;> simp [sees, ready, wants, SELECT_IN, SELECT_OUT, Event.index]
  | tty =>
    by_cases dead : (s.cond ino).tty.dead = true
    · have reply : tty_ioctl (s.cond ino).tty (c.asked (1#8 <<< i)) = none := if_pos dead
      have still : ¬ (start = true ∧ (s.cond ino).tty.dead = false) := by simp [dead]
      simp only [reply, if_neg still]
      refine Examined.of_setbits rfl (by simp [kind]) (by simp [dead]) (fun e on => ?_)
      rw [kind]
      cases e <;> simp [sees, ready, wants, SELECT_IN, SELECT_OUT, Event.index, dead]
    · have alive : (s.cond ino).tty.dead = false := Bool.eq_false_iff.mpr dead
      have reply : tty_ioctl (s.cond ino).tty (c.asked (1#8 <<< i)) = some (if wants (c.asked (1#8 <<< i)) .output ∧
          (s.cond ino).tty.stop = false ∧ (s.cond ino).tty.later = false then SELECT_OUT else 0) := if_neg dead
      have told : ∀ e, (c.request e).getLsbD i = true → wants (if wants (c.asked (1#8 <<< i)) .output ∧
          (s.cond ino).tty.stop = false ∧ (s.cond ino).tty.later = false then SELECT_OUT else 0) e =
          sees .tty (s.cond ino) (c.asked (1#8 <<< i)) e := by
        intro e on
        have mine := asked e on
        rw [wants_ite]
        cases e with
        | input => simp [sees, wants, SELECT_OUT, Event.index, alive]
        | output => simp [sees, ready, wants, SELECT_OUT, Event.index, alive] at mine ⊢; simp [mine]
        | except => simp [sees, wants, SELECT_OUT, Event.index]
      simp only [reply]
      cases start with
      | false =>
        simp only [Bool.false_eq_true, false_and, if_false]
        exact Examined.of_setbits rfl (by simp [kind]) (by simp) (by rw [kind]; exact told)
      | true =>
        simp only [alive, and_self, if_true]
        exact Examined.of_setbits rfl (by simp [kind]) (by simp [kind, alive]) (by rw [kind]; exact told)
  | device =>
    cases reply : (s.cond ino).reply (c.asked (1#8 <<< i)) with
    | none =>
      refine Examined.plain rfl (by simp [kind]) (by simp [kind]) (fun e _ => ?_)
      rw [kind]
      simp [sees, ready, answers, reply]
    | some n =>
      have told : wants n = sees .device (s.cond ino) (c.asked (1#8 <<< i)) := by
        funext e
        simp [sees, ready, answers, reply]
      cases start with
      | false => exact Examined.plain rfl (by simp [kind]) (by simp [kind]) (by rw [kind, told]; simp)
      | true => exact Examined.plain rfl (by simp [kind]) (by simp [kind]) (by rw [kind, told]; simp)

end

end Select
