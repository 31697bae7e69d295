import Fuzix.Lib.Ring
import Fuzix.Lib.Run
import Fuzix.Lib.Table

/-!
# The terminal line discipline

`tty_inproc` edits the line that is typed by taking characters back from the end of the
input queue, and `tty_read` takes them from its head. A reader runs until it returns or
sleeps; characters come in at any time. When a sleeper is woken, the job control of
level 2, `select` and the drivers are left out. What the drivers are sent is kept in `out`.
-/

namespace Tty

open Table Ring

/-! ## The queue -/

/-- `struct s_queue`, with positions in place of pointers. -/
structure Queue where
  data : Nat → UInt8
  head : Nat
  tail : Nat
  size : Nat
  count : Nat

def insq (q : Queue) (c : UInt8) : Queue × Bool :=
  if q.count = q.size then (q, false)
  else ({ q with
    data := put q.data q.tail c
    count := q.count + 1
    tail := if q.size ≤ q.tail + 1 then 0 else q.tail + 1 }, true)

def remq (q : Queue) : Option (UInt8 × Queue) :=
  if q.count = 0 then none
  else some (q.data q.head, { q with
    count := q.count - 1
    head := if q.size ≤ q.head + 1 then 0 else q.head + 1 })

def clrq (q : Queue) : Queue := { q with head := 0, tail := 0, count := 0 }

def uninsq (q : Queue) : Option (UInt8 × Queue) :=
  if q.count = 0 then none
  else
    let tail := if q.tail = 0 then q.size - 1 else q.tail - 1
    some (q.data tail, { q with count := q.count - 1, tail := tail })

/-! ## Settings -/

/-- `struct termios`. -/
structure Termios where
  c_iflag : BitVec 16
  c_oflag : BitVec 16
  c_lflag : BitVec 16
  c_cc : Nat → UInt8

def VMIN : Nat := 0
def VEOF : Nat := 0
def VTIME : Nat := 1
def VEOL : Nat := 1
def VERASE : Nat := 2
def VINTR : Nat := 3
def VKILL : Nat := 4
def VQUIT : Nat := 5
def VSTART : Nat := 6
def VSTOP : Nat := 7
def VDISCARD : Nat := 11

def ICRNL : BitVec 16 := 0x0002
def IGNCR : BitVec 16 := 0x0008
def INLCR : BitVec 16 := 0x0020
def ISTRIP : BitVec 16 := 0x0080
def IXON : BitVec 16 := 0x1000
def OPOST : BitVec 16 := 0x0001
def ONLCR : BitVec 16 := 0x0004
def ECHO : BitVec 16 := 0x0001
def ECHOE : BitVec 16 := 0x0002
def ECHOK : BitVec 16 := 0x0004
def ICANON : BitVec 16 := 0x0010
def ISIG : BitVec 16 := 0x0040

def SIGINT : Nat := 2
def SIGQUIT : Nat := 3

/-- `'\n'`, `'\r'`, the space, `'\b'` and the bell. -/
def newline : UInt8 := 10
def carriageReturn : UInt8 := 13
def blank : UInt8 := 32
def backspace : UInt8 := 8
def bell : UInt8 := 7

/-- A bit of the word is set. -/
def on (w flag : BitVec 16) : Prop := w &&& flag ≠ 0

instance (w flag : BitVec 16) : Decidable (on w flag) := by unfold on; infer_instance

/-! ## Input -/

/-- A terminal and its input queue. `out` is what went to the driver, and `sent` the
signals for its process group. -/
structure Terminal where
  q : Queue
  stop : Bool
  discard : Bool
  dead : Bool
  out : List UInt8
  sent : List Nat

def tty_putc (t : Terminal) (c : UInt8) : Terminal := { t with out := t.out ++ [c] }

section Inproc
variable (tio : Termios)

def tty_echo (t : Terminal) (c : UInt8) : Terminal :=
  if on tio.c_lflag ECHO then tty_putc t c else t

def tty_erase (t : Terminal) : Terminal :=
  tty_putc (tty_putc (tty_putc t backspace) blank) backspace

/-- The loop at `eraseout`. -/
def eraseout (wr : BitVec 16) : Nat → Terminal → Terminal
  | 0, t => t
  | n + 1, t =>
    match uninsq t.q with
    | none => t
    | some (oc, q) =>
      let t := { t with q := q }
      if oc = newline ∨ oc = tio.c_cc VEOL then { t with q := (insq t.q oc).1 }
      else
        let t := if on tio.c_lflag wr then tty_erase t else t
        if wr = ECHOE then t else eraseout wr n t

/-- What the input flags make of a character, if they let it through. -/
def cooked (c : UInt8) : Option UInt8 :=
  let c := if on tio.c_iflag ISTRIP then c &&& 0x7F else c
  if on tio.c_lflag ICANON ∧ c = 0 then none
  else if c = carriageReturn ∧ on tio.c_iflag IGNCR then none
  else
    let c := if c = carriageReturn ∧ on tio.c_iflag ICRNL then newline else c
    some (if c = newline ∧ on tio.c_iflag INLCR then carriageReturn else c)

/-- `tty_inproc` from the comment "All modes come here" on. -/
def deliver (t : Terminal) (c : UInt8) : Terminal × Bool :=
  let t := if c = newline ∧ tio.c_oflag &&& (OPOST ||| ONLCR) = OPOST ||| ONLCR
    then tty_echo tio t carriageReturn else t
  let (q, wr) := insq t.q c
  let t := { t with q := q }
  if wr ∧ (¬ on tio.c_lflag ICANON ∨ c ≠ tio.c_cc VEOF) then (tty_echo tio t c, wr)
  else (tty_putc t bell, wr)

/-- A character that ends a process group. -/
def isSignal (c : UInt8) : Prop := on tio.c_lflag ISIG ∧ (c = tio.c_cc VINTR ∨ c = tio.c_cc VQUIT)

instance (c : UInt8) : Decidable (isSignal tio c) := by unfold isSignal; infer_instance

/-- `tty_inproc` for a character that the input flags let through. -/
def accept (t : Terminal) (c : UInt8) : Terminal × Bool :=
  if isSignal tio c then
    ({ t with
      q := clrq t.q
      stop := false
      discard := false
      sent := t.sent ++ [if c = tio.c_cc VINTR then SIGINT else SIGQUIT] }, true)
  else if on tio.c_iflag IXON ∧ c = tio.c_cc VSTOP then ({ t with stop := true }, true)
  else if on tio.c_iflag IXON ∧ c = tio.c_cc VSTART then ({ t with stop := false }, true)
  else if on tio.c_lflag ICANON ∧ c = tio.c_cc VDISCARD then ({ t with discard := !t.discard }, true)
  else if on tio.c_lflag ICANON ∧ c = tio.c_cc VERASE then (eraseout tio ECHOE t.q.count t, true)
  else if on tio.c_lflag ICANON ∧ c = tio.c_cc VKILL then (eraseout tio ECHOK t.q.count t, true)
  else deliver tio t c

def tty_inproc (t : Terminal) (c : UInt8) : Terminal × Bool :=
  match cooked tio c with
  | none => (t, true)
  | some c => accept tio t c

end Inproc

/-! ## Reading -/

/-- A call of `tty_read`: how much it asks for, what it has, and whether the clock of
`VTIME` runs. -/
structure Reader where
  count : Nat
  got : List UInt8
  ndelay : Bool
  timed : Bool

/-- What can be seen of the terminal: a character that came, and whether it was let in, and
a call that returned, with the bytes or -1. -/
inductive Event where
  | typed (c : UInt8) (kept : Bool)
  | returned (count : Nat) (bytes : Option (List UInt8))
deriving DecidableEq

structure State where
  tty : Terminal
  running : Option Nat
  readers : Nat → Option Reader
  log : List Event

def start (size : Nat) : State where
  tty := ⟨⟨fun _ => 0, 0, 0, size, 0⟩, false, false, false, [], []⟩
  running := none
  readers := fun _ => none
  log := []

/-- The call of process `r` returns. -/
def leave (s : State) (r : Nat) (reader : Reader) (bytes : Option (List UInt8)) : State :=
  { s with
    running := none
    readers := put s.readers r none
    log := s.log ++ [.returned reader.count bytes] }

/-- At the label `out`. -/
def interrupted (reader : Reader) : Option (List UInt8) :=
  if reader.got = [] then none else some reader.got

section Read
variable (tio : Termios)

/-- `tty_read` when the queue is empty: it returns or sleeps. -/
def await (s : State) (r : Nat) (reader : Reader) : State :=
  let canon := on tio.c_lflag ICANON
  let n := (tio.c_cc VTIME).toNat
  if ¬ canon ∧ (reader.got ≠ [] ∨ n = 0) ∧ (tio.c_cc VMIN).toNat ≤ reader.got.length then
    leave s r reader (some reader.got)
  else if reader.ndelay then leave s r reader (interrupted reader)
  else { s with
    running := none
    readers := put s.readers r (some { reader with timed := !decide canon && n ≠ 0 }) }

/-- What `tty_read` does with a character of the queue. -/
def take (s : State) (r : Nat) (reader : Reader) (c : UInt8) : State :=
  let got := reader.got ++ [c]
  if on tio.c_lflag ICANON ∧ got.length = 1 ∧ c = tio.c_cc VEOF then leave s r reader (some [])
  else if on tio.c_lflag ICANON ∧ (c = newline ∨ c = tio.c_cc VEOL) then leave s r reader (some got)
  else { s with readers := put s.readers r (some { reader with got := got }) }

/-- One round of the loop of `tty_read`. -/
def round (s : State) (r : Nat) (reader : Reader) : State :=
  if reader.count ≤ reader.got.length then leave s r reader (some reader.got)
  else if s.tty.dead ∧ s.tty.q.count = 0 then leave s r reader none
  else
    match remq s.tty.q with
    | none => await tio s r reader
    | some (c, q) => take tio { s with tty := { s.tty with q := q } } r reader c

inductive Action where
  | inproc (c : UInt8)
  | hangup
  | read (r count : Nat) (ndelay : Bool)
  | round
  | wake (r : Nat)
  | signal (r : Nat)
  | expire (r : Nat)

/-- Characters and hangups come at any time, the rest while no reader runs. -/
def Action.apply (s : State) : Action → Option State
  | .inproc c =>
    let (tty, kept) := tty_inproc tio s.tty c
    some { s with tty := tty, log := s.log ++ [.typed c kept] }
  | .hangup => some { s with tty := { s.tty with dead := true } }
  | .read r count ndelay =>
    if s.running = none ∧ s.readers r = none then
      some { s with running := some r, readers := put s.readers r (some ⟨count, [], ndelay, false⟩) }
    else none
  | .round => s.running.bind fun r => (s.readers r).map fun reader => Tty.round tio s r reader
  | .wake r =>
    if s.running = none ∧ s.readers r ≠ none then some { s with running := some r } else none
  | .signal r =>
    if s.running = none then (s.readers r).map fun reader => leave s r reader (interrupted reader)
    else none
  | .expire r =>
    if s.running = none then (s.readers r).bind fun reader =>
      if reader.timed then some (leave s r reader (some reader.got)) else none
    else none

end Read

end Tty
