import Fuzix.Lib.Ring
import Fuzix.Lib.Run

/-!
# Bytes between the kernel and the network daemon

A stream socket has a ring of bytes in each direction, in the backing file of the
network device. The kernel and the daemon each keep both ends of both rings and tell
each other of a change by events and messages. What was accepted, handed over, received
and read is recorded as history.
-/

namespace Stream

open Ring Run

def NSOCKBUF : Nat := 4
def RINGSIZ : Nat := 1024 * NSOCKBUF
def SOCKBUFOFF : Nat := 2 * RINGSIZ
def RXBUFOFF : Nat := RINGSIZ

/-- What the daemon has to tell the kernel. -/
inductive Message where
  /-- `NE_ROOM` -/
  | room (next : Nat)
  /-- `NE_DATA` -/
  | data (next : Nat)
deriving DecidableEq

/-- One socket. -/
structure State where
  s_num : Nat
  /-- `NEV_READ` and `NEV_WRITE` in `event`. -/
  nevRead : Bool
  nevWrite : Bool
  rbuf : Nat
  rnext : Nat
  tbuf : Nat
  tnext : Nat
  /-- The `struct link` of the daemon. -/
  tstart : Nat
  tend : Nat
  len : Nat
  rstart : Nat
  rend : Nat
  /-- The message that the daemon is about to write. -/
  message : Option Message
  /-- The daemon has left. -/
  exited : Bool
  /-- The backing file. -/
  file : Nat → UInt8
  /-- The bytes that the kernel took from writers, and that the daemon took of them. -/
  accepted : List UInt8
  handed : List UInt8
  /-- The bytes that the daemon got from the network, and that the kernel gave to readers. -/
  received : List UInt8
  got : List UInt8

/-! ## The kernel -/

/-- The static variables of `ringbop`, its result, and what `op` works on. -/
structure Ringop (σ : Type) where
  sptr : Nat
  len : Nat
  r : Nat
  io : σ

section Ringbop
variable {σ : Type} (op : Nat → Nat → σ → σ) (base eptr : Nat)

/-- The part up to the end of the ring. -/
def upper (q : Ringop σ) : Ringop σ :=
  if q.len ≠ 0 ∧ q.sptr ≥ eptr then
    let spc := min q.len (RINGSIZ - q.sptr)
    ⟨if q.sptr + spc = RINGSIZ then 0 else q.sptr + spc, q.len - spc, spc,
      op (base + q.sptr) spc q.io⟩
  else q

/-- The part that is not wrapped. The difference has 16 bits. -/
def lower (q : Ringop σ) : Ringop σ :=
  if q.len ≠ 0 then
    let spc := min q.len ((eptr + 65536 - q.sptr) % 65536)
    ⟨q.sptr + spc, q.len, q.r + spc, op (base + q.sptr) spc q.io⟩
  else q

def ringbop (sptr len : Nat) (io : σ) : Ringop σ :=
  lower op base eptr (upper op base eptr ⟨sptr, len, 0, io⟩)

end Ringbop

/-- `writei` of bytes of the caller into the backing file. -/
def writei (off n : Nat) (io : (Nat → UInt8) × List UInt8) : (Nat → UInt8) × List UInt8 :=
  (blit io.1 off (io.2.take n), io.2.drop n)

/-- `readi` of the backing file to the caller. -/
def readi (file : Nat → UInt8) (off n : Nat) (io : List UInt8) : List UInt8 :=
  io ++ slice file off n

/-- `netn_queuebytes` -/
def netn_queuebytes (s : State) (data : List UInt8) : State :=
  if (s.tnext + 1) % RINGSIZ = s.tbuf then s
  else
    let c := (if s.tnext ≥ s.tbuf then RINGSIZ - (s.tnext - s.tbuf) else s.tbuf - s.tnext) - 1
    let base := s.s_num * SOCKBUFOFF + RXBUFOFF
    let q := ringbop writei base s.tbuf s.tnext (min data.length c) (s.file, data)
    { s with
      file := q.io.1
      tnext := q.sptr
      nevWrite := true
      accepted := s.accepted ++ data.take q.r }

/-- `netn_copyout` -/
def netn_copyout (s : State) (count : Nat) : State :=
  if s.rbuf = s.rnext then s
  else
    let q := ringbop (readi s.file) (s.s_num * SOCKBUFOFF) s.rnext s.rbuf count []
    { s with
      rbuf := q.sptr
      nevRead := true
      got := s.got ++ q.io }

/-- `netdev_write` -/
def Message.deliver (s : State) : Message → State
  | .room next => { s with tbuf := next, message := none }
  | .data next => { s with rnext := next, message := none }

/-! ## The daemon -/

/-- `dokernel`: the daemon reads the socket with its events. -/
def dokernel (s : State) : State := { s with
  nevRead := false
  nevWrite := false
  tstart := if s.nevWrite then s.tbuf else s.tstart
  tend := if s.nevWrite then s.tnext else s.tend
  rstart := if s.nevRead then s.rbuf else s.rstart
  rend := if s.nevRead then s.rnext else s.rend }

/-- What `send_tcp` sends. -/
def send_tcp (s : State) : List UInt8 :=
  slice s.file (s.s_num * RINGSIZ * 2 + RINGSIZ + s.tstart) s.len

/-- `netd_appcall` for a poll, with the largest segment that may be sent now. -/
def poll (s : State) (mss : Nat) : State :=
  if s.len = 0 ∧ s.tend ≠ s.tstart then
    let len := if s.tend > s.tstart then s.tend - s.tstart else RINGSIZ - s.tstart
    let s := { s with len := if mss < len then mss else len }
    { s with handed := s.handed ++ send_tcp s }
  else s

/-- `netd_appcall` for an acknowledgement, up to the message. -/
def acked (s : State) : State :=
  let data := (s.tstart + s.len) % RINGSIZ
  { s with tstart := data, len := 0, message := some (.room data) }

def room (s : State) : Nat :=
  if s.rstart > s.rend then s.rstart - s.rend - 1 else RINGSIZ - (s.rend - s.rstart) - 1

/-- `while ( len )` in `netd_appcall`. -/
def fill (base rstart : Nat) : Nat → (Nat → UInt8) → Nat → List UInt8 →
    Option ((Nat → UInt8) × Nat)
  | 0, f, rend, data => if data = [] then some (f, rend) else none
  | fuel + 1, f, rend, data =>
    if data = [] then some (f, rend)
    else
      let l := min (if rend ≥ rstart then RINGSIZ - rend else rstart - rend - 1) data.length
      fill base rstart fuel (blit f (base + rend) (data.take l))
        (if rend + l = RINGSIZ then 0 else rend + l) (data.drop l)

/-- `netd_appcall` for new data, up to the message. Nothing, if the loop does not end. -/
def newdata (s : State) (data : List UInt8) : Option State :=
  if room s < data.length then some { s with exited := true }
  else (fill (s.s_num * RINGSIZ * 2) s.rstart data.length s.file s.rend data).map fun q =>
    { s with
      file := q.1
      rend := q.2
      message := some (.data q.2)
      received := s.received ++ data }

inductive Action where
  | write (data : List UInt8)
  | read (count : Nat)
  | dokernel
  | poll (mss : Nat)
  | acked
  | newdata (data : List UInt8)
  | deliver

/-- The daemon is there, and done with its last message. -/
def ready (s : State) : Bool := s.message.isNone && !s.exited

def Action.apply (s : State) : Action → Option State
  | .write data => some (netn_queuebytes s data)
  | .read count => some (netn_copyout s count)
  | .dokernel => if ready s then some (Stream.dokernel s) else none
  | .poll mss => if ready s then some (Stream.poll s mss) else none
  | .acked => if ready s then some (Stream.acked s) else none
  | .newdata data => if ready s then Stream.newdata s data else none
  | .deliver => s.message.map fun m => m.deliver s

def Action.step (s : State) (a : Action) (t : State) : Prop := a.apply s = some t

/-- A socket that was just opened. The file is left from before. -/
def start (s_num : Nat) (file : Nat → UInt8) : State :=
  ⟨s_num, false, false, 0, 0, 0, 0, 0, 0, 0, 0, 0, none, false, file, [], [], [], []⟩

/-! ## Bytes come out as they went in -/

def txCell (s : State) (c : Nat) : UInt8 := s.file (s.s_num * SOCKBUFOFF + RXBUFOFF + c)

def rxCell (s : State) (c : Nat) : UInt8 := s.file (s.s_num * SOCKBUFOFF + c)

/-- The end of what the daemon took of the bytes to send. -/
def taken (s : State) : Nat := wrap RINGSIZ (s.tstart + s.len)

structure Fifo (s : State) : Prop where
  /-- What was accepted was handed to the daemon or is in the ring. -/
  transmit : s.accepted = s.handed ++ contents RINGSIZ (txCell s) (taken s) s.tnext
  /-- A segment is sent again with the same bytes. -/
  again : ∃ before, s.handed = before ++ send_tcp s
  /-- What was received was read or is in the ring. -/
  receive : s.received = s.got ++ contents RINGSIZ (rxCell s) s.rbuf s.rend
  kernel : s.rbuf < RINGSIZ ∧ s.rnext < RINGSIZ ∧ s.tbuf < RINGSIZ ∧ s.tnext < RINGSIZ
  daemon : s.rstart < RINGSIZ ∧ s.rend < RINGSIZ ∧ s.tstart < RINGSIZ ∧ s.tend < RINGSIZ

/-- The ends come in their order, and each side knows of the other's but for the message
on its way. -/
structure Inv (s : State) : Prop where
  fifo : Fifo s
  sending : span RINGSIZ s.tbuf s.tstart + span RINGSIZ s.tstart s.tnext < RINGSIZ
  announced : span RINGSIZ s.tstart s.tend + span RINGSIZ s.tend s.tnext < RINGSIZ
  segment : s.len ≤ span RINGSIZ s.tstart s.tend ∧ s.tstart + s.len ≤ RINGSIZ
  given : s.tbuf = s.tstart ∨ s.message = some (.room s.tstart) ∧ s.len = 0
  reading : span RINGSIZ s.rstart s.rbuf + span RINGSIZ s.rbuf s.rend < RINGSIZ
  told : span RINGSIZ s.rbuf s.rnext + span RINGSIZ s.rnext s.rend < RINGSIZ
  heard : s.rnext = s.rend ∨ s.message = some (.data s.rend)
  honest : ∀ m, s.message = some m → m = .room s.tstart ∧ s.len = 0 ∨ m = .data s.rend

section Ringbop
variable {sptr eptr k : Nat} {f : Nat → UInt8} {data : List UInt8}

theorem ringsiz : RINGSIZ = 4096 := rfl

/-- `if (p == RINGSIZ) p = 0;` -/
theorem end_wrap {n : Nat} (inside : n ≤ RINGSIZ) : (if n = RINGSIZ then 0 else n) = wrap RINGSIZ n := by
  have size := ringsiz
  unfold wrap
  split_ifs <;> omega

/-- Writing stores the bytes from `sptr` on, around the end. -/
theorem ringbop_write (base : Nat) (hs : sptr < RINGSIZ) (he : eptr < RINGSIZ)
    (room : span RINGSIZ eptr sptr + k < RINGSIZ) (enough : k ≤ data.length) :
    (ringbop writei base eptr sptr k (f, data)).sptr = wrap RINGSIZ (sptr + k) ∧
      (ringbop writei base eptr sptr k (f, data)).r = k ∧
      (ringbop writei base eptr sptr k (f, data)).io.1 =
        blit (blit f (base + sptr) ((data.take k).take (RINGSIZ - sptr))) base
          ((data.take k).drop (RINGSIZ - sptr)) := by
  have size := ringsiz
  have length : (data.take k).length = k := by rw [List.length_take, Nat.min_eq_left enough]
  unfold ringbop
  by_cases none_left : k = 0
  · have idle : upper writei base eptr ⟨sptr, k, 0, (f, data)⟩ = ⟨sptr, k, 0, (f, data)⟩ :=
      if_neg fun no => no.1 none_left
    have idle' : lower writei base eptr ⟨sptr, k, 0, (f, data)⟩ = ⟨sptr, k, 0, (f, data)⟩ :=
      if_neg fun no => no none_left
    rw [idle, idle']
    subst none_left
    refine ⟨(wrap_small hs).symm, rfl, ?_⟩
    rw [List.take_zero, List.take_nil, List.drop_nil, blit_nil, blit_nil]
  by_cases above : eptr ≤ sptr
  · by_cases short : k ≤ RINGSIZ - sptr
    · have wrapped := end_wrap (n := sptr + k) (by omega)
      have first : upper writei base eptr ⟨sptr, k, 0, (f, data)⟩ =
          ⟨wrap RINGSIZ (sptr + k), 0, k, (blit f (base + sptr) (data.take k), data.drop k)⟩ := by
        unfold upper writei
        rw [if_pos ⟨none_left, above⟩]
        dsimp only
        rw [Nat.min_eq_left short, Nat.sub_self]
        rw [wrapped]
      have second : lower writei base eptr
          ⟨wrap RINGSIZ (sptr + k), 0, k, (blit f (base + sptr) (data.take k), data.drop k)⟩ =
          ⟨wrap RINGSIZ (sptr + k), 0, k, (blit f (base + sptr) (data.take k), data.drop k)⟩ :=
        if_neg fun no => no rfl
      rw [first, second]
      refine ⟨rfl, rfl, ?_⟩
      have full : (data.take k).take (RINGSIZ - sptr) = data.take k :=
        List.take_of_length_le (by omega)
      have rest : (data.take k).drop (RINGSIZ - sptr) = [] := List.drop_of_length_le (by omega)
      rw [full, rest, blit_nil]
    · have first : upper writei base eptr ⟨sptr, k, 0, (f, data)⟩ =
          ⟨0, k - (RINGSIZ - sptr), RINGSIZ - sptr,
            (blit f (base + sptr) (data.take (RINGSIZ - sptr)), data.drop (RINGSIZ - sptr))⟩ := by
        unfold upper writei
        rw [if_pos ⟨none_left, above⟩]
        dsimp only
        rw [Nat.min_eq_right (by omega), if_pos (by omega)]
      have rest : min (k - (RINGSIZ - sptr)) ((eptr + 65536 - 0) % 65536) = k - (RINGSIZ - sptr) := by
        unfold span at room
        split_ifs at room
        omega
      rw [first]
      unfold lower writei
      dsimp only
      rw [if_pos (by omega), rest, Nat.add_zero]
      refine ⟨?_, ?_, ?_⟩
      · show 0 + (k - (RINGSIZ - sptr)) = wrap RINGSIZ (sptr + k)
        unfold wrap
        split_ifs <;> omega
      · show RINGSIZ - sptr + (k - (RINGSIZ - sptr)) = k
        omega
      · rw [List.take_take, Nat.min_eq_left (by omega), List.drop_take]
  · have idle : upper writei base eptr ⟨sptr, k, 0, (f, data)⟩ = ⟨sptr, k, 0, (f, data)⟩ :=
      if_neg fun no => above no.2
    have all : min k ((eptr + 65536 - sptr) % 65536) = k := by
      unfold span at room
      split_ifs at room
      omega
    have fits : sptr + k < RINGSIZ := by
      unfold span at room
      split_ifs at room
      omega
    rw [idle]
    unfold lower writei
    dsimp only
    rw [if_pos none_left, all, Nat.zero_add, wrap_small fits]
    have full : (data.take k).take (RINGSIZ - sptr) = data.take k :=
      List.take_of_length_le (by omega)
    have rest : (data.take k).drop (RINGSIZ - sptr) = [] := List.drop_of_length_le (by omega)
    refine ⟨rfl, rfl, ?_⟩
    rw [full, rest, blit_nil]

/-- Reading gives the cells from `sptr` on, around the end, as far as there are any. -/
theorem ringbop_read (base : Nat) (hs : sptr < RINGSIZ) (he : eptr < RINGSIZ) (waits : sptr ≠ eptr)
    (count : Nat) :
    (ringbop (readi f) base eptr sptr count []).sptr =
      wrap RINGSIZ (sptr + min count (span RINGSIZ sptr eptr)) ∧
    (ringbop (readi f) base eptr sptr count []).io =
      window RINGSIZ (fun c => f (base + c)) sptr (min count (span RINGSIZ sptr eptr)) := by
  have size := ringsiz
  have small : min count (span RINGSIZ sptr eptr) ≤ RINGSIZ := by
    have bound := span_lt hs he
    omega
  rw [window_split hs small, slice_shift, slice_shift]
  unfold ringbop
  by_cases none_left : count = 0
  · have idle : upper (readi f) base eptr ⟨sptr, count, 0, []⟩ = ⟨sptr, count, 0, []⟩ :=
      if_neg fun no => no.1 none_left
    have idle' : lower (readi f) base eptr ⟨sptr, count, 0, []⟩ = ⟨sptr, count, 0, []⟩ :=
      if_neg fun no => no none_left
    rw [idle, idle', none_left, Nat.zero_min, Nat.zero_min, Nat.zero_sub]
    exact ⟨(wrap_small hs).symm, rfl⟩
  by_cases above : eptr ≤ sptr
  · have whole : span RINGSIZ sptr eptr = RINGSIZ + eptr - sptr := by
      unfold span
      split_ifs <;> omega
    rw [whole]
    by_cases short : count ≤ RINGSIZ - sptr
    · have wrapped := end_wrap (n := sptr + count) (by omega)
      have first : upper (readi f) base eptr ⟨sptr, count, 0, []⟩ =
          ⟨wrap RINGSIZ (sptr + count), 0, count, slice f (base + sptr) count⟩ := by
        unfold upper readi
        rw [if_pos ⟨none_left, above⟩]
        dsimp only
        rw [Nat.min_eq_left short, Nat.sub_self, List.nil_append]
        rw [wrapped]
      have second : lower (readi f) base eptr
          ⟨wrap RINGSIZ (sptr + count), 0, count, slice f (base + sptr) count⟩ =
          ⟨wrap RINGSIZ (sptr + count), 0, count, slice f (base + sptr) count⟩ :=
        if_neg fun no => no rfl
      rw [first, second, Nat.min_eq_left (by omega), Nat.min_eq_left short, Nat.sub_eq_zero_of_le short]
      exact ⟨rfl, (List.append_nil _).symm⟩
    · have first : upper (readi f) base eptr ⟨sptr, count, 0, []⟩ =
          ⟨0, count - (RINGSIZ - sptr), RINGSIZ - sptr, slice f (base + sptr) (RINGSIZ - sptr)⟩ := by
        unfold upper readi
        rw [if_pos ⟨none_left, above⟩]
        dsimp only
        rw [Nat.min_eq_right (by omega), if_pos (by omega), List.nil_append]
      have rest : min (count - (RINGSIZ - sptr)) ((eptr + 65536 - 0) % 65536) =
          min count (RINGSIZ + eptr - sptr) - (RINGSIZ - sptr) := by omega
      rw [first]
      unfold lower readi
      dsimp only
      rw [if_pos (by omega), rest, Nat.zero_add, Nat.add_zero]
      refine ⟨?_, ?_⟩
      · show min count (RINGSIZ + eptr - sptr) - (RINGSIZ - sptr) =
          wrap RINGSIZ (sptr + min count (RINGSIZ + eptr - sptr))
        unfold wrap
        split_ifs <;> omega
      · rw [Nat.min_eq_right (show RINGSIZ - sptr ≤ min count (RINGSIZ + eptr - sptr) by omega)]
  · have idle : upper (readi f) base eptr ⟨sptr, count, 0, []⟩ = ⟨sptr, count, 0, []⟩ :=
      if_neg fun no => above no.2
    have whole : span RINGSIZ sptr eptr = eptr - sptr := by
      unfold span
      split_ifs <;> omega
    have part : (eptr + 65536 - sptr) % 65536 = eptr - sptr := by omega
    rw [idle, whole]
    unfold lower readi
    dsimp only
    have fits : min (min count (eptr - sptr)) (RINGSIZ - sptr) = min count (eptr - sptr) := by omega
    have inside : min count (eptr - sptr) - (RINGSIZ - sptr) = 0 := by omega
    rw [if_pos none_left, part, wrap_small (by omega), List.nil_append, fits, inside]
    exact ⟨rfl, (List.append_nil _).symm⟩

end Ringbop

/-! ## The loop of the daemon -/

section Fill
variable {base rstart rend : Nat} {f : Nat → UInt8} {data : List UInt8}

theorem fill_nil (fuel : Nat) : fill base rstart fuel f rend [] = some (f, rend) := by
  cases fuel with
  | zero => exact if_pos rfl
  | succ _ => exact if_pos rfl

theorem fill_once {l fuel : Nat} (some_data : data ≠ [])
    (part : min (if rend ≥ rstart then RINGSIZ - rend else rstart - rend - 1) data.length = l) :
    fill base rstart (fuel + 1) f rend data = fill base rstart fuel (blit f (base + rend) (data.take l))
      (if rend + l = RINGSIZ then 0 else rend + l) (data.drop l) := by
  rw [← part]
  exact if_neg some_data

/-- With enough room the loop ends, and stores the bytes from `rend` on, around the end. -/
theorem fill_done (hs : rstart < RINGSIZ) (he : rend < RINGSIZ)
    (room : span RINGSIZ rstart rend + data.length < RINGSIZ) :
    fill base rstart data.length f rend data =
      some (blit (blit f (base + rend) (data.take (RINGSIZ - rend))) base
        (data.drop (RINGSIZ - rend)), wrap RINGSIZ (rend + data.length)) := by
  have size := ringsiz
  by_cases none_left : data = []
  · rw [none_left, List.take_nil, List.drop_nil, blit_nil, blit_nil]
    show some (f, rend) = some (f, wrap RINGSIZ rend)
    rw [wrap_small he]
  have positive : 0 < data.length := List.length_pos_iff.mpr none_left
  obtain ⟨fuel, length⟩ : ∃ n, data.length = n + 1 := ⟨data.length - 1, by omega⟩
  rw [length]
  by_cases once : data.length ≤ RINGSIZ - rend
  · have all : min (if rend ≥ rstart then RINGSIZ - rend else rstart - rend - 1) data.length =
        data.length := by
      unfold span at room
      split_ifs at * <;> omega
    have full : data.take (RINGSIZ - rend) = data := List.take_of_length_le once
    have rest : data.drop (RINGSIZ - rend) = [] := List.drop_of_length_le once
    rw [fill_once none_left all, List.drop_length, fill_nil, List.take_length,
      end_wrap (by omega), full, rest, blit_nil, length]
  · have above : rstart ≤ rend := by
      unfold span at room
      split_ifs at room <;> omega
    have first : min (if rend ≥ rstart then RINGSIZ - rend else rstart - rend - 1) data.length =
        RINGSIZ - rend := by
      rw [if_pos above]
      omega
    have left : data.drop (RINGSIZ - rend) ≠ [] := fun no => by
      have gone := congrArg List.length no
      rw [List.length_drop] at gone
      have zero : data.length - (RINGSIZ - rend) = 0 := gone
      omega
    have second : min (if 0 ≥ rstart then RINGSIZ - 0 else rstart - 0 - 1)
        (data.drop (RINGSIZ - rend)).length = (data.drop (RINGSIZ - rend)).length := by
      rw [List.length_drop]
      unfold span at room
      split_ifs at * <;> omega
    have whole : rend + (RINGSIZ - rend) = RINGSIZ := by omega
    obtain ⟨fuel', more⟩ : ∃ n, fuel = n + 1 := ⟨fuel - 1, by omega⟩
    rw [fill_once none_left first, if_pos whole, more, fill_once left second, List.drop_length,
      fill_nil, List.take_length, List.length_drop, Nat.add_zero, if_neg (by omega), length]
    congr 2
    unfold wrap
    split_ifs <;> omega

end Fill

/-! ## One step -/

section Steps
variable {s t : State} {data : List UInt8}

theorem tx_base : s.s_num * RINGSIZ * 2 + RINGSIZ = s.s_num * SOCKBUFOFF + RXBUFOFF := by
  unfold SOCKBUFOFF RXBUFOFF
  rw [ringsiz]
  omega

theorem rx_base : s.s_num * RINGSIZ * 2 = s.s_num * SOCKBUFOFF := by
  unfold SOCKBUFOFF
  rw [ringsiz]
  omega

/-- A segment does not go round. -/
theorem send_window (inside : s.tstart + s.len ≤ RINGSIZ) :
    send_tcp s = window RINGSIZ (txCell s) s.tstart s.len := by
  unfold send_tcp txCell
  rw [window_slice inside, slice_shift, tx_base]

/-- The spans between the ends of the ring to send. -/
structure Sends (s : State) : Prop where
  taken : taken s < RINGSIZ
  whole : span RINGSIZ s.tstart s.tnext = span RINGSIZ s.tstart s.tend + span RINGSIZ s.tend s.tnext
  rest : span RINGSIZ (Stream.taken s) s.tnext = span RINGSIZ s.tstart s.tnext - s.len
  free : span RINGSIZ s.tbuf s.tnext = span RINGSIZ s.tbuf s.tstart + span RINGSIZ s.tstart s.tnext

theorem Inv.sends (inv : Inv s) : Sends s := by
  obtain ⟨_, _, tbuf, tnext⟩ := inv.fifo.kernel
  obtain ⟨_, _, tstart, tend⟩ := inv.fifo.daemon
  have bound := span_lt tstart tend
  have segment := inv.segment.1
  have whole := span_add tstart tend tnext inv.announced
  exact ⟨wrap_lt (by omega), whole, span_pop tstart tnext (by omega),
    span_add tbuf tstart tnext inv.sending⟩

theorem Inv.write (inv : Inv s) (data : List UInt8) : Inv (netn_queuebytes s data) := by
  unfold netn_queuebytes
  split
  · exact inv
  dsimp only
  have size := ringsiz
  have ends := inv.sends
  obtain ⟨rbuf, rnext, tbuf, tnext⟩ := inv.fifo.kernel
  obtain ⟨rstart, rend, tstart, tend⟩ := inv.fifo.daemon
  have sending := inv.sending
  have segment := inv.segment
  have whole := ends.whole
  have in_use := ends.free
  have free : (if s.tnext ≥ s.tbuf then RINGSIZ - (s.tnext - s.tbuf) else s.tbuf - s.tnext) - 1 +
      span RINGSIZ s.tbuf s.tnext < RINGSIZ := by
    unfold span
    split_ifs <;> omega
  generalize (if s.tnext ≥ s.tbuf then RINGSIZ - (s.tnext - s.tbuf) else s.tbuf - s.tnext) - 1 = c
    at free
  have length : (data.take (min data.length c)).length = min data.length c := by
    rw [List.length_take]
    omega
  have room : span RINGSIZ s.tbuf s.tnext + min data.length c < RINGSIZ := by omega
  obtain ⟨sptr, r, file⟩ := ringbop_write (f := s.file) (s.s_num * SOCKBUFOFF + RXBUFOFF) tnext
    tbuf room (Nat.min_le_left data.length c)
  rw [sptr, r, file]
  generalize data.take (min data.length c) = bs at length
  rw [← length] at room ⊢
  -- the bytes join the ring to send
  have cells : ∀ d, d < RINGSIZ → blit (blit s.file (s.s_num * SOCKBUFOFF + RXBUFOFF + s.tnext)
      (bs.take (RINGSIZ - s.tnext))) (s.s_num * SOCKBUFOFF + RXBUFOFF) (bs.drop (RINGSIZ - s.tnext))
        (s.s_num * SOCKBUFOFF + RXBUFOFF + d) = store RINGSIZ (txCell s) s.tnext bs d :=
    fun d hd => store_split tnext (by omega) hd
  have apart : ∀ d, d < RINGSIZ → blit (blit s.file (s.s_num * SOCKBUFOFF + RXBUFOFF + s.tnext)
      (bs.take (RINGSIZ - s.tnext))) (s.s_num * SOCKBUFOFF + RXBUFOFF) (bs.drop (RINGSIZ - s.tnext))
        (s.s_num * SOCKBUFOFF + d) = rxCell s d := by
    intro d hd
    have before : s.s_num * SOCKBUFOFF + d < s.s_num * SOCKBUFOFF + RXBUFOFF := by
      unfold RXBUFOFF
      omega
    rw [blit_outside (Or.inl before), blit_outside (Or.inl (by omega))]
    rfl
  have next_lt : wrap RINGSIZ (s.tnext + bs.length) < RINGSIZ := wrap_lt (by omega)
  have inside : span RINGSIZ (taken s) s.tnext + bs.length < RINGSIZ := by
    rw [ends.rest]
    omega
  exact {
    fifo := {
      transmit := by
        show s.accepted ++ bs = s.handed ++ contents RINGSIZ _ (taken s) (wrap RINGSIZ _)
        rw [inv.fifo.transmit, List.append_assoc, ← contents_push ends.taken tnext inside]
        congr 1
        exact contents_congr (fun d hd => (cells d hd).symm) ends.taken next_lt
      again := by
        obtain ⟨before, handed⟩ := inv.fifo.again
        refine ⟨before, handed.trans ?_⟩
        congr 1
        have clear : span RINGSIZ s.tstart s.tnext + bs.length < RINGSIZ := by omega
        have apart := window_store_apart (f := txCell s) (n := s.len) tstart tnext (by omega) clear
        rw [send_window segment.2, ← apart]
        symm
        refine (send_window ?_).trans (window_congr fun i hi => ?_)
        · exact segment.2
        · have hi' : i < s.len := hi
          have below : s.tstart + i < RINGSIZ + RINGSIZ := by omega
          exact cells _ (wrap_lt below)
      receive := by
        show s.received = s.got ++ contents RINGSIZ _ s.rbuf s.rend
        rw [inv.fifo.receive]
        congr 1
        exact contents_congr (fun d hd => (apart d hd).symm) rbuf rend
      kernel := ⟨rbuf, rnext, tbuf, next_lt⟩
      daemon := inv.fifo.daemon }
    sending := by
      dsimp only
      rw [span_push tstart tnext (by omega)]
      omega
    announced := by
      dsimp only
      rw [span_push tend tnext (by omega)]
      omega
    segment := segment
    given := inv.given
    reading := inv.reading
    told := inv.told
    heard := inv.heard
    honest := inv.honest }

theorem Inv.read (inv : Inv s) (count : Nat) : Inv (netn_copyout s count) := by
  unfold netn_copyout
  split
  · exact inv
  rename_i waits
  obtain ⟨rbuf, rnext, tbuf, tnext⟩ := inv.fifo.kernel
  obtain ⟨rstart, rend, tstart, tend⟩ := inv.fifo.daemon
  obtain ⟨sptr, io⟩ := ringbop_read (f := s.file) (s.s_num * SOCKBUFOFF) rbuf rnext waits count
  dsimp only
  rw [sptr, io]
  have told := inv.told
  have reading := inv.reading
  have whole := span_add rbuf rnext rend told
  have least := Nat.min_le_right count (span RINGSIZ s.rbuf s.rnext)
  generalize min count (span RINGSIZ s.rbuf s.rnext) = n at least
  have next_lt : wrap RINGSIZ (s.rbuf + n) < RINGSIZ := wrap_lt (by omega)
  exact {
    fifo := {
      transmit := inv.fifo.transmit
      again := inv.fifo.again
      receive := by
        show s.received = (s.got ++ window RINGSIZ (rxCell s) s.rbuf n) ++
          contents RINGSIZ (rxCell s) (wrap RINGSIZ (s.rbuf + n)) s.rend
        rw [inv.fifo.receive, contents_pop (k := n) rbuf rend (by omega), List.append_assoc]
      kernel := ⟨next_lt, rnext, tbuf, tnext⟩
      daemon := inv.fifo.daemon }
    sending := inv.sending
    announced := inv.announced
    segment := inv.segment
    given := inv.given
    reading := by
      dsimp only
      rw [span_push rstart rbuf (by omega), span_pop rbuf rend (by omega)]
      omega
    told := by
      dsimp only
      rw [span_pop rbuf rnext least]
      omega
    heard := inv.heard
    honest := inv.honest }

theorem Inv.idle (inv : Inv s) (ready' : ready s = true) :
    s.message = none ∧ s.tbuf = s.tstart ∧ s.rnext = s.rend := by
  unfold ready at ready'
  rw [Bool.and_eq_true] at ready'
  have none_left := Option.isNone_iff_eq_none.mp ready'.1
  refine ⟨none_left, ?_, ?_⟩
  · rcases inv.given with same | ⟨room, _⟩
    · exact same
    · rw [none_left] at room
      cases room
  · rcases inv.heard with same | data
    · exact same
    · rw [none_left] at data
      cases data

theorem Inv.dokernel (inv : Inv s) (ready' : ready s = true) : Inv (dokernel s) := by
  obtain ⟨none_left, given, heard⟩ := inv.idle ready'
  obtain ⟨rbuf, rnext, tbuf, tnext⟩ := inv.fifo.kernel
  obtain ⟨rstart, rend, tstart, tend⟩ := inv.fifo.daemon
  have ends := inv.sends
  have whole := ends.whole
  have sending := inv.sending
  have reading := inv.reading
  have segment := inv.segment
  have same : (if s.nevWrite then s.tbuf else s.tstart) = s.tstart := by
    rw [given]
    split <;> rfl
  have same' : (if s.nevRead then s.rnext else s.rend) = s.rend := by
    rw [heard]
    split <;> rfl
  unfold Stream.dokernel
  rw [same, same']
  exact {
    fifo := {
      transmit := inv.fifo.transmit
      again := inv.fifo.again
      receive := inv.fifo.receive
      kernel := inv.fifo.kernel
      daemon := by
        refine ⟨?_, rend, tstart, ?_⟩
        · dsimp only
          split
          · exact rbuf
          · exact rstart
        · dsimp only
          split
          · exact tnext
          · exact tend }
    sending := sending
    announced := by
      dsimp only
      split
      · rw [span_self]
        omega
      · exact inv.announced
    segment := by
      dsimp only
      split
      · exact ⟨by omega, segment.2⟩
      · exact segment
    given := inv.given
    reading := by
      dsimp only
      split
      · rw [span_self]
        omega
      · exact reading
    told := inv.told
    heard := inv.heard
    honest := inv.honest }

theorem Inv.poll (inv : Inv s) (ready' : ready s = true) (mss : Nat) : Inv (poll s mss) := by
  unfold Stream.poll
  split
  · rename_i can_send
    obtain ⟨none_left, given, _⟩ := inv.idle ready'
    obtain ⟨_, _, tbuf, tnext⟩ := inv.fifo.kernel
    obtain ⟨rstart, rend, tstart, tend⟩ := inv.fifo.daemon
    have size := ringsiz
    have ends := inv.sends
    have whole := ends.whole
    have bounds : (if mss < (if s.tend > s.tstart then s.tend - s.tstart else RINGSIZ - s.tstart)
        then mss else (if s.tend > s.tstart then s.tend - s.tstart else RINGSIZ - s.tstart)) ≤
          span RINGSIZ s.tstart s.tend ∧ s.tstart + (if mss < (if s.tend > s.tstart then
            s.tend - s.tstart else RINGSIZ - s.tstart) then mss else (if s.tend > s.tstart then
              s.tend - s.tstart else RINGSIZ - s.tstart)) ≤ RINGSIZ := by
      have differ := can_send.2
      unfold span
      split_ifs <;> omega
    dsimp only
    generalize (if mss < (if s.tend > s.tstart then s.tend - s.tstart else RINGSIZ - s.tstart)
        then mss else (if s.tend > s.tstart then s.tend - s.tstart else RINGSIZ - s.tstart)) = len
      at bounds
    have inside : len ≤ span RINGSIZ s.tstart s.tnext := by omega
    exact {
      fifo := {
        transmit := by
          have before := inv.fifo.transmit
          have start : taken s = s.tstart := by
            unfold taken
            rw [can_send.1, Nat.add_zero, wrap_small tstart]
          rw [start, contents_pop (k := len) tstart tnext inside, ← List.append_assoc] at before
          refine before.trans ?_
          rw [send_window bounds.2]
          rfl
        again := ⟨s.handed, rfl⟩
        receive := inv.fifo.receive
        kernel := inv.fifo.kernel
        daemon := inv.fifo.daemon }
      sending := inv.sending
      announced := inv.announced
      segment := bounds
      given := Or.inl given
      reading := inv.reading
      told := inv.told
      heard := inv.heard
      honest := fun m some_message => by
        have no : s.message = some m := some_message
        rw [none_left] at no
        cases no }
  · exact inv

theorem Inv.acked (inv : Inv s) (ready' : ready s = true) : Inv (acked s) := by
  obtain ⟨none_left, given, heard⟩ := inv.idle ready'
  obtain ⟨_, _, tbuf, tnext⟩ := inv.fifo.kernel
  obtain ⟨rstart, rend, tstart, tend⟩ := inv.fifo.daemon
  have size := ringsiz
  have ends := inv.sends
  have whole := ends.whole
  have segment := inv.segment
  have bound := span_lt tstart tend
  have sending := inv.sending
  have announced := inv.announced
  have moved : (s.tstart + s.len) % RINGSIZ = taken s := by
    unfold taken wrap
    split_ifs with inside
    · exact Nat.mod_eq_of_lt inside
    · have whole_ring : s.tstart + s.len = RINGSIZ := by omega
      rw [whole_ring, Nat.mod_self, Nat.sub_self]
  have stay : wrap RINGSIZ (taken s + 0) = taken s := wrap_small ends.taken
  have gap : span RINGSIZ s.tbuf (taken s) = s.len := by
    rw [given]
    exact span_wrap tstart (by omega)
  unfold Stream.acked
  rw [moved]
  exact {
    fifo := {
      transmit := by
        have before := inv.fifo.transmit
        rw [← stay] at before
        exact before
      again := ⟨s.handed, (List.append_nil _).symm⟩
      receive := inv.fifo.receive
      kernel := inv.fifo.kernel
      daemon := ⟨rstart, rend, ends.taken, tend⟩ }
    sending := by
      dsimp only
      rw [gap, ends.rest]
      omega
    announced := by
      dsimp only
      have popped : span RINGSIZ (taken s) s.tend = span RINGSIZ s.tstart s.tend - s.len :=
        span_pop tstart tend segment.1
      rw [popped]
      omega
    segment := ⟨Nat.zero_le _, Nat.le_of_lt ends.taken⟩
    given := Or.inr ⟨rfl, rfl⟩
    reading := inv.reading
    told := inv.told
    heard := Or.inl heard
    honest := fun m some_message => by
      injection some_message with same
      exact Or.inl ⟨same.symm, rfl⟩ }

/-- `room` counts the cells that are free, but one. -/
theorem room_span (hs : s.rstart < RINGSIZ) (he : s.rend < RINGSIZ) :
    room s + span RINGSIZ s.rstart s.rend + 1 = RINGSIZ := by
  have size := ringsiz
  unfold room span
  split_ifs <;> omega

theorem Inv.newdata (inv : Inv s) (ready' : ready s = true) (run : newdata s data = some t) :
    Inv t := by
  unfold Stream.newdata at run
  split at run
  · injection run with result
    rw [← result]
    exact {
      fifo := {
        transmit := inv.fifo.transmit
        again := inv.fifo.again
        receive := inv.fifo.receive
        kernel := inv.fifo.kernel
        daemon := inv.fifo.daemon }
      sending := inv.sending
      announced := inv.announced
      segment := inv.segment
      given := inv.given
      reading := inv.reading
      told := inv.told
      heard := inv.heard
      honest := inv.honest }
  rename_i fits
  obtain ⟨none_left, given, heard⟩ := inv.idle ready'
  obtain ⟨rbuf, rnext, tbuf, tnext⟩ := inv.fifo.kernel
  obtain ⟨rstart, rend, tstart, tend⟩ := inv.fifo.daemon
  have size := ringsiz
  have counts := room_span rstart rend
  have reading := inv.reading
  have whole := span_add rstart rbuf rend reading
  have free : span RINGSIZ s.rbuf s.rend + data.length < RINGSIZ := by omega
  rw [fill_done rstart rend (by omega), rx_base] at run
  injection run with result
  rw [← result]
  dsimp only
  have cells : ∀ d, d < RINGSIZ → blit (blit s.file (s.s_num * SOCKBUFOFF + s.rend)
      (data.take (RINGSIZ - s.rend))) (s.s_num * SOCKBUFOFF) (data.drop (RINGSIZ - s.rend))
        (s.s_num * SOCKBUFOFF + d) = store RINGSIZ (rxCell s) s.rend data d :=
    fun d hd => store_split rend (by omega) hd
  have apart : ∀ d, blit (blit s.file (s.s_num * SOCKBUFOFF + s.rend)
      (data.take (RINGSIZ - s.rend))) (s.s_num * SOCKBUFOFF) (data.drop (RINGSIZ - s.rend))
        (s.s_num * SOCKBUFOFF + RXBUFOFF + d) = txCell s d := by
    intro d
    unfold RXBUFOFF txCell
    rw [blit_outside, blit_outside]
    · rfl
    · refine Or.inr ?_
      rw [List.length_take]
      omega
    · refine Or.inr ?_
      rw [List.length_drop]
      omega
  have next_lt : wrap RINGSIZ (s.rend + data.length) < RINGSIZ := wrap_lt (by omega)
  exact {
    fifo := {
      transmit := by
        refine inv.fifo.transmit.trans ?_
        congr 1
        exact contents_congr (fun d _ => (apart d).symm) inv.sends.taken tnext
      again := by
        obtain ⟨before, handed⟩ := inv.fifo.again
        refine ⟨before, handed.trans ?_⟩
        congr 1
        rw [send_window inv.segment.2]
        symm
        refine (send_window ?_).trans (window_congr fun i _ => ?_)
        · exact inv.segment.2
        · exact apart _
      receive := by
        show s.received ++ data = s.got ++ contents RINGSIZ _ s.rbuf (wrap RINGSIZ _)
        rw [inv.fifo.receive, List.append_assoc, ← contents_push rbuf rend free]
        congr 1
        exact contents_congr (fun d hd => (cells d hd).symm) rbuf next_lt
      kernel := inv.fifo.kernel
      daemon := ⟨rstart, next_lt, tstart, tend⟩ }
    sending := inv.sending
    announced := inv.announced
    segment := inv.segment
    given := Or.inl given
    reading := by
      dsimp only
      rw [span_push rbuf rend free]
      omega
    told := by
      dsimp only
      rw [heard, span_wrap rend (by omega)]
      exact free
    heard := Or.inr rfl
    honest := fun m some_message => by
      injection some_message with same
      exact Or.inr same.symm }

theorem Inv.deliver {m : Message} (inv : Inv s) (message : s.message = some m) :
    Inv (m.deliver s) := by
  obtain ⟨rbuf, rnext, tbuf, tnext⟩ := inv.fifo.kernel
  obtain ⟨rstart, rend, tstart, tend⟩ := inv.fifo.daemon
  have sending := inv.sending
  have told := inv.told
  rcases inv.honest m message with ⟨room, len⟩ | data
  · subst room
    have heard : s.rnext = s.rend := by
      rcases inv.heard with same | data
      · exact same
      · rw [message] at data
        cases data
    exact {
      fifo := {
        transmit := inv.fifo.transmit
        again := inv.fifo.again
        receive := inv.fifo.receive
        kernel := ⟨rbuf, rnext, tstart, tnext⟩
        daemon := inv.fifo.daemon }
      sending := by
        show span RINGSIZ s.tstart s.tstart + span RINGSIZ s.tstart s.tnext < RINGSIZ
        rw [span_self]
        omega
      announced := inv.announced
      segment := inv.segment
      given := Or.inl rfl
      reading := inv.reading
      told := told
      heard := Or.inl heard
      honest := fun m no => by cases no }
  · subst data
    have given : s.tbuf = s.tstart := by
      rcases inv.given with same | ⟨room, _⟩
      · exact same
      · rw [message] at room
        cases room
    exact {
      fifo := {
        transmit := inv.fifo.transmit
        again := inv.fifo.again
        receive := inv.fifo.receive
        kernel := ⟨rbuf, rend, tbuf, tnext⟩
        daemon := inv.fifo.daemon }
      sending := sending
      announced := inv.announced
      segment := inv.segment
      given := Or.inl given
      reading := inv.reading
      told := by
        show span RINGSIZ s.rbuf s.rend + span RINGSIZ s.rend s.rend < RINGSIZ
        rw [span_self]
        exact span_lt rbuf rend
      heard := Or.inl rfl
      honest := fun m no => by cases no }

theorem Inv.step {a : Action} (inv : Inv s) (run : a.step s t) : Inv t := by
  unfold Action.step Action.apply at run
  cases a with
  | write data =>
    injection run with result
    rw [← result]
    exact inv.write data
  | read count =>
    injection run with result
    rw [← result]
    exact inv.read count
  | dokernel =>
    dsimp only at run
    split at run
    · rename_i ready'
      injection run with result
      rw [← result]
      exact inv.dokernel ready'
    · cases run
  | poll mss =>
    dsimp only at run
    split at run
    · rename_i ready'
      injection run with result
      rw [← result]
      exact inv.poll ready' mss
    · cases run
  | acked =>
    dsimp only at run
    split at run
    · rename_i ready'
      injection run with result
      rw [← result]
      exact inv.acked ready'
    · cases run
  | newdata data =>
    dsimp only at run
    split at run
    · rename_i ready'
      exact inv.newdata ready' run
    · cases run
  | deliver =>
    obtain ⟨m, message, result⟩ := Option.map_eq_some_iff.mp run
    rw [← result]
    exact inv.deliver message

end Steps

end Stream
