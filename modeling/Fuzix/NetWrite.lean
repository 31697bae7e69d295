import Fuzix.Dgram
import Fuzix.Stream

/-!
# What a write to a socket returns

`net_write` queues what fits and sleeps until the daemon has made room. A call runs until it
returns or sleeps, and everything else comes while it sleeps. How many bytes each transfer to
the backing file manages is given from outside. What a call queued is taken from the send
pointer and recorded as history. Signals to the writer and the events for the daemon are
left out.
-/

namespace NetWrite

open Table Ring Run
open Stream (RINGSIZ SOCKBUFOFF RXBUFOFF)
open Dgram (NSOCKBUF TXPKTSIZ)

/-- A call of `net_write`: `l` and `t` and the bytes that are left, then how many bytes it
queued, and how often it did. -/
structure Writer where
  l : Nat
  t : Nat
  data : List UInt8
  ndelay : Bool
  sent : Nat
  parts : Nat

/-- What a call returned, -1 or a count, and what it had queued. -/
structure Result where
  tcp : Bool
  ret : Option Nat
  sent : Nat
  parts : Nat
deriving DecidableEq

structure State where
  s_num : Nat
  /-- `s_type` is `SOCKTYPE_TCP`. -/
  tcp : Bool
  /-- `s_state` is `SS_CLOSED`. -/
  closed : Bool
  s_error : Nat
  /-- `SI_SHUTW` -/
  shutw : Bool
  tbuf : Nat
  tnext : Nat
  tlen : Nat → Nat
  file : Nat → UInt8
  running : Option Nat
  writers : Nat → Option Writer
  results : List Result

/-- How much the first and the second transfer of a turn manage. -/
structure Limits where
  first : Nat
  second : Nat

/-- `writei` of `n` bytes of the caller. It sets `u_error` when it stops short. -/
def writei (limit off n : Nat) (file : Nat → UInt8) (data : List UInt8) : Nat → UInt8 :=
  blit file off (data.take (min limit n))

/-! ## Streams -/

/-- `sptr`, and the result if it is not 0xFFFF. -/
structure Ringop where
  sptr : Nat
  file : Nat → UInt8
  r : Option Nat

section Ringbop
variable (limits : Limits) (base eptr : Nat)

/-- The part that is not wrapped, after `r` bytes. The difference has 16 bits. -/
def lower (sptr len r : Nat) (file : Nat → UInt8) (data : List UInt8) : Ringop :=
  if len ≠ 0 then
    let spc := min len ((eptr + 65536 - sptr) % 65536)
    let file := writei limits.second (base + sptr) spc file data
    if limits.second < spc then ⟨sptr, file, none⟩ else ⟨sptr + spc, file, some (r + spc)⟩
  else ⟨sptr, file, some r⟩

def ringbop (sptr len : Nat) (file : Nat → UInt8) (data : List UInt8) : Ringop :=
  if len ≠ 0 ∧ sptr ≥ eptr then
    let spc := min len (RINGSIZ - sptr)
    let file := writei limits.first (base + sptr) spc file data
    if limits.first < spc then ⟨sptr, file, none⟩
    else lower limits base eptr (if sptr + spc = RINGSIZ then 0 else sptr + spc) (len - spc) spc file
      (data.drop spc)
  else lower limits base eptr sptr len 0 file data

end Ringbop

/-- `netn_queuebytes`, with nothing for 0xFFFF. -/
def netn_queuebytes (limits : Limits) (s : State) (data : List UInt8) : State × Option Nat :=
  if (s.tnext + 1) % RINGSIZ = s.tbuf then (s, some 0)
  else
    let c := (if s.tnext ≥ s.tbuf then RINGSIZ - (s.tnext - s.tbuf) else s.tbuf - s.tnext) - 1
    let q := ringbop limits (s.s_num * SOCKBUFOFF + RXBUFOFF) s.tbuf s.tnext (min data.length c) s.file data
    ({ s with file := q.file, tnext := q.sptr }, q.r)

/-! ## Datagrams -/

/-- `u_count` after `writei` of `n` bytes, more than none. -/
def written (limit n : Nat) : Nat :=
  if n ≤ limit then n else if limit = 0 then 0xFFFF else limit

/-- `netn_putbuf`, with nothing for 0xFFFF. -/
def netn_putbuf (limits : Limits) (s : State) (data : List UInt8) : State × Option Nat :=
  if TXPKTSIZ < data.length then (s, none)
  else if (s.tnext + 1) % NSOCKBUF = s.tbuf then (s, some 0)
  else
    let count := written limits.first data.length
    ({ s with
      file := writei limits.first (s.s_num * SOCKBUFOFF + RXBUFOFF + s.tbuf * TXPKTSIZ) data.length s.file data
      tlen := put s.tlen s.tnext count
      tnext := Dgram.next s.tnext }, if count = 0xFFFF then none else some count)

/-! ## The call -/

/-- The bytes that the send pointer has moved past, or the length of the datagram. -/
def Writer.queue (w : Writer) (s t : State) : Writer :=
  if s.tnext = t.tnext then w
  else { w with
    sent := w.sent + if s.tcp then span RINGSIZ s.tnext t.tnext else t.tlen s.tnext
    parts := w.parts + 1 }

def leave (s : State) (r : Nat) (w : Writer) (ret : Option Nat) : State :=
  { s with
    running := none
    writers := put s.writers r none
    results := s.results ++ [⟨s.tcp, ret, w.sent, w.parts⟩] }

/-- `return l ? l : -1` -/
def some_of (l : Nat) : Option Nat := if l = 0 then none else some l

/-- One turn of the loop of `net_write`. -/
def turn (limits : Limits) (s : State) (r : Nat) (w : Writer) : State :=
  if w.l ≤ w.t then leave s r w (some w.l)
  else if s.closed ∨ s.shutw then leave s r w none
  else
    let (s', n) := if s.tcp then netn_queuebytes limits s w.data else netn_putbuf limits s w.data
    let w := w.queue s s'
    match n with
    | none => leave s' r w (some_of w.l)
    | some n =>
      if s'.s_error ≠ 0 then leave s' r w (some_of w.l)
      else
        let w := { w with t := w.t + n, data := w.data.drop n }
        if n ≠ 0 then { s' with writers := put s'.writers r (some w) }
        else if w.ndelay then leave s' r w none
        else { s' with running := none, writers := put s'.writers r (some w) }

/-- `net_write` up to the loop. `l` has 16 bits. -/
def begin (s : State) (r : Nat) (data : List UInt8) (ndelay : Bool) : State :=
  if s.s_error ≠ 0 then { s with s_error := 0, results := s.results ++ [⟨s.tcp, none, 0, 0⟩] }
  else
    let l := data.length % 65536
    { s with running := some r, writers := put s.writers r (some ⟨l, 0, data.take l, ndelay, 0, 0⟩) }

inductive Action where
  | write (r : Nat) (data : List UInt8) (ndelay : Bool)
  | turn (limits : Limits)
  | wake (r : Nat)
  | signal (r : Nat)
  /-- `NE_ROOM` -/
  | room (next : Nat)
  /-- `NE_EVENT` or `NE_RESET`, or the daemon's end. -/
  | event (closed shutw : Bool) (error : Nat)
  | shutdown
  /-- Another call reports the error. -/
  | sock_error

/-- The places in the ring, or the buffers. -/
def ring (s : State) : Nat := if s.tcp then RINGSIZ else NSOCKBUF

/-- The daemon sends places of the ring only. -/
def Action.apply (s : State) : Action → Option State
  | .write r data ndelay =>
    if s.running = none ∧ (s.writers r).isNone then some (NetWrite.begin s r data ndelay) else none
  | .turn limits => s.running.bind fun r => (s.writers r).map fun w => NetWrite.turn limits s r w
  | .wake r => if s.running = none ∧ (s.writers r).isSome then some { s with running := some r } else none
  | .signal r => if s.running = none then (s.writers r).map fun w => leave s r w none else none
  | .room next => if s.running = none then some { s with tbuf := next % ring s } else none
  | .event closed shutw error =>
    if s.running = none then
      some { s with
        closed := closed
        shutw := s.shutw || shutw
        s_error := if error = 0 then s.s_error else error }
    else none
  | .shutdown => if s.running = none then some { s with shutw := true } else none
  | .sock_error => if s.running = none then some { s with s_error := 0 } else none

/-- A socket that was just opened. -/
def start (s_num : Nat) (tcp : Bool) (tlen : Nat → Nat) (file : Nat → UInt8) : State :=
  ⟨s_num, tcp, false, 0, false, 0, 0, tlen, file, none, fun _ => none, []⟩

/-! ## What it should return -/

/-- A call returns what it queued, in one piece if that is a datagram, and -1 only if it
queued nothing. -/
def Result.right (x : Result) : Prop :=
  match x.ret with
  | none => x.parts = 0
  | some n => x.sent = n ∧ (x.tcp = false → x.parts ≤ 1)

/-- The room in the ring of a stream. -/
def room (s : State) : Nat := RINGSIZ - 1 - span RINGSIZ s.tbuf s.tnext

/-- How much of `n` bytes goes before the end of the ring. -/
def ahead (s : State) (n : Nat) : Nat :=
  if s.tbuf ≤ s.tnext then min (min n (room s)) (RINGSIZ - s.tnext) else 0

/-- A turn that queues something: the transfers do not fail, an error that came is reported
once all is queued, and a datagram has a buffer for all of it. -/
def turnFair (limits : Limits) (s : State) (w : Writer) : Prop :=
  if s.closed ∨ s.shutw then w.t = 0
  else if s.tcp then
    ahead s (w.l - w.t) ≤ limits.first ∧
      min (w.l - w.t) (room s) - ahead s (w.l - w.t) ≤ limits.second ∧
      (s.s_error ≠ 0 → w.l - w.t ≤ room s) ∧ (room s = 0 → w.ndelay = true → w.t = 0)
  else w.l ≤ TXPKTSIZ ∧
    if (s.tnext + 1) % NSOCKBUF = s.tbuf then s.s_error = 0 else w.l ≤ limits.first

instance (limits : Limits) (s : State) (w : Writer) : Decidable (turnFair limits s w) := by
  unfold turnFair
  infer_instance

/-- A call that has queued something is not interrupted, and its turns are fair. -/
def fair (s : State) : Action → Prop
  | .turn limits => ∀ r ∈ s.running, ∀ w ∈ s.writers r, w.t < w.l → turnFair limits s w
  | .signal r => ∀ w ∈ s.writers r, w.t = 0
  | _ => True

instance (s : State) (a : Action) : Decidable (fair s a) := by
  unfold fair
  cases a <;> infer_instance

/-! ## One pass over the ring -/

section Passes
variable {limits : Limits} {s : State} {data : List UInt8} {eptr sptr len r base : Nat}
  {file : Nat → UInt8}

theorem lower_ok (file : Nat → UInt8) (data : List UInt8) (r base : Nat)
    (fine : min len ((eptr + 65536 - sptr) % 65536) ≤ limits.second) :
    (lower limits base eptr sptr len r file data).sptr = sptr + min len ((eptr + 65536 - sptr) % 65536) ∧
    (lower limits base eptr sptr len r file data).r = some (r + min len ((eptr + 65536 - sptr) % 65536)) := by
  unfold lower
  by_cases none_left : len = 0
  · rw [if_neg (fun no => no none_left), none_left, Nat.zero_min]
    exact ⟨rfl, rfl⟩
  · rw [if_pos none_left]
    dsimp only
    rw [if_neg (Nat.not_lt.mpr fine)]
    exact ⟨rfl, rfl⟩

/-- The bytes that go in, when no transfer fails. -/
theorem ringbop_ok (base : Nat) (file : Nat → UInt8) (data : List UInt8) {k : Nat} (hs : sptr < RINGSIZ) (he : eptr < RINGSIZ)
    (room : span RINGSIZ eptr sptr + k < RINGSIZ)
    (first : (if eptr ≤ sptr then min k (RINGSIZ - sptr) else 0) ≤ limits.first)
    (second : k - (if eptr ≤ sptr then min k (RINGSIZ - sptr) else 0) ≤ limits.second) :
    (ringbop limits base eptr sptr k file data).sptr = wrap RINGSIZ (sptr + k) ∧
    (ringbop limits base eptr sptr k file data).r = some k := by
  have size := Stream.ringsiz
  unfold ringbop
  by_cases upper : k ≠ 0 ∧ sptr ≥ eptr
  · have above : eptr ≤ sptr := upper.2
    rw [if_pos above] at first second
    rw [if_pos upper]
    dsimp only
    rw [if_neg (Nat.not_lt.mpr first)]
    have turned : (if sptr + min k (RINGSIZ - sptr) = RINGSIZ then 0 else sptr + min k (RINGSIZ - sptr)) =
        wrap RINGSIZ (sptr + min k (RINGSIZ - sptr)) := Stream.end_wrap (by omega)
    have rest : min (k - min k (RINGSIZ - sptr))
        ((eptr + 65536 - wrap RINGSIZ (sptr + min k (RINGSIZ - sptr))) % 65536) =
        k - min k (RINGSIZ - sptr) := by
      unfold span wrap at *
      split_ifs at room ⊢ <;> omega
    have low := lower_ok (writei limits.first (base + sptr) (min k (RINGSIZ - sptr)) file data)
      (data.drop (min k (RINGSIZ - sptr))) (min k (RINGSIZ - sptr)) base (Nat.le_trans (Nat.le_of_eq rest) second)
    rw [rest] at low
    rw [turned]
    constructor
    · rw [low.1]
      unfold wrap
      split_ifs <;> omega
    · rw [low.2]
      congr 1
      omega
  · rw [if_neg upper]
    have rest : min k ((eptr + 65536 - sptr) % 65536) = k := by
      unfold span at room
      split_ifs at room <;> omega
    have fits : sptr + k < RINGSIZ := by
      unfold span at room
      split_ifs at room <;> omega
    have below : k - (if eptr ≤ sptr then min k (RINGSIZ - sptr) else 0) = k := by
      split <;> omega
    rw [below] at second
    have low := lower_ok file data 0 base (Nat.le_trans (Nat.le_of_eq rest) second)
    rw [rest, Nat.zero_add] at low
    rw [wrap_small fits]
    exact low

/-- Where the send pointer is left after a transfer that fails. -/
theorem ringbop_fails {k : Nat} (hs : sptr < RINGSIZ) (room : span RINGSIZ eptr sptr + k < RINGSIZ)
    (fails : (ringbop limits base eptr sptr k file data).r = none) :
    (ringbop limits base eptr sptr k file data).sptr = sptr ↔
      limits.first < (if eptr ≤ sptr then min k (RINGSIZ - sptr) else 0) ∨
      (if eptr ≤ sptr then min k (RINGSIZ - sptr) else 0) = 0 := by
  have size := Stream.ringsiz
  have stays {e p n r : Nat} {f : Nat → UInt8} {d : List UInt8}
      (none_done : (lower limits base e p n r f d).r = none) :
      (lower limits base e p n r f d).sptr = p := by
    unfold lower at none_done ⊢
    dsimp only at none_done ⊢
    split_ifs at none_done ⊢
    rfl
  unfold ringbop at fails ⊢
  by_cases upper : k ≠ 0 ∧ sptr ≥ eptr
  · have above : eptr ≤ sptr := upper.2
    rw [if_pos upper] at fails ⊢
    dsimp only at fails ⊢
    rw [if_pos above]
    by_cases first : limits.first < min k (RINGSIZ - sptr)
    · rw [if_pos first]
      exact ⟨fun _ => Or.inl first, fun _ => rfl⟩
    · rw [if_neg first] at fails ⊢
      rw [stays fails]
      have moved : min k (RINGSIZ - sptr) ≠ 0 := by omega
      constructor
      · intro same
        split_ifs at same <;> omega
      · rintro (no | no)
        · exact absurd no first
        · exact absurd no moved
  · rw [if_neg upper] at fails ⊢
    rw [stays fails]
    refine ⟨fun _ => Or.inr ?_, fun _ => rfl⟩
    split <;> omega

end Passes

/-! ## One pass of the loop -/

section Queue
variable {limits : Limits} {s : State} {data : List UInt8}

theorem room_left (hn : s.tnext < RINGSIZ) (hb : s.tbuf < RINGSIZ) :
    (if s.tnext ≥ s.tbuf then RINGSIZ - (s.tnext - s.tbuf) else s.tbuf - s.tnext) - 1 = room s := by
  have size := Stream.ringsiz
  unfold room span
  split_ifs <;> omega

theorem full_iff (hn : s.tnext < RINGSIZ) (hb : s.tbuf < RINGSIZ) :
    (s.tnext + 1) % RINGSIZ = s.tbuf ↔ room s = 0 := by
  have size := Stream.ringsiz
  have turned : (s.tnext + 1) % RINGSIZ = if s.tnext + 1 = RINGSIZ then 0 else s.tnext + 1 := by
    split_ifs with last
    · rw [last, Nat.mod_self]
    · exact Nat.mod_eq_of_lt (by omega)
  rw [turned]
  unfold room span
  split_ifs <;> omega

theorem room_span (hn : s.tnext < RINGSIZ) (hb : s.tbuf < RINGSIZ) :
    span RINGSIZ s.tbuf s.tnext + room s < RINGSIZ := by
  have less := span_lt hb hn
  unfold room
  omega

theorem queuebytes_ok (hn : s.tnext < RINGSIZ) (hb : s.tbuf < RINGSIZ)
    (first : ahead s data.length ≤ limits.first)
    (second : min data.length (room s) - ahead s data.length ≤ limits.second) :
    ∃ file, netn_queuebytes limits s data =
      ({ s with file := file, tnext := wrap RINGSIZ (s.tnext + min data.length (room s)) },
        some (min data.length (room s))) := by
  unfold netn_queuebytes
  by_cases full : (s.tnext + 1) % RINGSIZ = s.tbuf
  · rw [if_pos full, (full_iff hn hb).mp full, Nat.min_zero, Nat.add_zero, wrap_small hn]
    exact ⟨s.file, rfl⟩
  · have small := room_span hn hb
    have done := ringbop_ok (s.s_num * SOCKBUFOFF + RXBUFOFF) s.file data hn hb
      (k := min data.length (room s)) (by omega) first second
    rw [if_neg full]
    dsimp only
    rw [room_left hn hb, done.1, done.2]
    exact ⟨_, rfl⟩

theorem queuebytes_fails (hn : s.tnext < RINGSIZ) (hb : s.tbuf < RINGSIZ)
    (fails : (netn_queuebytes limits s data).2 = none) :
    (netn_queuebytes limits s data).1.tnext = s.tnext ↔
      limits.first < ahead s data.length ∨ ahead s data.length = 0 := by
  unfold netn_queuebytes at fails ⊢
  by_cases full : (s.tnext + 1) % RINGSIZ = s.tbuf
  · rw [if_pos full] at fails
    cases fails
  · have small := room_span hn hb
    rw [if_neg full] at fails ⊢
    dsimp only at fails ⊢
    rw [room_left hn hb] at fails ⊢
    exact ringbop_fails hn (by omega) fails

theorem putbuf_full (fits : data.length ≤ TXPKTSIZ) (full : (s.tnext + 1) % NSOCKBUF = s.tbuf) :
    netn_putbuf limits s data = (s, some 0) := by
  unfold netn_putbuf
  rw [if_neg (Nat.not_lt.mpr fits), if_pos full]

theorem putbuf_ok (fits : data.length ≤ TXPKTSIZ) (free : (s.tnext + 1) % NSOCKBUF ≠ s.tbuf)
    (fine : data.length ≤ limits.first) :
    ∃ file, netn_putbuf limits s data =
      ({ s with file := file, tlen := put s.tlen s.tnext data.length, tnext := Dgram.next s.tnext },
        some data.length) := by
  have small : data.length ≠ 0xFFFF := by
    unfold TXPKTSIZ at fits
    omega
  unfold netn_putbuf written
  rw [if_neg (Nat.not_lt.mpr fits), if_neg free, if_pos fine]
  dsimp only
  rw [if_neg small]
  exact ⟨_, rfl⟩

theorem next_ne (p : Nat) : p ≠ Dgram.next p := by
  have size : NSOCKBUF = 4 := rfl
  unfold Dgram.next
  split_ifs <;> omega

theorem putbuf_fails (fails : (netn_putbuf limits s data).2 = none) :
    (netn_putbuf limits s data).1.tnext = s.tnext ↔ TXPKTSIZ < data.length := by
  unfold netn_putbuf at fails ⊢
  by_cases long : TXPKTSIZ < data.length
  · rw [if_pos long]
    exact ⟨fun _ => long, fun _ => rfl⟩
  · rw [if_neg long] at fails ⊢
    split_ifs at fails ⊢
    · dsimp only
      constructor
      · intro same
        exact absurd same.symm (next_ne s.tnext)
      · intro no
        exact absurd no long

end Queue

/-! ## The calls -/

/-- What a call in the loop has queued is what it counts. -/
structure Going (tcp : Bool) (w : Writer) : Prop where
  sent : w.sent = w.t
  rest : w.t + w.data.length = w.l
  parts : w.t = 0 → w.parts = 0
  whole : tcp = false → (w.t = 0 ∨ w.t = w.l) ∧ w.parts ≤ 1

structure Sound (s : State) : Prop where
  tnext : s.tnext < ring s
  tbuf : s.tbuf < ring s
  going : ∀ r w, s.writers r = some w → Going s.tcp w
  right : ∀ x ∈ s.results, x.right

section Calls
variable {limits : Limits} {s s' : State} {r k : Nat} {w : Writer}

theorem ring_pos : 0 < ring s := by
  unfold ring
  split <;> decide

/-- The state and the count after a pass that does not fail. -/
structure Queued (s : State) (w : Writer) (s' : State) (k : Nat) : Prop where
  tcp : s'.tcp = s.tcp
  tnext : s'.tnext < ring s
  tbuf : s'.tbuf = s.tbuf
  s_error : s'.s_error = s.s_error
  writers : s'.writers = s.writers
  results : s'.results = s.results
  queue : w.queue s s' = if k = 0 then w else { w with sent := w.sent + k, parts := w.parts + 1 }
  fits : k ≤ w.data.length

theorem queue_same (same : s'.tnext = s.tnext) : w.queue s s' = w := if_pos same.symm

theorem Sound.stream (sound : Sound s) (tcp : s.tcp = true)
    (first : ahead s w.data.length ≤ limits.first)
    (second : min w.data.length (room s) - ahead s w.data.length ≤ limits.second) :
    ∃ s', netn_queuebytes limits s w.data = (s', some (min w.data.length (room s))) ∧
      Queued s w s' (min w.data.length (room s)) := by
  have size : ring s = RINGSIZ := if_pos tcp
  have hn : s.tnext < RINGSIZ := size ▸ sound.tnext
  have hb : s.tbuf < RINGSIZ := size ▸ sound.tbuf
  have small := room_span hn hb
  obtain ⟨file, same⟩ := queuebytes_ok hn hb first second
  refine ⟨_, same, rfl, ?_, rfl, rfl, rfl, rfl, ?_, Nat.min_le_left _ _⟩
  · rw [size]
    exact wrap_lt (by omega)
  · by_cases none_in : min w.data.length (room s) = 0
    · rw [if_pos none_in]
      refine queue_same ?_
      show wrap RINGSIZ (s.tnext + min w.data.length (room s)) = s.tnext
      rw [none_in, Nat.add_zero, wrap_small hn]
    · have moved := span_wrap (k := min w.data.length (room s)) hn (by omega)
      have other : s.tnext ≠ wrap RINGSIZ (s.tnext + min w.data.length (room s)) := by
        intro same
        rw [← same, span_self] at moved
        exact none_in moved.symm
      rw [if_neg none_in]
      unfold Writer.queue
      rw [if_neg other, if_pos tcp]
      dsimp only
      rw [moved]

theorem Sound.full (sound : Sound s) (fits : w.data.length ≤ TXPKTSIZ)
    (full : (s.tnext + 1) % NSOCKBUF = s.tbuf) :
    netn_putbuf limits s w.data = (s, some 0) ∧ Queued s w s 0 := by
  refine ⟨putbuf_full fits full, rfl, sound.tnext, rfl, rfl, rfl, rfl, ?_, Nat.zero_le _⟩
  rw [if_pos rfl]
  exact queue_same rfl

theorem Sound.datagram (sound : Sound s) (tcp : s.tcp = false) (some_data : w.data.length ≠ 0)
    (fits : w.data.length ≤ TXPKTSIZ) (free : (s.tnext + 1) % NSOCKBUF ≠ s.tbuf)
    (fine : w.data.length ≤ limits.first) :
    ∃ s', netn_putbuf limits s w.data = (s', some w.data.length) ∧ Queued s w s' w.data.length := by
  have size : ring s = NSOCKBUF := if_neg (by rw [tcp]; decide)
  have hn : s.tnext < NSOCKBUF := size ▸ sound.tnext
  obtain ⟨file, same⟩ := putbuf_ok fits free fine
  refine ⟨_, same, rfl, ?_, rfl, rfl, rfl, rfl, ?_, Nat.le_refl _⟩
  · rw [size]
    exact Dgram.next_lt hn
  · rw [if_neg some_data]
    unfold Writer.queue
    rw [if_neg (next_ne s.tnext), if_neg (by rw [tcp]; decide)]
    dsimp only
    rw [put_same]

theorem Sound.leaves (sound : Sound s) {ret : Option Nat} (right : Result.right ⟨s.tcp, ret, w.sent, w.parts⟩) :
    Sound (leave s r w ret) where
  tnext := sound.tnext
  tbuf := sound.tbuf
  going q v here := by
    change put s.writers r none q = some v at here
    by_cases same : q = r
    · rw [same, put_same] at here
      cases here
    · rw [put_ne _ _ same] at here
      exact sound.going q v here
  right x member := by
    rcases List.mem_append.mp member with old | new
    · exact sound.right x old
    · rw [List.mem_singleton.mp new]
      exact right

theorem Sound.goes (sound : Sound s) (going : Going s.tcp w) (q : Option Nat) :
    Sound { s with running := q, writers := put s.writers r (some w) } where
  tnext := sound.tnext
  tbuf := sound.tbuf
  going p v here := by
    change put s.writers r (some w) p = some v at here
    by_cases same : p = r
    · rw [same, put_same] at here
      injection here with eq
      rw [← eq]
      exact going
    · rw [put_ne _ _ same] at here
      exact sound.going p v here
  right := sound.right

theorem Sound.queued (sound : Sound s) (queued : Queued s w s' k) : Sound s' := by
  have size : ring s' = ring s := by
    unfold ring
    rw [queued.tcp]
  constructor
  · rw [size]
    exact queued.tnext
  · rw [size, queued.tbuf]
    exact sound.tbuf
  · rw [queued.writers, queued.tcp]
    exact sound.going
  · rw [queued.results]
    exact sound.right

/-- A call that does not fail in a pass: it has queued all that it will return. -/
theorem Sound.pass (sound : Sound s) (going : Going s.tcp w) (more : w.t < w.l)
    (opened : ¬ (s.closed = true ∨ s.shutw = true)) (queued : Queued s w s' k)
    (pass : (if s.tcp then netn_queuebytes limits s w.data else netn_putbuf limits s w.data) = (s', some k))
    (error : s.s_error ≠ 0 → k = w.data.length) (none_left : k = 0 → w.ndelay = true → w.t = 0)
    (whole : s.tcp = false → k = 0 ∨ (w.t = 0 ∧ k = w.data.length)) :
    Sound (turn limits s r w) := by
  have sound' := sound.queued queued
  have rest := going.rest
  have sent := going.sent
  unfold turn
  rw [if_neg (by omega), if_neg opened, pass]
  dsimp only
  rw [queued.queue]
  by_cases erred : s'.s_error ≠ 0
  · rw [if_pos erred]
    have all := error (queued.s_error ▸ erred)
    have some_in : k ≠ 0 := by omega
    rw [if_neg some_in]
    refine sound'.leaves ?_
    have ret : some_of w.l = some w.l := if_neg (by omega)
    dsimp only
    rw [ret, queued.tcp]
    refine ⟨by show w.sent + k = w.l; omega, ?_⟩
    intro tcp
    have once : w.t = 0 := by
      rcases whole tcp with no | now
      · exact absurd no some_in
      · exact now.1
    have none_yet := going.parts once
    show w.parts + 1 ≤ 1
    omega
  · rw [if_neg erred]
    by_cases none_in : k = 0
    · rw [if_pos none_in, if_neg (fun no => no none_in), none_in]
      by_cases quick : w.ndelay = true
      · rw [if_pos quick]
        exact sound'.leaves (going.parts (none_left none_in quick))
      · rw [if_neg quick]
        exact sound'.goes (queued.tcp ▸ going) none
    · rw [if_neg none_in, if_pos none_in]
      refine sound'.goes ?_ s'.running
      rw [queued.tcp]
      constructor
      · show w.sent + k = w.t + k
        omega
      · show w.t + k + (w.data.drop k).length = w.l
        have fits := queued.fits
        rw [List.length_drop]
        omega
      · intro no
        change w.t + k = 0 at no
        omega
      · intro tcp
        rcases whole tcp with no | ⟨once, all⟩
        · exact absurd no none_in
        · refine ⟨Or.inr ?_, ?_⟩
          · show w.t + k = w.l
            omega
          · have none_yet := going.parts once
            show w.parts + 1 ≤ 1
            omega

theorem Sound.turn (sound : Sound s) (going : Going s.tcp w) (fine : w.t < w.l → turnFair limits s w) :
    Sound (turn limits s r w) := by
  have rest := going.rest
  by_cases more : w.t < w.l
  · have fair := fine more
    unfold turnFair at fair
    by_cases shut : s.closed = true ∨ s.shutw = true
    · rw [if_pos shut] at fair
      unfold NetWrite.turn
      rw [if_neg (by omega), if_pos shut]
      exact sound.leaves (going.parts fair)
    · rw [if_neg shut] at fair
      have left : w.l - w.t = w.data.length := by omega
      by_cases tcp : s.tcp = true
      · rw [if_pos tcp, left] at fair
        obtain ⟨first, second, error, none_left⟩ := fair
        obtain ⟨s', pass, queued⟩ := sound.stream tcp first second
        refine sound.pass going more shut queued ((if_pos tcp).trans pass) ?_ ?_ ?_
        · intro erred
          exact Nat.min_eq_left (error erred)
        · intro none_in quick
          exact none_left (by omega) quick
        · intro no
          rw [tcp] at no
          cases no
      · have datagram : s.tcp = false := by simpa using tcp
        have once : w.t = 0 := by
          rcases (going.whole datagram).1 with yes | no
          · exact yes
          · omega
        rw [if_neg tcp] at fair
        obtain ⟨fits, fine⟩ := fair
        by_cases full : (s.tnext + 1) % NSOCKBUF = s.tbuf
        · rw [if_pos full] at fine
          have fits : w.data.length ≤ TXPKTSIZ := by omega
          obtain ⟨pass, queued⟩ : netn_putbuf limits s w.data = (s, some 0) ∧ Queued s w s 0 :=
            sound.full fits full
          refine sound.pass going more shut queued ((if_neg tcp).trans pass) ?_ ?_ ?_
          · intro erred
            exact absurd fine erred
          · intro _ _
            exact once
          · intro _
            exact Or.inl rfl
        · rw [if_neg full] at fine
          have fits : w.data.length ≤ TXPKTSIZ := by omega
          have enough : w.data.length ≤ limits.first := by omega
          obtain ⟨s', pass, queued⟩ := sound.datagram datagram (by omega) fits full enough
          refine sound.pass going more shut queued ((if_neg tcp).trans pass) ?_ ?_ ?_
          · intro _
            rfl
          · intro none_in
            omega
          · intro _
            exact Or.inr ⟨once, rfl⟩
  · have done : w.t = w.l := by omega
    unfold NetWrite.turn
    rw [if_pos (by omega)]
    refine sound.leaves ⟨?_, fun tcp => (going.whole tcp).2⟩
    rw [going.sent]
    exact done

theorem Sound.begin (sound : Sound s) (data : List UInt8) (ndelay : Bool) :
    Sound (begin s r data ndelay) := by
  unfold NetWrite.begin
  split
  · refine ⟨sound.tnext, sound.tbuf, sound.going, ?_⟩
    intro x member
    rcases List.mem_append.mp member with old | new
    · exact sound.right x old
    · rw [List.mem_singleton.mp new]
      rfl
  · refine sound.goes ?_ (some r)
    constructor
    · rfl
    · show 0 + (data.take (data.length % 65536)).length = data.length % 65536
      rw [List.length_take]
      have less := Nat.mod_le data.length 65536
      omega
    · intro _
      rfl
    · intro _
      exact ⟨Or.inl rfl, Nat.zero_le 1⟩

theorem Sound.step (sound : Sound s) {a : Action} (fine : fair s a) (run : a.apply s = some s') :
    Sound s' := by
  cases a with
  | write q data ndelay =>
    simp only [Action.apply, Option.ite_none_right_eq_some, Option.some.injEq] at run
    rw [← run.2]
    exact sound.begin data ndelay
  | turn limits =>
    obtain ⟨q, running, last⟩ := Option.bind_eq_some_iff.mp run
    obtain ⟨v, here, same⟩ := Option.map_eq_some_iff.mp last
    rw [← same]
    exact sound.turn (sound.going q v here) (fine q running v here)
  | wake q =>
    simp only [Action.apply, Option.ite_none_right_eq_some, Option.some.injEq] at run
    rw [← run.2]
    exact ⟨sound.tnext, sound.tbuf, sound.going, sound.right⟩
  | signal q =>
    simp only [Action.apply, Option.ite_none_right_eq_some, Option.map_eq_some_iff] at run
    obtain ⟨_, v, here, same⟩ := run
    rw [← same]
    exact sound.leaves ((sound.going q v here).parts (fine v here))
  | room next =>
    simp only [Action.apply, Option.ite_none_right_eq_some, Option.some.injEq] at run
    rw [← run.2]
    exact ⟨sound.tnext, Nat.mod_lt next ring_pos, sound.going, sound.right⟩
  | event closed shutw error =>
    simp only [Action.apply, Option.ite_none_right_eq_some, Option.some.injEq] at run
    rw [← run.2]
    exact ⟨sound.tnext, sound.tbuf, sound.going, sound.right⟩
  | shutdown =>
    simp only [Action.apply, Option.ite_none_right_eq_some, Option.some.injEq] at run
    rw [← run.2]
    exact ⟨sound.tnext, sound.tbuf, sound.going, sound.right⟩
  | sock_error =>
    simp only [Action.apply, Option.ite_none_right_eq_some, Option.some.injEq] at run
    rw [← run.2]
    exact ⟨sound.tnext, sound.tbuf, sound.going, sound.right⟩

end Calls

theorem start_sound (s_num : Nat) (tcp : Bool) (tlen : Nat → Nat) (file : Nat → UInt8) :
    Sound (start s_num tcp tlen file) where
  tnext := ring_pos
  tbuf := ring_pos
  going _ _ no := by cases no
  right _ no := by cases no

/-! ## Every call accounts for what it queued -/

/-- A pass that fails does not move the send pointer. -/
def uncommitted (s : State) (limits : Limits) (data : List UInt8) : Prop :=
  if s.tcp then (netn_queuebytes limits s data).2 = none → (netn_queuebytes limits s data).1.tnext = s.tnext
  else (netn_putbuf limits s data).2 = none → (netn_putbuf limits s data).1.tnext = s.tnext

/-- In a fair run every call returns what it queued. A pass that fails leaves the send pointer
where it was just if it did not fail in the lower part of a wrapped copy, or in the transfer
of a datagram. -/
theorem writes_accounted {s_num : Nat} {tcp : Bool} {tlen : Nat → Nat} {file : Nat → UInt8}
    {actions : List Action} {s : State} (run : Steps (fun s a t => fair s a ∧ a.apply s = some t)
      (start s_num tcp tlen file) actions s) :
    (∀ x ∈ s.results, x.right) ∧
    ∀ limits data, uncommitted s limits data ↔
      if s.tcp then
        (netn_queuebytes limits s data).2 = none → limits.first < ahead s data.length ∨ ahead s data.length = 0
      else (netn_putbuf limits s data).2 = none → TXPKTSIZ < data.length := by
  have sound : Sound s := run.keeps (fun _ _ _ kept step => kept.step step.1 step.2) (start_sound s_num tcp tlen file)
  refine ⟨sound.right, ?_⟩
  intro limits data
  unfold uncommitted
  by_cases stream : s.tcp = true
  · have size : ring s = RINGSIZ := if_pos stream
    have hn : s.tnext < RINGSIZ := size ▸ sound.tnext
    have hb : s.tbuf < RINGSIZ := size ▸ sound.tbuf
    rw [if_pos stream, if_pos stream]
    exact forall_congr' fun fails => queuebytes_fails hn hb fails
  · rw [if_neg stream, if_neg stream]
    exact forall_congr' fun fails => putbuf_fails fails

/-- Three bytes are written, and then a call reports an error. -/
theorem writes_accounted_twice : ∃ s : State, (∀ x ∈ s.results, x.right) ∧
    s.results = [⟨true, some 3, 3, 1⟩, ⟨true, none, 0, 0⟩] := by
  have ran : (perform Action.apply fair [.write 0 [1, 2, 3] false, .turn ⟨3, 0⟩, .turn ⟨0, 0⟩,
      .event false false 104, .write 0 [4] false] (start 0 true (fun _ => 0) fun _ => 0)).map
      (fun s => s.results) = some [⟨true, some 3, 3, 1⟩, ⟨true, none, 0, 0⟩] := by decide +kernel
  obtain ⟨s, done, results⟩ := Option.map_eq_some_iff.mp ran
  exact ⟨s, (writes_accounted (perform_steps done)).1, results⟩

/-- The transfer of a single byte fails, and the call returns one. -/
theorem lost_byte : ∃ s : State, Steps (fun s a t => Action.apply s a = some t)
    (start 0 true (fun _ => 0) fun _ => 0) [.write 0 [7] false, .turn ⟨0, 0⟩] s ∧
    ∃ x ∈ s.results, ¬ x.right := by
  have ran : (perform Action.apply (fun _ _ => True) [.write 0 [7] false, .turn ⟨0, 0⟩]
      (start 0 true (fun _ => 0) fun _ => 0)).map (fun s => s.results) = some [⟨true, some 1, 0, 0⟩] := by
    decide +kernel
  obtain ⟨s, done, results⟩ := Option.map_eq_some_iff.mp ran
  refine ⟨s, (perform_steps done).mono fun _ _ _ step => step.2, ⟨true, some 1, 0, 0⟩, ?_, ?_⟩
  · rw [results]
    exact List.mem_singleton_self _
  · intro right
    exact absurd right.1 (by decide)

end NetWrite
