import Fuzix.Lib.Ring
import Fuzix.Lib.Run
import Fuzix.Lib.Table

/-!
# Datagrams between the kernel and the network daemon

A datagram socket has four buffers in each direction, in the backing file of the
network device. The kernel and the daemon each keep their own ends of the two rings
and tell each other by events and messages. What was accepted and what came out at the
other side is recorded as history.
-/

namespace Dgram

open Table Ring Run

def NSOCKBUF : Nat := 4
def RINGSIZ : Nat := 1024 * NSOCKBUF
def TXPKTSIZ : Nat := 1024
def RXPKTSIZ : Nat := 1024
def SOCKBUFOFF : Nat := 2 * RINGSIZ
def RXBUFOFF : Nat := RINGSIZ

/-- What the daemon has to tell the kernel. -/
inductive Message where
  /-- `NE_ROOM` -/
  | room (next : Nat)
  /-- `NE_DATA` -/
  | data (next : Nat) (lengths : Nat → Nat)

/-- One socket. -/
structure State where
  s_num : Nat
  /-- `NEV_READ` and `NEV_WRITE` in `event`. -/
  nevRead : Bool
  nevWrite : Bool
  rlen : Nat → Nat
  rbuf : Nat
  rnext : Nat
  tlen : Nat → Nat
  tbuf : Nat
  tnext : Nat
  /-- The `struct link` of the daemon. -/
  tstart : Nat
  tend : Nat
  rstart : Nat
  rend : Nat
  tsize : Nat → Nat
  rsize : Nat → Nat
  /-- The message that the daemon is about to write. -/
  message : Option Message
  /-- The backing file. -/
  file : Nat → UInt8
  /-- The datagrams that the kernel took from writers, and that the daemon sent. -/
  accepted : List (List UInt8)
  sent : List (List UInt8)
  /-- The datagrams that the daemon stored, how much every read asked for and what it got. -/
  stored : List (List UInt8)
  asked : List Nat
  got : List (List UInt8)

/-- `if (++p == NSOCKBUF) p = 0;` -/
def next (p : Nat) : Nat := if p + 1 = NSOCKBUF then 0 else p + 1

/-! ## The kernel -/

/-- `netn_putbuf` -/
def netn_putbuf (s : State) (data : List UInt8) : State :=
  if TXPKTSIZ < data.length then s
  else if (s.tnext + 1) % NSOCKBUF = s.tbuf then s
  else { s with
    file := blit s.file (s.s_num * SOCKBUFOFF + RXBUFOFF + s.tbuf * TXPKTSIZ) data
    tlen := put s.tlen s.tnext data.length
    tnext := next s.tnext
    nevWrite := true
    accepted := s.accepted ++ [data] }

/-- One turn of the loop of `net_write`. -/
def write (s : State) (data : List UInt8) : State := if data = [] then s else netn_putbuf s data

/-- `netn_getbuf`. A read that gets nothing goes back to sleep. -/
def netn_getbuf (s : State) (count : Nat) : State :=
  if s.rbuf = s.rnext then s
  else
    let n := min count (s.rlen s.rbuf)
    let bytes := slice s.file (s.s_num * SOCKBUFOFF + s.rbuf * RXPKTSIZ) n
    { s with
      rbuf := next s.rbuf
      nevRead := true
      asked := if n = 0 then s.asked else s.asked ++ [count]
      got := if n = 0 then s.got else s.got ++ [bytes] }

/-- One turn of the loop of `net_read`. -/
def read (s : State) (count : Nat) : State := if count = 0 then s else netn_getbuf s count

/-- `netdev_write` -/
def Message.deliver (s : State) : Message → State
  | .room next => { s with tbuf := next, message := none }
  | .data next lengths => { s with rnext := next, rlen := lengths, message := none }

/-! ## The daemon -/

/-- `send_udp`, up to the message. -/
def send_udp (s : State) : State :=
  let base := s.s_num * RINGSIZ * 2 + RINGSIZ
  { s with
    sent := s.sent ++ [slice s.file (base + s.tstart * TXPKTSIZ) (s.tsize s.tstart)]
    tstart := next s.tstart
    message := some (.room (next s.tstart)) }

/-- `netd_udp_appcall` for a poll. -/
def poll (s : State) : State := if s.tend ≠ s.tstart then send_udp s else s

/-- `(s->rend + 1)&(NSOCKBUF-1) == s->rstart`, where `==` binds tighter than `&`. -/
def full (s : State) : Prop := (s.rend + 1) &&& (if NSOCKBUF - 1 = s.rstart then 1 else 0) ≠ 0

instance (s : State) : Decidable (full s) := by unfold full; infer_instance

/-- `netd_udp_appcall` for new data, up to the message. -/
def newdata (s : State) (data : List UInt8) : State :=
  if full s then s
  else
    let base := s.s_num * RINGSIZ * 2
    let rsize := put s.rsize s.rend data.length
    { s with
      rsize := rsize
      file := blit s.file (base + s.rend * RXPKTSIZ) data
      rend := next s.rend
      message := some (.data (next s.rend) rsize)
      stored := s.stored ++ [data] }

/-- `dokernel`: the daemon reads the socket with its events. -/
def dokernel (s : State) : State :=
  let last := (s.tnext + (NSOCKBUF - 1)) % NSOCKBUF
  { s with
    nevRead := false
    nevWrite := false
    tstart := if s.nevWrite then s.tbuf else s.tstart
    tend := if s.nevWrite then s.tnext else s.tend
    tsize := if s.nevWrite then put s.tsize last (s.tlen last) else s.tsize
    rstart := if s.nevRead then s.rbuf else s.rstart
    rend := if s.nevRead then s.rnext else s.rend }

inductive Action where
  | write (data : List UInt8)
  | read (count : Nat)
  | dokernel
  | poll
  | newdata (data : List UInt8)
  | deliver

/-- The daemon does one thing after the other. -/
def Action.apply (s : State) : Action → Option State
  | .write data => some (Dgram.write s data)
  | .read count => some (Dgram.read s count)
  | .dokernel => if s.message.isNone then some (Dgram.dokernel s) else none
  | .poll => if s.message.isNone then some (Dgram.poll s) else none
  | .newdata data => if s.message.isNone then some (Dgram.newdata s data) else none
  | .deliver => s.message.map fun m => m.deliver s

def Action.step (s : State) (a : Action) (t : State) : Prop := a.apply s = some t

/-- A socket that was just opened. The lengths and the file are left from before. -/
def start (s_num : Nat) (rlen tlen : Nat → Nat) (file : Nat → UInt8) : State :=
  ⟨s_num, false, false, rlen, 0, 0, tlen, 0, 0, 0, 0, 0, 0, fun _ => 0, fun _ => 0, none, file,
    [], [], [], [], []⟩

/-! ## Datagrams are kept apart -/

/-- The datagram in a buffer. -/
def txSlot (s : State) (i : Nat) : List UInt8 :=
  slice s.file (s.s_num * SOCKBUFOFF + RXBUFOFF + i * TXPKTSIZ) (s.tlen i)

def rxSlot (s : State) (i : Nat) : List UInt8 :=
  slice s.file (s.s_num * SOCKBUFOFF + i * RXPKTSIZ) (s.rsize i)

/-- What was accepted was sent, in order, or waits in a buffer of its own. What was
stored was read, in order and as much as was asked for, or waits in a buffer of its own. -/
structure Intact (s : State) : Prop where
  transmit : s.accepted = s.sent ++ contents NSOCKBUF (txSlot s) s.tstart s.tnext
  receive : ∃ taken, s.stored = taken ++ contents NSOCKBUF (rxSlot s) s.rbuf s.rend ∧
    s.asked.length = taken.length ∧ s.got = List.zipWith List.take s.asked taken

/-- A datagram is written when none waits. A packet has at least one byte and at most
as many as a buffer, and it is dropped if the buffers are full. -/
def Action.calm (s : State) : Action → Prop
  | .write data => data = [] ∨ TXPKTSIZ < data.length ∨ (s.tnext + 1) % NSOCKBUF = s.tbuf ∨
      s.tbuf = s.tnext
  | .newdata data => full s ∨
      (data ≠ [] ∧ data.length ≤ RXPKTSIZ ∧ (s.rend + 1) % NSOCKBUF ≠ s.rstart)
  | _ => True

instance (s : State) (a : Action) : Decidable (a.calm s) := by
  unfold Action.calm
  cases a <;> infer_instance

def Action.calmStep (s : State) (a : Action) (t : State) : Prop := a.calm s ∧ a.step s t

/-! ## The invariant -/

/-- Where the one datagram is that may wait: in no buffer, in a buffer the daemon has
not heard of, in one it has heard of, or sent but not yet given up. -/
inductive Phase (s : State) : Prop where
  | idle (none_waits : s.tnext = s.tbuf) (start : s.tstart = s.tbuf) (stop : s.tend = s.tbuf)
      (quiet : ∀ n, s.message ≠ some (.room n))
  | queued (one : s.tnext = next s.tbuf) (start : s.tstart = s.tbuf) (stop : s.tend = s.tbuf)
      (event : s.nevWrite = true) (quiet : ∀ n, s.message ≠ some (.room n))
  | known (one : s.tnext = next s.tbuf) (start : s.tstart = s.tbuf) (stop : s.tend = s.tnext)
      (size : s.tsize s.tbuf = s.tlen s.tbuf) (quiet : ∀ n, s.message ≠ some (.room n))
  | sent (one : s.tnext = next s.tbuf) (start : s.tstart = s.tnext) (stop : s.tend = s.tnext)
      (room : s.message = some (.room s.tnext))

/-- What the kernel knows of the packets. -/
inductive Told (s : State) : Prop where
  | all (same : s.rend = s.rnext) (quiet : ∀ n l, s.message ≠ some (.data n l))
  | allButOne (ahead : s.rend = next s.rnext) (room : span NSOCKBUF s.rbuf s.rnext + 1 < NSOCKBUF)
      (message : s.message = some (.data s.rend s.rsize))

structure Inv (s : State) : Prop where
  intact : Intact s
  tbuf : s.tbuf < NSOCKBUF
  rbuf : s.rbuf < NSOCKBUF
  rnext : s.rnext < NSOCKBUF
  rstart : s.rstart < NSOCKBUF
  phase : Phase s
  told : Told s
  /-- The daemon may think that more buffers are in use. -/
  behind : span NSOCKBUF s.rstart s.rbuf + span NSOCKBUF s.rbuf s.rend < NSOCKBUF
  lengths : ∀ i, i < span NSOCKBUF s.rbuf s.rnext →
    s.rlen (wrap NSOCKBUF (s.rbuf + i)) = s.rsize (wrap NSOCKBUF (s.rbuf + i))
  some_bytes : ∀ i, i < span NSOCKBUF s.rbuf s.rend → 0 < s.rsize (wrap NSOCKBUF (s.rbuf + i))
  bounded : ∀ i, s.rsize i ≤ RXPKTSIZ

section Pointers
variable {p : Nat}

theorem next_eq (hp : p < NSOCKBUF) : next p = wrap NSOCKBUF (p + 1) := by
  unfold next wrap NSOCKBUF at *
  split_ifs <;> omega

theorem next_lt (hp : p < NSOCKBUF) : next p < NSOCKBUF := by
  unfold next NSOCKBUF at *
  split_ifs <;> omega

theorem next_ne (p : Nat) : next p ≠ p := by
  unfold next NSOCKBUF at *
  split_ifs <;> omega

theorem next_mod (hp : p < NSOCKBUF) : (p + 1) % NSOCKBUF = next p := by
  unfold next NSOCKBUF at *
  split_ifs <;> omega

/-- `last` in `dokernel` -/
theorem last_eq (hp : p < NSOCKBUF) : (next p + (NSOCKBUF - 1)) % NSOCKBUF = p := by
  unfold next NSOCKBUF at *
  split_ifs <;> omega

/-- One buffer is in use. -/
theorem waits_one {α : Type} (f : Nat → α) (hp : p < NSOCKBUF) :
    contents NSOCKBUF f p (next p) = [f p] := by
  unfold contents
  rw [next_eq hp, span_wrap hp (by decide)]
  unfold window
  rw [List.range_one, List.map_singleton, Nat.add_zero, wrap_small hp]

/-- The writing end does not catch up with the reading end. -/
theorem room_left {a : Nat} (ha : a < NSOCKBUF) (hp : p < NSOCKBUF) (apart : next p ≠ a) :
    span NSOCKBUF a p + 1 < NSOCKBUF := by
  unfold next span NSOCKBUF at *
  split_ifs at * <;> omega

end Pointers

section Steps
variable {s t : State} {data : List UInt8}

/-- The reading side does not see what the writing side does. -/
theorem receive_congr (got : t.got = s.got) (asked : t.asked = s.asked) (stored : t.stored = s.stored)
    (rbuf : t.rbuf = s.rbuf) (rend : t.rend = s.rend)
    (slots : window NSOCKBUF (rxSlot t) s.rbuf (span NSOCKBUF s.rbuf s.rend) =
      window NSOCKBUF (rxSlot s) s.rbuf (span NSOCKBUF s.rbuf s.rend))
    (intact : Intact s) : ∃ taken, t.stored = taken ++ contents NSOCKBUF (rxSlot t) t.rbuf t.rend ∧
      t.asked.length = taken.length ∧ t.got = List.zipWith List.take t.asked taken := by
  obtain ⟨taken, all, count, read⟩ := intact.receive
  refine ⟨taken, ?_, ?_, ?_⟩
  · rw [stored, rbuf, rend, all]
    unfold contents
    rw [slots]
  · rw [asked, count]
  · rw [got, asked, read]

theorem Inv.write (inv : Inv s) (calm : Action.calm s (.write data)) : Inv (write s data) := by
  unfold Dgram.write
  split
  · exact inv
  rename_i some_data
  unfold netn_putbuf
  split
  · exact inv
  rename_i short
  split
  · exact inv
  rename_i room
  have none_waits : s.tbuf = s.tnext := by
    rcases calm with empty | long | no_room | idle
    · exact absurd empty some_data
    · exact absurd long short
    · exact absurd no_room room
    · exact idle
  cases inv.phase with
  | queued one _ _ _ _ => exact absurd (one.symm.trans none_waits.symm) (next_ne _)
  | known one _ _ _ _ => exact absurd (one.symm.trans none_waits.symm) (next_ne _)
  | sent one _ _ _ => exact absurd (one.symm.trans none_waits.symm) (next_ne _)
  | idle _ first last quiet =>
    have away : ∀ i, i < NSOCKBUF → s.rsize i ≤ RXPKTSIZ →
        s.s_num * SOCKBUFOFF + i * RXPKTSIZ + s.rsize i ≤
          s.s_num * SOCKBUFOFF + RXBUFOFF + s.tbuf * TXPKTSIZ := by
      intro i hi size
      unfold RXBUFOFF RINGSIZ RXPKTSIZ NSOCKBUF at *
      omega
    have before : s.accepted = s.sent := by
      have all := inv.intact.transmit
      rw [first, ← none_waits, contents_empty, List.append_nil] at all
      exact all
    exact {
      intact := by
        constructor
        · dsimp only
          rw [first, ← none_waits, waits_one _ inv.tbuf, before]
          unfold txSlot
          dsimp only
          rw [put_same, slice_blit]
        · refine receive_congr (s := s) rfl rfl rfl rfl rfl (window_congr fun i hi => ?_) inv.intact
          refine slice_blit_apart (Or.inl (away _ ?_ (inv.bounded _)))
          have bound := inv.behind
          have here := inv.rbuf
          exact wrap_lt (by omega)
      tbuf := inv.tbuf
      rbuf := inv.rbuf
      rnext := inv.rnext
      rstart := inv.rstart
      phase := .queued (by rw [none_waits]) first last rfl quiet
      told := by
        cases inv.told with
        | all same quiet' => exact .all same quiet'
        | allButOne ahead room' message => exact .allButOne ahead room' message
      behind := inv.behind
      lengths := inv.lengths
      some_bytes := inv.some_bytes
      bounded := inv.bounded }

theorem Inv.rend (inv : Inv s) : s.rend < NSOCKBUF := by
  cases inv.told with
  | all same _ =>
    rw [same]
    exact inv.rnext
  | allButOne ahead _ _ =>
    rw [ahead]
    exact next_lt inv.rnext

/-- While no message is on its way the kernel knows of all packets. -/
theorem Inv.settled (inv : Inv s) (idle : s.message = none) : s.rend = s.rnext := by
  cases inv.told with
  | all same _ => exact same
  | allButOne _ _ message =>
    rw [idle] at message
    cases message

/-- The kernel has not heard of more packets than there are. -/
theorem Inv.heard (inv : Inv s) : span NSOCKBUF s.rbuf s.rnext ≤ span NSOCKBUF s.rbuf s.rend := by
  cases inv.told with
  | all same _ => exact Nat.le_of_eq (by rw [same])
  | allButOne ahead room _ =>
    rw [ahead, next_eq inv.rnext, span_push inv.rbuf inv.rnext room]
    exact Nat.le_succ _

theorem Inv.read (inv : Inv s) (count : Nat) : Inv (read s count) := by
  unfold Dgram.read
  split
  · exact inv
  rename_i some_count
  unfold netn_getbuf
  split
  · exact inv
  rename_i waits
  have rend := inv.rend
  have rbuf := inv.rbuf
  have behind := inv.behind
  have heard : 0 < span NSOCKBUF s.rbuf s.rnext :=
    Nat.pos_of_ne_zero fun zero => waits (span_eq_zero rbuf zero)
  have some_left : 0 < span NSOCKBUF s.rbuf s.rend := Nat.lt_of_lt_of_le heard inv.heard
  have length := inv.lengths 0 heard
  have size := inv.some_bytes 0 some_left
  rw [Nat.add_zero, wrap_small rbuf] at length size
  have some_bytes : min count (s.rlen s.rbuf) ≠ 0 := by
    rw [length]
    omega
  have pop : ∀ c, c < NSOCKBUF → 0 < span NSOCKBUF s.rbuf c →
      span NSOCKBUF (next s.rbuf) c = span NSOCKBUF s.rbuf c - 1 := by
    intro c hc one
    rw [next_eq rbuf]
    exact span_pop rbuf hc one
  have further : ∀ i, i + 1 < NSOCKBUF →
      wrap NSOCKBUF (next s.rbuf + i) = wrap NSOCKBUF (s.rbuf + (1 + i)) := by
    intro i hi
    rw [next_eq rbuf]
    exact wrap_wrap rbuf (by omega)
  exact {
    intact := by
      constructor
      · exact inv.intact.transmit
      · obtain ⟨taken, all, asked, got⟩ := inv.intact.receive
        refine ⟨taken ++ [rxSlot s s.rbuf], ?_, ?_, ?_⟩
        · have split := contents_pop_one (f := rxSlot s) rbuf rend fun same => by
            rw [same, span_self] at some_left
            exact absurd some_left (Nat.lt_irrefl 0)
          rw [List.append_assoc, List.singleton_append]
          show s.stored = taken ++ (rxSlot s s.rbuf :: contents NSOCKBUF (rxSlot s) (next s.rbuf) s.rend)
          rw [next_eq rbuf, ← split]
          exact all
        · dsimp only
          rw [if_neg some_bytes, List.length_append, List.length_append, asked]
          rfl
        · dsimp only
          rw [if_neg some_bytes, if_neg some_bytes, List.zipWith_append asked, got, length,
            ← take_slice]
          rfl
    tbuf := inv.tbuf
    rbuf := next_lt rbuf
    rnext := inv.rnext
    rstart := inv.rstart
    phase := by
      cases inv.phase with
      | idle none_waits first last quiet => exact .idle none_waits first last quiet
      | queued one first last event quiet => exact .queued one first last event quiet
      | known one first last size quiet => exact .known one first last size quiet
      | sent one first last room => exact .sent one first last room
    told := by
      cases inv.told with
      | all same quiet => exact .all same quiet
      | allButOne ahead room message =>
        refine .allButOne ahead ?_ message
        dsimp only
        rw [pop _ inv.rnext heard]
        omega
    behind := by
      dsimp only
      rw [pop _ rend some_left, next_eq rbuf, span_push inv.rstart rbuf (by omega)]
      omega
    lengths := by
      intro i hi
      dsimp only at hi ⊢
      rw [pop _ inv.rnext heard] at hi
      have bound := span_lt rbuf inv.rnext
      rw [further i (by omega)]
      exact inv.lengths (1 + i) (by omega)
    some_bytes := by
      intro i hi
      dsimp only at hi ⊢
      rw [pop _ rend some_left] at hi
      have bound := span_lt rbuf rend
      rw [further i (by omega)]
      exact inv.some_bytes (1 + i) (by omega)
    bounded := inv.bounded }

theorem Inv.dokernel (inv : Inv s) (idle : s.message = none) : Inv (dokernel s) := by
  have same := inv.settled idle
  have rend : (if s.nevRead then s.rnext else s.rend) = s.rend := by
    rw [same]
    split <;> rfl
  have tstart : (if s.nevWrite then s.tbuf else s.tstart) = s.tstart := by
    cases inv.phase with
    | idle _ first _ _ => rw [first]; split <;> rfl
    | queued _ first _ _ _ => rw [first]; split <;> rfl
    | known _ first _ _ _ => rw [first]; split <;> rfl
    | sent _ _ _ room =>
      rw [idle] at room
      cases room
  exact {
    intact := by
      constructor
      · unfold Dgram.dokernel
        dsimp only
        rw [tstart]
        exact inv.intact.transmit
      · unfold Dgram.dokernel
        dsimp only
        rw [rend]
        exact inv.intact.receive
    tbuf := inv.tbuf
    rbuf := inv.rbuf
    rnext := inv.rnext
    rstart := by
      unfold Dgram.dokernel
      dsimp only
      split
      · exact inv.rbuf
      · exact inv.rstart
    phase := by
      have quiet : ∀ n, (Dgram.dokernel s).message ≠ some (.room n) := by
        intro n message
        have none_left : (Dgram.dokernel s).message = none := idle
        rw [none_left] at message
        cases message
      cases inv.phase with
      | idle none_waits first last _ =>
        refine .idle none_waits (tstart.trans first) ?_ quiet
        show (if s.nevWrite then s.tnext else s.tend) = s.tbuf
        rw [none_waits, last]
        split <;> rfl
      | queued one first last event _ =>
        refine .known one (tstart.trans first) ?_ ?_ quiet
        · exact if_pos event
        · show (if s.nevWrite then put s.tsize ((s.tnext + (NSOCKBUF - 1)) % NSOCKBUF)
            (s.tlen ((s.tnext + (NSOCKBUF - 1)) % NSOCKBUF)) else s.tsize) s.tbuf = s.tlen s.tbuf
          rw [if_pos event, one, last_eq inv.tbuf, put_same]
      | known one first last size _ =>
        refine .known one (tstart.trans first) ?_ ?_ quiet
        · show (if s.nevWrite then s.tnext else s.tend) = s.tnext
          rw [last]
          split <;> rfl
        · show (if s.nevWrite then put s.tsize ((s.tnext + (NSOCKBUF - 1)) % NSOCKBUF)
            (s.tlen ((s.tnext + (NSOCKBUF - 1)) % NSOCKBUF)) else s.tsize) s.tbuf = s.tlen s.tbuf
          rw [one, last_eq inv.tbuf]
          split
          · exact put_same _ _ _
          · exact size
      | sent _ _ _ room =>
        rw [idle] at room
        cases room
    told := by
      refine .all (rend.trans same) fun n l message => ?_
      have none_left : (Dgram.dokernel s).message = none := idle
      rw [none_left] at message
      cases message
    behind := by
      unfold Dgram.dokernel
      dsimp only
      rw [rend]
      have behind := inv.behind
      split
      · rw [span_self]
        omega
      · exact behind
    lengths := inv.lengths
    some_bytes := by
      unfold Dgram.dokernel
      dsimp only
      rw [rend]
      exact inv.some_bytes
    bounded := inv.bounded }

theorem Inv.poll (inv : Inv s) (idle : s.message = none) : Inv (poll s) := by
  unfold Dgram.poll
  split
  · rename_i waits
    cases inv.phase with
    | idle _ first last _ => exact absurd (last.trans first.symm) waits
    | queued _ first last _ _ => exact absurd (last.trans first.symm) waits
    | sent _ first last _ => exact absurd (last.trans first.symm) waits
    | known one first last size _ =>
      have base : s.s_num * RINGSIZ * 2 + RINGSIZ = s.s_num * SOCKBUFOFF + RXBUFOFF := by
        unfold SOCKBUFOFF RXBUFOFF RINGSIZ NSOCKBUF
        omega
      exact {
        intact := by
          constructor
          · have all := inv.intact.transmit
            rw [first, one, waits_one _ inv.tbuf] at all
            unfold send_udp
            dsimp only
            rw [first, size, base, ← one, contents_empty, List.append_nil, all]
            rfl
          · exact inv.intact.receive
        tbuf := inv.tbuf
        rbuf := inv.rbuf
        rnext := inv.rnext
        rstart := inv.rstart
        phase := by
          have after : next s.tstart = s.tnext := by rw [first, one]
          refine .sent one after last ?_
          show some (Message.room (next s.tstart)) = some (.room s.tnext)
          rw [after]
        told := .all (inv.settled idle) fun n l message => by cases message
        behind := inv.behind
        lengths := inv.lengths
        some_bytes := inv.some_bytes
        bounded := inv.bounded }
  · exact inv

theorem Inv.newdata (inv : Inv s) (idle : s.message = none)
    (calm : Action.calm s (.newdata data)) : Inv (newdata s data) := by
  unfold Dgram.newdata
  split
  · exact inv
  rename_i stores
  obtain ⟨some_data, size, room⟩ := calm.resolve_left stores
  have rend := inv.rend
  have rbuf := inv.rbuf
  have behind := inv.behind
  have same := inv.settled idle
  have base : s.s_num * RINGSIZ * 2 = s.s_num * SOCKBUFOFF := by
    unfold SOCKBUFOFF RINGSIZ NSOCKBUF
    omega
  have length : 0 < data.length := List.length_pos_iff.mpr some_data
  rw [next_mod rend] at room
  have left := room_left inv.rstart rend room
  have whole := span_add inv.rstart rbuf rend behind
  have push : span NSOCKBUF s.rbuf (next s.rend) = span NSOCKBUF s.rbuf s.rend + 1 := by
    rw [next_eq rend]
    exact span_push rbuf rend (by omega)
  -- the buffers in use are not the one that is stored
  have other : ∀ i, i < span NSOCKBUF s.rbuf s.rend → wrap NSOCKBUF (s.rbuf + i) ≠ s.rend := by
    intro i hi here
    have back := span_wrap (k := i) rbuf (by omega)
    rw [here] at back
    omega
  exact {
    intact := by
      constructor
      · have all := inv.intact.transmit
        unfold contents at all ⊢
        dsimp only
        rw [all]
        congr 1
        refine window_congr fun i _ => (slice_blit_apart (Or.inr ?_)).symm
        rw [base]
        unfold RXBUFOFF RINGSIZ RXPKTSIZ NSOCKBUF at *
        omega
      · obtain ⟨taken, all, asked, got⟩ := inv.intact.receive
        refine ⟨taken, ?_, asked, got⟩
        dsimp only
        rw [next_eq rend, all, List.append_assoc]
        congr 1
        refine (contents_push_one ?_ (fun c hc away => ?_) rbuf rend (by omega)).symm
        · unfold rxSlot
          dsimp only
          rw [put_same, base, slice_blit]
        · unfold rxSlot
          dsimp only
          rw [put_ne _ _ away, base]
          have bound := inv.bounded c
          refine slice_blit_apart ?_
          unfold RXPKTSIZ NSOCKBUF at *
          omega
    tbuf := inv.tbuf
    rbuf := inv.rbuf
    rnext := inv.rnext
    rstart := inv.rstart
    phase := by
      have quiet : ∀ n l k, some (Message.data n l) ≠ some (.room k) := fun _ _ _ no => by cases no
      cases inv.phase with
      | idle none_waits first last _ => exact .idle none_waits first last (quiet _ _)
      | queued one first last event _ => exact .queued one first last event (quiet _ _)
      | known one first last size _ => exact .known one first last size (quiet _ _)
      | sent _ _ _ message =>
        rw [idle] at message
        cases message
    told := by
      refine .allButOne ?_ ?_ rfl
      · show next s.rend = next s.rnext
        rw [same]
      · show span NSOCKBUF s.rbuf s.rnext + 1 < NSOCKBUF
        rw [← same]
        omega
    behind := by
      dsimp only
      rw [push]
      omega
    lengths := by
      intro i hi
      have hi' : i < span NSOCKBUF s.rbuf s.rend := by
        rw [same]
        exact hi
      have size' := inv.lengths i hi
      dsimp only
      rw [put_ne _ _ (other i hi')]
      exact size'
    some_bytes := by
      intro i hi
      dsimp only at hi ⊢
      rw [push] at hi
      by_cases last : i = span NSOCKBUF s.rbuf s.rend
      · rw [last, wrap_span rbuf rend, put_same]
        exact length
      · have hi' : i < span NSOCKBUF s.rbuf s.rend := by omega
        rw [put_ne _ _ (other i hi')]
        exact inv.some_bytes i hi'
    bounded := by
      intro i
      dsimp only
      by_cases here : i = s.rend
      · rw [here, put_same]
        exact size
      · rw [put_ne _ _ here]
        exact inv.bounded i }

theorem Inv.deliver {m : Message} (inv : Inv s) (message : s.message = some m) :
    Inv (m.deliver s) := by
  cases m with
  | room n =>
    have same : s.rend = s.rnext := by
      cases inv.told with
      | all same _ => exact same
      | allButOne _ _ data =>
        rw [message] at data
        cases data
    cases inv.phase with
    | idle _ _ _ quiet => exact absurd message (quiet n)
    | queued _ _ _ _ quiet => exact absurd message (quiet n)
    | known _ _ _ _ quiet => exact absurd message (quiet n)
    | sent one first last room =>
      have here : n = s.tnext := by
        rw [message] at room
        injection room with room
        injection room
      exact {
        intact := ⟨inv.intact.transmit, inv.intact.receive⟩
        tbuf := by
          show n < NSOCKBUF
          rw [here, one]
          exact next_lt inv.tbuf
        rbuf := inv.rbuf
        rnext := inv.rnext
        rstart := inv.rstart
        phase := .idle here.symm (first.trans here.symm) (last.trans here.symm) fun k no => by cases no
        told := .all same fun k l no => by cases no
        behind := inv.behind
        lengths := inv.lengths
        some_bytes := inv.some_bytes
        bounded := inv.bounded }
  | data n l =>
    cases inv.told with
    | all _ quiet => exact absurd message (quiet n l)
    | allButOne ahead room data =>
      have here : n = s.rend ∧ l = s.rsize := by
        rw [message] at data
        injection data with data
        injection data with number lengths
        exact ⟨number, lengths⟩
      obtain ⟨number, lengths⟩ := here
      subst number lengths
      have quiet : ∀ k, (none : Option Message) ≠ some (.room k) := fun k no => by cases no
      exact {
        intact := ⟨inv.intact.transmit, inv.intact.receive⟩
        tbuf := inv.tbuf
        rbuf := inv.rbuf
        rnext := inv.rend
        rstart := inv.rstart
        phase := by
          cases inv.phase with
          | idle none_waits first last _ => exact .idle none_waits first last quiet
          | queued one first last event _ => exact .queued one first last event quiet
          | known one first last size _ => exact .known one first last size quiet
          | sent _ _ _ other =>
            rw [message] at other
            cases other
        told := .all rfl fun k l no => by cases no
        behind := inv.behind
        lengths := fun _ _ => rfl
        some_bytes := inv.some_bytes
        bounded := inv.bounded }

theorem Inv.step {a : Action} (inv : Inv s) (calm : a.calm s) (run : a.step s t) : Inv t := by
  unfold Action.step at run
  cases a with
  | write data =>
    injection run with result
    rw [← result]
    exact inv.write calm
  | read count =>
    injection run with result
    rw [← result]
    exact inv.read count
  | dokernel =>
    unfold Action.apply at run
    dsimp only at run
    split at run
    · rename_i idle
      injection run with result
      rw [← result]
      exact inv.dokernel (Option.isNone_iff_eq_none.mp idle)
    · cases run
  | poll =>
    unfold Action.apply at run
    dsimp only at run
    split at run
    · rename_i idle
      injection run with result
      rw [← result]
      exact inv.poll (Option.isNone_iff_eq_none.mp idle)
    · cases run
  | newdata data =>
    unfold Action.apply at run
    dsimp only at run
    split at run
    · rename_i idle
      injection run with result
      rw [← result]
      exact inv.newdata (Option.isNone_iff_eq_none.mp idle) calm
    · cases run
  | deliver =>
    obtain ⟨m, message, result⟩ := Option.map_eq_some_iff.mp run
    rw [← result]
    exact inv.deliver message

end Steps

/-! ## Two runs -/

end Dgram
