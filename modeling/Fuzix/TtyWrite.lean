import Fuzix.Tty

/-!
# Writing to a terminal

`tty_write` runs through the bytes of the caller, waits at each for the stop flag and for
the device, and gives up at a hangup, at a signal, or when it may not wait. Characters
that are typed and hangups change the flags of the terminal at any time. What wakes the
writer, and why job control stops it, are left out.
-/

namespace TtyWrite

open Tty

def EINTR : Nat := 4
def ENXIO : Nat := 6
def EAGAIN : Nat := 11

def OCRNL : BitVec 16 := 0x0008

/-- `ttyready_t` -/
inductive Ready where
  | now
  | soon
  | later
deriving DecidableEq

/-- Where the call is: at the head of its loop, asleep for the stop flag, at one of its two
`tty_putc_maywait`, or back, with the count or -1. -/
inductive Phase where
  | gate
  | asleep
  | cr (c : UInt8)
  | put (c : UInt8)
  | done (ret : Option Nat)

def Phase.isPut : Phase → Bool
  | .put _ => true
  | _ => false

/-- A call, with the bytes at `u_base` and what it gave to `tty_putc` so far. -/
structure Call where
  tty : Terminal
  rest : List UInt8
  written : Nat
  error : Nat
  phase : Phase
  sent : List UInt8

def begin (tty : Terminal) (bytes : List UInt8) : Call := ⟨tty, bytes, 0, 0, .gate, []⟩

/-- The bytes written so far are returned, and the error only if there are none. -/
def Call.giveUp (w : Call) (error : Nat) : Call :=
  if w.written = 0 then { w with error := error, phase := .done none }
  else { w with phase := .done (some w.written) }

/-- `++u_base` and `++written` -/
def Call.next (w : Call) : Call :=
  { w with rest := w.rest.tail, written := w.written + 1, phase := .gate }

def Call.putc (w : Call) (c : UInt8) : Call :=
  { w with tty := tty_putc w.tty c, sent := w.sent ++ [c] }

section Write
variable (tio : Termios) (ndelay : Bool)

/-- Which byte goes to the device first. -/
def fetch (c : UInt8) : Phase :=
  if on tio.c_oflag OPOST then
    if c = newline ∧ on tio.c_oflag ONLCR then .cr c else .put c
  else .put c

/-- The `else` behind the carriage return belongs to the test of `tty_putc_maywait`. -/
def afterCr (c : UInt8) : UInt8 :=
  if c = carriageReturn ∧ on tio.c_oflag OCRNL then newline else c

/-- One round of the loop, up to its first byte. -/
def round (w : Call) : Call :=
  match w.rest.head? with
  | none => { w with phase := .done (some w.written) }
  | some c =>
    if w.tty.dead then { w with error := ENXIO, phase := .done none }
    else if w.tty.stop then
      if ndelay then w.giveUp EAGAIN else { w with phase := .asleep }
    else if w.tty.discard then w.next
    else { w with phase := fetch tio c }

/-- The device takes the byte. -/
def taken (w : Call) : Call :=
  match w.phase with
  | .cr c => { w.putc carriageReturn with phase := .put (afterCr tio c) }
  | .put c => (w.putc c).next
  | _ => w

/-- One look of `tty_putc_maywait` at the device, with a signal or without. -/
def poll (ready : Ready) (sig : Bool) (w : Call) : Call :=
  if ready = .now then taken tio w
  else if sig then { w with error := EINTR, phase := .done (some w.written) }
  else if ready = .later ∧ ndelay then { w with error := EAGAIN, phase := .done (some w.written) }
  else w

/-- `job` is `jobcontrol_out` when it stops the call. -/
inductive Action where
  | inproc (c : UInt8)
  | hangup
  | round
  | job
  | wake
  | signal
  | poll (ready : Ready) (sig : Bool)

def Action.apply (w : Call) : Action → Option Call
  | .inproc c => some { w with tty := (tty_inproc tio w.tty c).1 }
  | .hangup => some { w with tty := { w.tty with dead := true } }
  | .round =>
    match w.phase with
    | .gate => some (TtyWrite.round tio ndelay w)
    | _ => none
  | .job =>
    match w.phase with
    | .gate => if w.rest = [] then none else some (w.giveUp EINTR)
    | _ => none
  | .wake =>
    match w.phase with
    | .asleep => some { w with phase := .gate }
    | _ => none
  | .signal =>
    match w.phase with
    | .asleep => some (w.giveUp EINTR)
    | _ => none
  | .poll ready sig =>
    match w.phase with
    | .cr _ => some (TtyWrite.poll tio ndelay ready sig w)
    | .put _ => some (TtyWrite.poll tio ndelay ready sig w)
    | _ => none

/-! ## What it is for -/

/-- What the output flags make of a byte. -/
def translation (c : UInt8) : List UInt8 :=
  if on tio.c_oflag OPOST then
    if c = newline ∧ on tio.c_oflag ONLCR then [carriageReturn, newline]
    else if c = carriageReturn ∧ on tio.c_oflag OCRNL then [newline]
    else [c]
  else [c]

def translate (bytes : List UInt8) : List UInt8 := bytes.flatMap (translation tio)

/-- The count that is returned is that of the bytes whose translation was sent, and before
it returns nothing else has been sent. -/
def Right (bytes : List UInt8) (w : Call) : Prop :=
  match w.phase with
  | .done (some n) => n + w.rest.length = bytes.length ∧ w.sent = translate tio (bytes.take n)
  | .done none => w.sent = []
  | _ => w.sent <+: translate tio bytes

/-! ## When it does so -/

/-- The carriage return of a newline has been sent, and the newline not yet. -/
def halfway (w : Call) : Prop :=
  w.phase.isPut = true ∧ on tio.c_oflag OPOST ∧ on tio.c_oflag ONLCR ∧ w.rest.head? = some newline

instance (w : Call) : Decidable (halfway tio w) := by unfold halfway; infer_instance

/-- The round neither meets a hangup behind the first byte, nor discards a byte, nor takes up
a carriage return that is to be mapped. -/
def plain (w : Call) : Prop :=
  w.rest = [] ∨
  (w.tty.dead = true → w.written = 0) ∧
  (w.tty.dead = false → w.tty.stop = false → w.tty.discard = false ∧
    ¬ (on tio.c_oflag OPOST ∧ on tio.c_oflag OCRNL ∧ w.rest.head? = some carriageReturn))

instance (w : Call) : Decidable (plain tio w) := by unfold plain; infer_instance

def fair (w : Call) : Action → Prop
  | .round => plain tio w
  | .poll ready sig => halfway tio w → ready = .now ∨ sig = false ∧ ¬ (ready = .later ∧ ndelay = true)
  | _ => True

instance (w : Call) (a : Action) : Decidable (fair tio ndelay w a) := by
  cases a <;> unfold fair <;> infer_instance

end Write

/-! ## The bytes so far -/

section Kept
variable {tio : Termios} {ndelay : Bool} {bytes rest : List UInt8} {w w' : Call} {c : UInt8}

/-- What has been sent when the call is in the phase. -/
def Said (tio : Termios) (bytes : List UInt8) (w : Call) : Prop :=
  match w.phase with
  | .gate => w.sent = translate tio (bytes.take w.written)
  | .asleep => w.sent = translate tio (bytes.take w.written)
  | .cr c => w.sent = translate tio (bytes.take w.written) ∧ w.rest.head? = some c ∧
      c = newline ∧ on tio.c_oflag OPOST ∧ on tio.c_oflag ONLCR
  | .put c => ∃ b first, w.rest.head? = some b ∧ translation tio b = first ++ [c] ∧
      w.sent = translate tio (bytes.take w.written) ++ first ∧ (first = [] ∨ halfway tio w)
  | .done none => w.sent = []
  | .done (some n) => n = w.written ∧ w.sent = translate tio (bytes.take n)

structure Kept (tio : Termios) (bytes : List UInt8) (w : Call) : Prop where
  rest : w.rest = bytes.drop w.written
  bound : w.written ≤ bytes.length
  said : Said tio bytes w

theorem take_next {k : Nat} (left : bytes.drop k = c :: rest) : bytes.take (k + 1) = bytes.take k ++ [c] := by
  have here : bytes[k]? = some c := by
    have first : (bytes.drop k)[0]? = some c := by simp [left]
    simpa using first
  rw [List.take_add_one, here]
  rfl

theorem translate_next {k : Nat} (left : bytes.drop k = c :: rest) :
    translate tio (bytes.take (k + 1)) = translate tio (bytes.take k) ++ translation tio c := by
  rw [take_next left]
  simp [translate]

theorem translate_take (k : Nat) : translate tio (bytes.take k) <+: translate tio bytes := by
  refine ⟨translate tio (bytes.drop k), ?_⟩
  unfold translate
  rw [← List.flatMap_append, List.take_append_drop]

theorem Kept.right (kept : Kept tio bytes w) : Right tio bytes w := by
  obtain ⟨left, bound, said⟩ := kept
  unfold Right
  unfold Said at said
  cases phase : w.phase with
  | gate =>
    rw [phase] at said
    exact said ▸ translate_take _
  | asleep =>
    rw [phase] at said
    exact said ▸ translate_take _
  | cr c =>
    rw [phase] at said
    exact said.1 ▸ translate_take _
  | put c =>
    rw [phase] at said
    obtain ⟨b, first, head, parts, sent, _⟩ := said
    obtain ⟨rest, here⟩ : ∃ rest, bytes.drop w.written = b :: rest := by
      rw [← left]
      exact List.head?_eq_some_iff.mp head
    have whole := @translate_take tio bytes (w.written + 1)
    rw [translate_next here, parts, ← List.append_assoc, ← sent] at whole
    exact (List.prefix_append _ _).trans whole
  | done ret =>
    rw [phase] at said
    cases ret with
    | none => exact said
    | some n =>
      refine ⟨?_, said.2⟩
      rw [left, List.length_drop, said.1]
      omega

theorem Kept.ttyFlags (kept : Kept tio bytes w) (tty : Terminal) : Kept tio bytes { w with tty := tty } :=
  ⟨kept.rest, kept.bound, kept.said⟩

/-- At the head of the loop and asleep the same has been sent. -/
theorem Kept.whole (kept : Kept tio bytes w) (waiting : w.phase = .gate ∨ w.phase = .asleep) :
    w.sent = translate tio (bytes.take w.written) := by
  have said := kept.said
  unfold Said at said
  rcases waiting with phase | phase
  · rw [phase] at said
    exact said
  · rw [phase] at said
    exact said

theorem Kept.giveUp (kept : Kept tio bytes w) (waiting : w.phase = .gate ∨ w.phase = .asleep)
    (error : Nat) : Kept tio bytes (w.giveUp error) := by
  have sent := kept.whole waiting
  unfold Call.giveUp
  split
  · rename_i none
    refine ⟨kept.rest, kept.bound, ?_⟩
    rw [none] at sent
    exact sent
  · exact ⟨kept.rest, kept.bound, rfl, sent⟩

theorem fetch_said (head : w.rest.head? = some c)
    (sent : w.sent = translate tio (bytes.take w.written))
    (unmapped : ¬ (on tio.c_oflag OPOST ∧ on tio.c_oflag OCRNL ∧ w.rest.head? = some carriageReturn)) :
    Said tio bytes { w with phase := fetch tio c } := by
  have other : on tio.c_oflag OPOST → ¬ (c = carriageReturn ∧ on tio.c_oflag OCRNL) :=
    fun post both => unmapped ⟨post, both.2, both.1 ▸ head⟩
  have alone : translation tio c = [c] → Said tio bytes { w with phase := .put c } :=
    fun one => ⟨c, [], head, one, by simpa using sent, Or.inl rfl⟩
  unfold fetch
  split
  · rename_i post
    split
    · rename_i line
      exact ⟨sent, head, line.1, post, line.2⟩
    · rename_i plain
      apply alone
      unfold translation
      rw [if_pos post, if_neg plain, if_neg (other post)]
  · rename_i raw
    apply alone
    unfold translation
    rw [if_neg raw]

theorem Kept.round (kept : Kept tio bytes w) (phase : w.phase = .gate) (fine : plain tio w) :
    Kept tio bytes (TtyWrite.round tio ndelay w) := by
  have sent := kept.whole (Or.inl phase)
  unfold TtyWrite.round
  cases head : w.rest.head? with
  | none => exact ⟨kept.rest, kept.bound, rfl, sent⟩
  | some c =>
    have filled : ¬ w.rest = [] := by
      intro empty
      simp [empty] at head
    obtain ⟨hangup, fine⟩ := fine.resolve_left filled
    dsimp only
    by_cases dead : w.tty.dead = true
    · rw [if_pos dead]
      refine ⟨kept.rest, kept.bound, ?_⟩
      rw [hangup dead] at sent
      exact sent
    · rw [if_neg dead]
      by_cases stop : w.tty.stop = true
      · rw [if_pos stop]
        split
        · exact kept.giveUp (Or.inl phase) EAGAIN
        · exact ⟨kept.rest, kept.bound, sent⟩
      · obtain ⟨kept', unmapped⟩ := fine (by simpa using dead) (by simpa using stop)
        rw [if_neg stop, if_neg (by simp [kept'])]
        exact ⟨kept.rest, kept.bound, fetch_said head sent unmapped⟩

theorem Kept.taken (kept : Kept tio bytes w) : Kept tio bytes (TtyWrite.taken tio w) := by
  have said := kept.said
  unfold Said at said
  unfold TtyWrite.taken
  cases phase : w.phase with
  | cr c =>
    rw [phase] at said
    obtain ⟨sent, head, line, post, pair⟩ := said
    have same : afterCr tio c = newline := by
      rw [line]
      rfl
    refine ⟨kept.rest, kept.bound, c, [carriageReturn], head, ?_, ?_, Or.inr ⟨rfl, post, pair, line ▸ head⟩⟩
    · unfold translation
      rw [same, if_pos post, if_pos ⟨line, pair⟩]
      rfl
    · show w.sent ++ [carriageReturn] = translate tio (bytes.take w.written) ++ [carriageReturn]
      rw [sent]
  | put c =>
    rw [phase] at said
    obtain ⟨b, first, head, parts, sent, _⟩ := said
    obtain ⟨rest, here⟩ := List.head?_eq_some_iff.mp head
    have left : bytes.drop w.written = b :: rest := kept.rest ▸ here
    have bound : w.written < bytes.length := by
      by_contra full
      rw [List.drop_eq_nil_of_le (by omega)] at left
      cases left
    refine ⟨?_, bound, ?_⟩
    · show w.rest.tail = bytes.drop (w.written + 1)
      rw [kept.rest, List.tail_drop]
    · show w.sent ++ [c] = translate tio (bytes.take (w.written + 1))
      rw [translate_next left, parts, sent, List.append_assoc]
  | gate => exact kept
  | asleep => exact kept
  | done ret => exact kept

/-- The call gives up in `tty_putc_maywait`, but not between the two bytes of a newline. -/
theorem Kept.fail (kept : Kept tio bytes w) (phase : (∃ c, w.phase = .cr c) ∨ ∃ c, w.phase = .put c)
    (apart : ¬ halfway tio w) (error : Nat) :
    Kept tio bytes { w with error := error, phase := .done (some w.written) } := by
  have said := kept.said
  unfold Said at said
  refine ⟨kept.rest, kept.bound, rfl, ?_⟩
  rcases phase with ⟨c, phase⟩ | ⟨c, phase⟩
  · rw [phase] at said
    exact said.1
  · rw [phase] at said
    obtain ⟨_, first, _, _, sent, none | half⟩ := said
    · simpa [none] using sent
    · exact absurd half apart

theorem Kept.poll {ready : Ready} {sig : Bool} (kept : Kept tio bytes w)
    (phase : (∃ c, w.phase = .cr c) ∨ ∃ c, w.phase = .put c)
    (fine : halfway tio w → ready = .now ∨ sig = false ∧ ¬ (ready = .later ∧ ndelay = true)) :
    Kept tio bytes (TtyWrite.poll tio ndelay ready sig w) := by
  unfold TtyWrite.poll
  by_cases now : ready = .now
  · rw [if_pos now]
    exact kept.taken
  · rw [if_neg now]
    have still : halfway tio w → sig = false ∧ ¬ (ready = .later ∧ ndelay = true) :=
      fun half => (fine half).resolve_left now
    split
    · rename_i signalled
      exact kept.fail phase (fun half => by simp [(still half).1] at signalled) EINTR
    · split
      · rename_i blocked
        exact kept.fail phase (fun half => (still half).2 blocked) EAGAIN
      · exact kept

theorem Kept.step {a : Action} (kept : Kept tio bytes w) (fine : fair tio ndelay w a)
    (step : a.apply tio ndelay w = some w') : Kept tio bytes w' := by
  cases a with
  | inproc c =>
    injection step with same
    exact same ▸ kept.ttyFlags _
  | hangup =>
    injection step with same
    exact same ▸ kept.ttyFlags _
  | round =>
    unfold Action.apply at step
    cases phase : w.phase with
    | gate =>
      rw [phase] at step
      injection step with same
      exact same ▸ kept.round phase fine
    | _ =>
      rw [phase] at step
      cases step
  | job =>
    unfold Action.apply at step
    cases phase : w.phase with
    | gate =>
      rw [phase] at step
      obtain ⟨_, same⟩ := Option.ite_none_left_eq_some.mp step
      injection same with same
      exact same ▸ kept.giveUp (Or.inl phase) EINTR
    | _ =>
      rw [phase] at step
      cases step
  | wake =>
    unfold Action.apply at step
    cases phase : w.phase with
    | asleep =>
      rw [phase] at step
      injection step with same
      exact same ▸ ⟨kept.rest, kept.bound, kept.whole (Or.inr phase)⟩
    | _ =>
      rw [phase] at step
      cases step
  | signal =>
    unfold Action.apply at step
    cases phase : w.phase with
    | asleep =>
      rw [phase] at step
      injection step with same
      exact same ▸ kept.giveUp (Or.inr phase) EINTR
    | _ =>
      rw [phase] at step
      cases step
  | poll ready sig =>
    unfold Action.apply at step
    cases phase : w.phase with
    | cr c =>
      rw [phase] at step
      injection step with same
      exact same ▸ kept.poll (Or.inl ⟨c, phase⟩) fine
    | put c =>
      rw [phase] at step
      injection step with same
      exact same ▸ kept.poll (Or.inr ⟨c, phase⟩) fine
    | _ =>
      rw [phase] at step
      cases step

/-- In every run of fair steps what is sent and counted is right. -/
theorem write_translates (tio : Termios) (ndelay : Bool) (tty : Terminal) (bytes : List UInt8)
    (as : List Action) (w : Call)
    (run : Run.Steps (fun w a w' => fair tio ndelay w a ∧ a.apply tio ndelay w = some w')
      (begin tty bytes) as w) : Right tio bytes w := by
  have start : Kept tio bytes (begin tty bytes) := ⟨rfl, Nat.zero_le _, rfl⟩
  have kept : Kept tio bytes w :=
    run.keeps (fun _ _ _ kept step => kept.step step.1 step.2) start
  exact kept.right

end Kept

/-- Nothing is done to the input, and the output flags are those given. -/
def output (c_oflag : BitVec 16) : Termios := ⟨0, c_oflag, 0, fun _ => 0⟩

/-- A line is written to a device that is busy at first. -/
theorem write_translates_line : ∃ w : Call,
    Right (output (OPOST ||| ONLCR)) [97, 10] w ∧ w.sent = [97, 13, 10] := by
  have run : (Run.perform (Action.apply (output (OPOST ||| ONLCR)) false)
      (fair (output (OPOST ||| ONLCR)) false) [.round, .poll .later false, .poll .now false, .round,
        .poll .now false, .poll .now false, .round] (begin (start 8).tty [97, 10])).map Call.sent =
      some [97, 13, 10] := by decide +kernel
  obtain ⟨w, ran, sent⟩ := Option.map_eq_some_iff.mp run
  exact ⟨w, write_translates _ false (start 8).tty [97, 10] _ w (Run.perform_steps ran), sent⟩

/-- A carriage return is not mapped. -/
theorem write_keeps_cr : ∃ w : Call,
    Run.Steps (fun w a w' => Action.apply (output (OPOST ||| OCRNL)) false w a = some w')
      (begin (start 8).tty [13]) [.round, .poll .now false, .round] w ∧
    w.phase = .done (some 1) ∧ w.sent = [13] ∧ ¬ Right (output (OPOST ||| OCRNL)) [13] w := by
  have run : Run.perform (Action.apply (output (OPOST ||| OCRNL)) false) (fun _ _ => True)
      [.round, .poll .now false, .round] (begin (start 8).tty [13]) =
      some ⟨tty_putc (start 8).tty 13, [], 1, 0, .done (some 1), [13]⟩ := by rfl
  refine ⟨_, (Run.perform_steps run).mono fun _ _ _ step => step.2, rfl, rfl, fun right => ?_⟩
  have same : [13] = translate (output (OPOST ||| OCRNL)) ([13].take 1) := right.2
  revert same
  decide

end TtyWrite
