import Fuzix.Lib.Run
import Fuzix.Lib.Table

/-!
# Both ends of a pipe

The two open file entries that `_pipe` makes are shared by `dup` and `fork` and given up by
`close`; `readi` and `writei` wait on the inode, look at the counts of readers and writers,
and are woken by transfers and by `i_deref`. A call runs until it sleeps or returns, and what
it returns is kept with the state of the pipe at that moment. The bytes, and the disk below
them, are left out: a transfer moves what it is told, less if a block cannot be had.
-/

namespace Pipe

open Table

def EINTR : Nat := 4
def EIO : Nat := 5
def EAGAIN : Nat := 11
def ENOSPC : Nat := 28
def EPIPE : Nat := 32

/-- `16 * BLKSIZE` -/
def capacity : Nat := 8192

inductive Side where
  | reading
  | writing
deriving DecidableEq

def Side.other : Side → Side
  | .reading => .writing
  | .writing => .reading

/-- Why a transfer ends early. -/
inductive Fault where
  | device
  | full
deriving DecidableEq

def Fault.code : Fault → Nat
  | .device => EIO
  | .full => ENOSPC

/-- Where a call is: at its check for the first time, asleep, or woken in `psleep_flags`. -/
inductive Place where
  | gate
  | asleep
  | woken
deriving DecidableEq

/-- `u_count`, and whether the entry has `O_NDELAY`. -/
structure Call where
  side : Side
  count : Nat
  ndelay : Bool
  place : Place
deriving DecidableEq

/-- What a call returned, with what it moved, and the pipe when it did. A count of -1 is `none`. -/
structure Answer where
  side : Side
  ndelay : Bool
  moved : Nat
  ret : Option Nat
  error : Nat
  size : Nat
  readRefs : Nat
  writeRefs : Nat
deriving DecidableEq

/-- `refs` is `o_refs` of the two entries; `fds` are the descriptors, each with its process. -/
structure State where
  refs : Side → Nat
  readers : Nat
  writers : Nat
  size : Nat
  fds : List (Nat × Side)
  calls : Nat → Option Call
  answers : List Answer

/-- What `_pipe` leaves. -/
def opened (p : Nat) : State where
  refs := fun _ => 1
  readers := 1
  writers := 1
  size := 0
  fds := [(p, .reading), (p, .writing)]
  calls := fun _ => none
  answers := []

/-! ## `readi` and `writei` -/

def wake (c : Call) : Call := if c.place = .asleep then { c with place := .woken } else c

/-- `wakeup(ino)` -/
def State.wakeup (s : State) : State := { s with calls := fun q => (s.calls q).map wake }

def State.answer (s : State) (p : Nat) (c : Call) (moved : Nat) (ret : Option Nat) (error : Nat) : State :=
  { s with
    calls := put s.calls p none
    answers := ⟨c.side, c.ndelay, moved, ret, error, s.size, s.refs .reading, s.refs .writing⟩ :: s.answers }

def State.sleep (s : State) (p : Nat) (c : Call) : State :=
  { s with calls := put s.calls p (some { c with place := .asleep }) }

def State.sizeAfter (s : State) (moved : Nat) : Side → Nat
  | .reading => s.size - moved
  | .writing => s.size + moved

/-- The loop over the blocks, which wakes after each: `moved` of `want` bytes. -/
def State.transfer (s : State) (p : Nat) (c : Call) (want moved : Nat) (fault : Fault) : State :=
  let s := if moved = 0 then s else { s with size := s.sizeAfter moved c.side }.wakeup
  let error := if moved = want then 0 else fault.code
  s.answer p c moved (if moved = 0 ∧ error ≠ 0 then none else some moved) error

/-- `readi` of a pipe, from `pipewait` on. -/
def readi (s : State) (p : Nat) (c : Call) (moved : Nat) : Option State :=
  if s.size = 0 then
    if s.writers = 0 then some (s.answer p c 0 (some 0) 0)
    else if c.ndelay then some (s.answer p c 0 (some 0) EAGAIN)
    else some (s.sleep p c)
  else
    let want := min c.count s.size
    if moved ≤ want then some (s.transfer p c want moved .device) else none

/-- `writei` of a pipe. -/
def writei (s : State) (p : Nat) (c : Call) (moved : Nat) (fault : Fault) : Option State :=
  if capacity - s.size < c.count then
    if s.readers = 0 then some (s.answer p c 0 none EPIPE)
    else if c.ndelay then some (s.answer p c 0 (some c.count) EAGAIN)
    else some (s.sleep p c)
  else if moved ≤ c.count then some (s.transfer p c c.count moved fault) else none

/-- A call goes on; if it slept, `psleep_flags` first looks whether a signal hit it. -/
def resume (s : State) (p : Nat) (c : Call) (hit : Bool) (moved : Nat) (fault : Fault) : Option State :=
  match c.place, c.side with
  | .asleep, _ => none
  | .woken, .reading => if hit then some (s.answer p c 0 (some 0) EINTR) else readi s p c moved
  | .woken, .writing => if hit then some (s.answer p c 0 (some c.count) EINTR) else writei s p c moved fault
  | .gate, .reading => readi s p c moved
  | .gate, .writing => writei s p c moved fault

/-! ## The calls of a process -/

/-- `doclose` and `oft_deref`: the counts go down, and `i_deref` wakes, with the last
descriptor of the entry. -/
def doclose (s : State) (p : Nat) (side : Side) : State :=
  let last := s.refs side = 1
  let s := { s with
    fds := s.fds.erase (p, side)
    refs := put s.refs side (s.refs side - 1)
    readers := if last ∧ side = .reading then s.readers - 1 else s.readers
    writers := if last ∧ side = .writing then s.writers - 1 else s.writers }
  if last then s.wakeup else s

/-- `begin` is a call with a count that is not zero; `signal` wakes a process that sleeps;
`die` is the end of a process in its sleep, whose descriptors are closed afterwards. -/
inductive Action where
  | begin (p : Nat) (side : Side) (count : Nat) (ndelay : Bool)
  | resume (p : Nat) (hit : Bool) (moved : Nat) (fault : Fault)
  | signal (p : Nat)
  | die (p : Nat)
  | dup (p : Nat) (side : Side)
  | fork (p q : Nat)
  | close (p : Nat) (side : Side)

def Action.apply (s : State) : Action → Option State
  | .begin p side count ndelay =>
    if s.calls p = none ∧ (p, side) ∈ s.fds ∧ 0 < count then
      some { s with calls := put s.calls p (some ⟨side, count, ndelay, .gate⟩) }
    else none
  | .resume p hit moved fault => (s.calls p).bind fun c => Pipe.resume s p c hit moved fault
  | .signal p => (s.calls p).map fun c => { s with calls := put s.calls p (some (wake c)) }
  | .die p => some { s with calls := put s.calls p none }
  | .dup p side =>
    if s.calls p = none ∧ (p, side) ∈ s.fds then
      some { s with fds := (p, side) :: s.fds, refs := put s.refs side (s.refs side + 1) }
    else none
  | .fork p q =>
    if s.calls p = none ∧ s.calls q = none ∧ (∀ e ∈ s.fds, e.1 ≠ q) then
      some { s with
        fds := (s.fds.filter (fun e => e.1 = p)).map (fun e => (q, e.2)) ++ s.fds
        refs := fun side => s.refs side + (s.fds.filter (fun e => e.1 = p)).countP (fun e => e.2 = side) }
    else none
  | .close p side =>
    if s.calls p = none ∧ (p, side) ∈ s.fds then some (doclose s p side) else none

/-! ## The protocol -/

/-- The count that a call reports: the one it returns, or, as `unix_return` hands it to the
process, none if `u_error` is set. -/
def Answer.reported (strict : Bool) (a : Answer) : Option Nat :=
  if strict ∨ a.error = 0 then a.ret else none

def Right (strict : Bool) (a : Answer) : Prop :=
  match a.side with
  | .reading => a.ndelay = false → a.reported strict = some 0 → a.size = 0 ∧ a.writeRefs = 0
  | .writing => (a.readRefs = 0 → a.ret = none ∧ a.error = EPIPE) ∧
      (a.moved = 0 → a.reported strict = none ∨ a.reported strict = some 0)

/-- Nobody sleeps for an end that is closed. -/
def Awake (s : State) : Prop :=
  ∀ p c, s.calls p = some c → c.place = .asleep → s.refs c.side.other ≠ 0

/-- What a call may not meet when it goes on. -/
def Clean (strict : Bool) (s : State) (c : Call) (hit : Bool) : Prop :=
  match c.side with
  | .reading => ¬ (strict = true ∧ c.ndelay = false ∧ (c.place = .woken ∧ hit = true) ∧
      (s.size ≠ 0 ∨ s.refs .writing ≠ 0))
  | .writing =>
    if c.place = .woken ∧ hit = true then strict = false ∧ s.refs .reading ≠ 0
    else if capacity - s.size < c.count then
      ¬ (strict = true ∧ s.refs .reading ≠ 0 ∧ c.ndelay = true)
    else s.refs .reading ≠ 0

def Fair (strict : Bool) (s : State) : Action → Prop
  | .resume p hit _ _ => (s.calls p).elim True fun c => Clean strict s c hit
  | _ => True

instance decidableClean (strict : Bool) (s : State) (c : Call) (hit : Bool) : Decidable (Clean strict s c hit) := by
  unfold Clean
  split
  · infer_instance
  · infer_instance

instance decidableElim {α : Type} {P : α → Prop} [∀ x, Decidable (P x)] : (o : Option α) → Decidable (o.elim True P)
  | none => instDecidableTrue
  | some x => inferInstanceAs (Decidable (P x))

instance decidableFair (strict : Bool) (s : State) : (a : Action) → Decidable (Fair strict s a)
  | .begin .. => instDecidableTrue
  | .resume p hit _ _ => decidableElim (P := fun c => Clean strict s c hit) (s.calls p)
  | .signal _ => instDecidableTrue
  | .die _ => instDecidableTrue
  | .dup .. => instDecidableTrue
  | .fork .. => instDecidableTrue
  | .close .. => instDecidableTrue

/-! ## One call -/

section Call
variable {strict hit : Bool} {s t : State} {p q moved want : Nat} {c d : Call} {fault : Fault} {a : Answer}

/-- An entry counts once, however many descriptors it has. -/
def counted (refs : Nat) : Nat := if refs = 0 then 0 else 1

theorem counted_zero (n : Nat) : counted n = 0 ↔ n = 0 := by
  unfold counted
  split
  · rename_i zero
    exact iff_of_true rfl zero
  · rename_i some_left
    exact iff_of_false (by decide) some_left

/-- The counts are those of the descriptors, and of the entries that are open. -/
structure Sound (s : State) : Prop where
  refs : ∀ side, s.refs side = s.fds.countP (fun e => e.2 = side)
  readers : s.readers = counted (s.refs .reading)
  writers : s.writers = counted (s.refs .writing)
  some_bytes : ∀ p c, s.calls p = some c → 0 < c.count

theorem Sound.readers_zero (sound : Sound s) : s.readers = 0 ↔ s.refs .reading = 0 := by
  rw [sound.readers, counted_zero]

theorem Sound.writers_zero (sound : Sound s) : s.writers = 0 ↔ s.refs .writing = 0 := by
  rw [sound.writers, counted_zero]

/-- The call returned this answer, and nobody fell asleep. -/
structure Answered (s : State) (c : Call) (t : State) (a : Answer) : Prop where
  fds : t.fds = s.fds
  refs : t.refs = s.refs
  readers : t.readers = s.readers
  writers : t.writers = s.writers
  calls : ∀ q d, t.calls q = some d → ∃ e, s.calls q = some e ∧ d.count = e.count ∧ (d.place = .asleep → d = e)
  answers : t.answers = a :: s.answers
  side : a.side = c.side
  ndelay : a.ndelay = c.ndelay
  readRefs : a.readRefs = s.refs .reading
  writeRefs : a.writeRefs = s.refs .writing

/-- What is left of the calls when one returned. -/
theorem put_none {calls : Nat → Option Call} (found : put calls p none q = some d) : calls q = some d := by
  by_cases same : q = p
  · rw [same, put_same] at found
    cases found
  · rw [put_ne _ _ same] at found
    exact found

theorem answered_at_once (p : Nat) (c : Call) (moved : Nat) (ret : Option Nat) (error : Nat) :
    Answered s c (s.answer p c moved ret error)
      ⟨c.side, c.ndelay, moved, ret, error, s.size, s.refs .reading, s.refs .writing⟩ where
  fds := rfl
  refs := rfl
  readers := rfl
  writers := rfl
  calls := fun _ d found => ⟨d, put_none found, rfl, fun _ => rfl⟩
  answers := rfl
  side := rfl
  ndelay := rfl
  readRefs := rfl
  writeRefs := rfl

theorem wake_count (d : Call) : (wake d).count = d.count := by
  unfold wake
  split
  · rfl
  · rfl

theorem wake_awake (d : Call) : (wake d).place ≠ .asleep := by
  unfold wake
  split
  · intro no
    cases no
  · assumption

/-- The error that a transfer leaves. -/
def shortfall (want moved : Nat) (fault : Fault) : Nat := if moved = want then 0 else fault.code

theorem shortfall_cases (want moved : Nat) (fault : Fault) :
    shortfall want moved fault ≠ EPIPE ∧ (moved ≠ want → shortfall want moved fault ≠ 0) := by
  unfold shortfall
  by_cases whole : moved = want
  · rw [if_pos whole]
    exact ⟨by decide, fun short => absurd whole short⟩
  · rw [if_neg whole]
    cases fault with
    | device => exact ⟨by decide, fun _ => by decide⟩
    | full => exact ⟨by decide, fun _ => by decide⟩

/-- What a transfer returns. -/
def count (want moved : Nat) (fault : Fault) : Option Nat :=
  if moved = 0 ∧ shortfall want moved fault ≠ 0 then none else some moved

theorem answered_transfer (p : Nat) (c : Call) (want moved : Nat) (fault : Fault) : ∃ size,
    Answered s c (s.transfer p c want moved fault) ⟨c.side, c.ndelay, moved, count want moved fault,
      shortfall want moved fault, size, s.refs .reading, s.refs .writing⟩ := by
  by_cases nothing : moved = 0
  · refine ⟨s.size, ?_⟩
    have same : s.transfer p c want moved fault =
        s.answer p c moved (count want moved fault) (shortfall want moved fault) := by
      unfold State.transfer
      dsimp only
      rw [if_pos nothing]
      rfl
    rw [same]
    exact answered_at_once p c moved _ _
  · refine ⟨s.sizeAfter moved c.side, ?_⟩
    unfold State.transfer
    dsimp only
    rw [if_neg nothing]
    constructor
    · rfl
    · rfl
    · rfl
    · rfl
    · intro q d found
      obtain ⟨e, before, woken⟩ := Option.map_eq_some_iff.1 (put_none found)
      refine ⟨e, before, ?_, ?_⟩
      · rw [← woken]
        exact wake_count e
      · intro asleep
        rw [← woken] at asleep
        exact absurd asleep (wake_awake e)
    · rfl
    · rfl
    · rfl
    · rfl
    · rfl

theorem count_ne_zero (pos : 0 < want) : count want moved fault ≠ some 0 := by
  intro zero
  unfold count at zero
  by_cases failed : moved = 0 ∧ shortfall want moved fault ≠ 0
  · rw [if_pos failed] at zero
    cases zero
  · rw [if_neg failed] at zero
    have nothing : moved = 0 := Option.some.inj zero
    have apart : moved ≠ want := by omega
    exact failed ⟨nothing, (shortfall_cases want moved fault).2 apart⟩

theorem reported_some {n : Nat} (reported : a.reported strict = some n) : a.ret = some n := by
  unfold Answer.reported at reported
  split at reported
  · exact reported
  · cases reported

/-- What counts as reported when an error is set. -/
theorem reported_error (error : a.error ≠ 0) : a.reported strict = if strict = true then a.ret else none := by
  unfold Answer.reported
  cases strict with
  | true => rw [if_pos (Or.inl rfl), if_pos rfl]
  | false =>
    have neither : ¬ (false = true ∨ a.error = 0) := fun either => either.elim Bool.false_ne_true error
    rw [if_neg neither, if_neg Bool.false_ne_true]

/-- What a call that goes on ends with: sleep, while the other end is open, or an answer, which
is right if and only if the call was clean. -/
def Outcome (strict hit : Bool) (s : State) (p : Nat) (c : Call) (t : State) : Prop :=
  t = s.sleep p c ∧ s.refs c.side.other ≠ 0 ∨
    ∃ a, Answered s c t a ∧ (Right strict a ↔ Clean strict s c hit)

theorem readi_outcome (strict : Bool) (sound : Sound s) (side : c.side = .reading) (pos : 0 < c.count)
    (quiet : ¬ (c.place = .woken ∧ hit = true)) (done : readi s p c moved = some t) :
    Outcome strict hit s p c t := by
  have clean : Clean strict s c hit := by
    unfold Clean
    rw [side]
    exact fun broken => quiet broken.2.2.1
  by_cases empty : s.size = 0
  · by_cases closed : s.writers = 0
    · rw [readi, if_pos empty, if_pos closed] at done
      cases done
      refine Or.inr ⟨_, answered_at_once p c 0 (some 0) 0, iff_of_true ?_ clean⟩
      unfold Right
      rw [side]
      exact fun _ _ => ⟨empty, sound.writers_zero.1 closed⟩
    · by_cases ndelay : c.ndelay = true
      · rw [readi, if_pos empty, if_neg closed, if_pos ndelay] at done
        cases done
        refine Or.inr ⟨_, answered_at_once p c 0 (some 0) EAGAIN, iff_of_true ?_ clean⟩
        unfold Right
        rw [side]
        intro blocking
        rw [ndelay] at blocking
        cases blocking
      · rw [readi, if_pos empty, if_neg closed, if_neg ndelay] at done
        cases done
        refine Or.inl ⟨rfl, ?_⟩
        rw [side]
        exact fun zero => closed (sound.writers_zero.2 zero)
  · by_cases le : moved ≤ min c.count s.size
    · rw [readi, if_neg empty] at done
      dsimp only at done
      rw [if_pos le] at done
      cases done
      obtain ⟨size, answered⟩ := answered_transfer (s := s) p c (min c.count s.size) moved .device
      refine Or.inr ⟨_, answered, iff_of_true ?_ clean⟩
      unfold Right
      rw [side]
      intro _ zero
      exact absurd (reported_some zero) (count_ne_zero (by omega))
    · rw [readi, if_neg empty] at done
      dsimp only at done
      rw [if_neg le] at done
      cases done

theorem writei_outcome (strict : Bool) (sound : Sound s) (side : c.side = .writing) (pos : 0 < c.count)
    (quiet : ¬ (c.place = .woken ∧ hit = true)) (done : writei s p c moved fault = some t) :
    Outcome strict hit s p c t := by
  by_cases full : capacity - s.size < c.count
  · have clean : Clean strict s c hit ↔ ¬ (strict = true ∧ s.refs .reading ≠ 0 ∧ c.ndelay = true) := by
      unfold Clean
      rw [side]
      dsimp only
      rw [if_neg quiet, if_pos full]
    by_cases closed : s.readers = 0
    · rw [writei, if_pos full, if_pos closed] at done
      cases done
      refine Or.inr ⟨_, answered_at_once p c 0 none EPIPE, iff_of_true ?_ ?_⟩
      · unfold Right
        rw [side]
        refine ⟨fun _ => ⟨rfl, rfl⟩, fun _ => Or.inl ?_⟩
        rw [reported_error (by exact Nat.succ_ne_zero _)]
        split
        · rfl
        · rfl
      · rw [clean]
        exact fun broken => broken.2.1 (sound.readers_zero.1 closed)
    · have open_end : s.refs .reading ≠ 0 := fun zero => closed (sound.readers_zero.2 zero)
      by_cases ndelay : c.ndelay = true
      · rw [writei, if_pos full, if_neg closed, if_pos ndelay] at done
        cases done
        refine Or.inr ⟨_, answered_at_once p c 0 (some c.count) EAGAIN, ?_⟩
        rw [clean]
        unfold Right
        rw [side]
        dsimp only
        rw [reported_error (by exact Nat.succ_ne_zero _)]
        constructor
        · rintro ⟨_, nothing⟩ ⟨exact_count, _, _⟩
          rw [if_pos exact_count] at nothing
          rcases nothing rfl with no | zero
          · cases no
          · exact absurd (Option.some.inj zero) (by omega)
        · intro loose
          refine ⟨fun zero => absurd zero open_end, fun _ => Or.inl ?_⟩
          rw [if_neg fun exact_count => loose ⟨exact_count, open_end, ndelay⟩]
      · rw [writei, if_pos full, if_neg closed, if_neg ndelay] at done
        cases done
        refine Or.inl ⟨rfl, ?_⟩
        rw [side]
        exact open_end
  · by_cases le : moved ≤ c.count
    · rw [writei, if_neg full, if_pos le] at done
      cases done
      obtain ⟨size, answered⟩ := answered_transfer (s := s) p c c.count moved fault
      refine Or.inr ⟨_, answered, ?_⟩
      have clean : Clean strict s c hit ↔ s.refs .reading ≠ 0 := by
        unfold Clean
        rw [side]
        dsimp only
        rw [if_neg quiet, if_neg full]
      rw [clean]
      unfold Right
      rw [side]
      dsimp only
      constructor
      · rintro ⟨broken, _⟩ zero
        exact (shortfall_cases c.count moved fault).1 (broken zero).2
      · intro open_end
        refine ⟨fun zero => absurd zero open_end, ?_⟩
        intro nothing
        left
        cases reported : Answer.reported strict _ with
        | none => rfl
        | some n =>
          exfalso
          have ret := reported_some reported
          have zero : n = 0 := by
            unfold count at ret
            dsimp only at ret
            split at ret
            · cases ret
            · rw [← Option.some.inj ret]
              exact nothing
          rw [zero] at ret
          exact count_ne_zero pos ret
    · rw [writei, if_neg full, if_neg le] at done
      cases done

/-- A signal ends the call with its count as it was. -/
theorem hit_outcome (strict : Bool) (pos : 0 < c.count) (woken : c.place = .woken ∧ hit = true) (ret : Option Nat)
    (value : ret = if c.side = .reading then some 0 else some c.count) :
    Outcome strict hit s p c (s.answer p c 0 ret EINTR) := by
  refine Or.inr ⟨_, answered_at_once p c 0 ret EINTR, ?_⟩
  unfold Right Clean
  dsimp only
  rw [reported_error (by exact Nat.succ_ne_zero _)]
  cases side : c.side with
  | reading =>
    rw [if_pos side] at value
    dsimp only
    rw [value]
    constructor
    · rintro right ⟨exact_count, blocking, _, left⟩
      have ended := right blocking (if_pos exact_count)
      rcases left with bytes | open_end
      · exact bytes ended.1
      · exact open_end ended.2
    · intro clean blocking zero
      by_contra left
      apply clean
      refine ⟨?_, blocking, woken, ?_⟩
      · by_contra loose
        rw [if_neg loose] at zero
        cases zero
      · by_cases bytes : s.size = 0
        · exact Or.inr fun closed => left ⟨bytes, closed⟩
        · exact Or.inl bytes
  | writing =>
    have other : ¬ c.side = .reading := by
      rw [side]
      decide
    rw [if_neg other] at value
    dsimp only
    rw [if_pos woken, value]
    constructor
    · rintro ⟨broken, nothing⟩
      constructor
      · by_contra exact_count
        rw [if_pos (eq_true_of_ne_false exact_count)] at nothing
        rcases nothing rfl with no | zero
        · cases no
        · exact absurd (Option.some.inj zero) (by omega)
      · intro zero
        cases (broken zero).1
    · rintro ⟨loose, open_end⟩
      refine ⟨fun zero => absurd zero open_end, fun _ => Or.inl ?_⟩
      rw [loose, if_neg Bool.false_ne_true]

theorem resume_outcome (strict : Bool) (sound : Sound s) (found : s.calls p = some c)
    (done : resume s p c hit moved fault = some t) : Outcome strict hit s p c t := by
  have pos := sound.some_bytes p c found
  unfold resume at done
  cases place : c.place with
  | asleep =>
    rw [place] at done
    cases done
  | gate =>
    have quiet : ¬ (c.place = .woken ∧ hit = true) := by
      rw [place]
      exact fun woken => by cases woken.1
    rw [place] at done
    cases side : c.side with
    | reading =>
      rw [side] at done
      exact readi_outcome strict sound side pos quiet done
    | writing =>
      rw [side] at done
      exact writei_outcome strict sound side pos quiet done
  | woken =>
    rw [place] at done
    by_cases struck : hit = true
    · cases side : c.side with
      | reading =>
        rw [side] at done
        dsimp only at done
        rw [if_pos struck] at done
        cases done
        exact hit_outcome strict pos ⟨place, struck⟩ _ (if_pos side).symm
      | writing =>
        rw [side] at done
        dsimp only at done
        rw [if_pos struck] at done
        cases done
        have other : ¬ c.side = .reading := by
          rw [side]
          decide
        exact hit_outcome strict pos ⟨place, struck⟩ _ (if_neg other).symm
    · have quiet : ¬ (c.place = .woken ∧ hit = true) := fun woken => struck woken.2
      cases side : c.side with
      | reading =>
        rw [side] at done
        dsimp only at done
        rw [if_neg struck] at done
        exact readi_outcome strict sound side pos quiet done
      | writing =>
        rw [side] at done
        dsimp only at done
        rw [if_neg struck] at done
        exact writei_outcome strict sound side pos quiet done

end Call

/-! ## Every step -/

section Steps
variable {strict : Bool} {s t : State} {p q : Nat} {c d : Call} {a : Action} {side : Side}

/-- Only calls change, and those that sleep slept before. -/
theorem Sound.of_calls (sound : Sound s) (fds : t.fds = s.fds) (refs : t.refs = s.refs)
    (readers : t.readers = s.readers) (writers : t.writers = s.writers)
    (bytes : ∀ q d, t.calls q = some d → 0 < d.count) : Sound t where
  refs := by
    rw [refs, fds]
    exact sound.refs
  readers := by rw [readers, refs, sound.readers]
  writers := by rw [writers, refs, sound.writers]
  some_bytes := bytes

theorem Answered.sound {answer : Answer} (answered : Answered s c t answer) (sound : Sound s) : Sound t := by
  apply sound.of_calls answered.fds answered.refs answered.readers answered.writers
  intro q d found
  obtain ⟨e, before, same, _⟩ := answered.calls q d found
  rw [same]
  exact sound.some_bytes q e before

theorem Answered.awake {answer : Answer} (answered : Answered s c t answer) (awake : Awake s) : Awake t := by
  intro q d found asleep
  obtain ⟨e, before, _, same⟩ := answered.calls q d found
  have slept := same asleep
  rw [slept] at asleep ⊢
  rw [answered.refs]
  exact awake q e before asleep

/-- A step that stores one call, which does not sleep for a closed end. -/
theorem put_call (sound : Sound s) (awake : Awake s) (pos : 0 < d.count)
    (waits : d.place = .asleep → s.refs d.side.other ≠ 0) :
    Sound { s with calls := put s.calls p (some d) } ∧ Awake { s with calls := put s.calls p (some d) } := by
  have cases_of : ∀ q e, put s.calls p (some d) q = some e → e = d ∨ s.calls q = some e := by
    intro q e found
    by_cases same : q = p
    · rw [same, put_same] at found
      exact Or.inl (Option.some.inj found).symm
    · rw [put_ne _ _ same] at found
      exact Or.inr found
  constructor
  · refine Sound.of_calls (s := s) sound rfl rfl rfl rfl ?_
    intro q e found
    rcases cases_of q e found with same | before
    · rw [same]
      exact pos
    · exact sound.some_bytes q e before
  · intro q e found asleep
    rcases cases_of q e found with same | before
    · rw [same] at asleep ⊢
      exact waits asleep
    · exact awake q e before asleep

theorem Sound.held (sound : Sound s) (mem : (p, side) ∈ s.fds) : 0 < s.refs side := by
  rw [sound.refs side]
  exact List.countP_pos_iff.2 ⟨(p, side), mem, decide_eq_true rfl⟩

/-- With more references the same entries are open. -/
theorem grow (sound : Sound s) (awake : Awake s) {fds : List (Nat × Side)} {refs : Side → Nat}
    (counts : ∀ side, refs side = fds.countP (fun e => e.2 = side))
    (open_ends : ∀ side, refs side = 0 ↔ s.refs side = 0) :
    Sound { s with fds := fds, refs := refs } ∧ Awake { s with fds := fds, refs := refs } := by
  constructor
  · refine ⟨counts, ?_, ?_, sound.some_bytes⟩
    · show s.readers = _
      rw [sound.readers]
      simp only [counted, open_ends]
    · show s.writers = _
      rw [sound.writers]
      simp only [counted, open_ends]
  · intro q e found asleep
    exact fun zero => awake q e found asleep ((open_ends _).1 zero)

theorem countP_children (fds : List (Nat × Side)) (q : Nat) (side : Side) :
    (fds.map (fun e => (q, e.2))).countP (fun e => e.2 = side) = fds.countP (fun e => e.2 = side) := by
  rw [List.countP_map]
  rfl

theorem fork_kept (sound : Sound s) (awake : Awake s) (p q : Nat) :
    Sound { s with
      fds := (s.fds.filter (fun e => e.1 = p)).map (fun e => (q, e.2)) ++ s.fds
      refs := fun side => s.refs side + (s.fds.filter (fun e => e.1 = p)).countP (fun e => e.2 = side) } ∧
    Awake { s with
      fds := (s.fds.filter (fun e => e.1 = p)).map (fun e => (q, e.2)) ++ s.fds
      refs := fun side => s.refs side + (s.fds.filter (fun e => e.1 = p)).countP (fun e => e.2 = side) } := by
  apply grow sound awake
  · intro side
    rw [List.countP_append, countP_children, sound.refs side, Nat.add_comm]
  · intro side
    have fewer : (s.fds.filter (fun e => e.1 = p)).countP (fun e => e.2 = side) ≤ s.refs side := by
      rw [sound.refs side]
      exact List.Sublist.countP_le List.filter_sublist
    omega

theorem dup_kept (sound : Sound s) (awake : Awake s) (mem : (p, side) ∈ s.fds) :
    Sound { s with fds := (p, side) :: s.fds, refs := put s.refs side (s.refs side + 1) } ∧
    Awake { s with fds := (p, side) :: s.fds, refs := put s.refs side (s.refs side + 1) } := by
  have held := sound.held mem
  apply grow sound awake
  · intro other
    rw [List.countP_cons, ← sound.refs other]
    by_cases same : other = side
    · rw [same, put_same, if_pos (decide_eq_true rfl)]
    · rw [put_ne _ _ same, if_neg fun equal => same (of_decide_eq_true equal).symm]
      rfl
  · intro other
    by_cases same : other = side
    · rw [same, put_same]
      omega
    · rw [put_ne _ _ same]

theorem wakeup_kept (sound : Sound s) : Sound s.wakeup ∧ Awake s.wakeup := by
  constructor
  · refine Sound.of_calls (s := s) sound rfl rfl rfl rfl ?_
    intro q d found
    obtain ⟨e, before, woken⟩ := Option.map_eq_some_iff.1 found
    rw [← woken, wake_count]
    exact sound.some_bytes q e before
  · intro q d found asleep
    obtain ⟨e, _, woken⟩ := Option.map_eq_some_iff.1 found
    rw [← woken] at asleep
    exact absurd asleep (wake_awake e)

theorem countP_closed (mem : (p, side) ∈ s.fds) (other : Side) :
    (s.fds.erase (p, side)).countP (fun e => e.2 = other) =
      s.fds.countP (fun e => e.2 = other) - if other = side then 1 else 0 := by
  have counts := (List.perm_cons_erase mem).countP_eq (fun e => decide (e.2 = other))
  rw [List.countP_cons] at counts
  rw [counts]
  by_cases same : other = side
  · rw [if_pos same, if_pos (decide_eq_true same.symm), Nat.add_sub_cancel]
  · rw [if_neg same, if_neg fun equal => same (of_decide_eq_true equal).symm]
    rfl

/-- The entry goes with its last descriptor, and all that wait for it are woken. -/
theorem doclose_kept (sound : Sound s) (awake : Awake s) (mem : (p, side) ∈ s.fds) :
    Sound (doclose s p side) ∧ Awake (doclose s p side) := by
  have held := sound.held mem
  have counts : ∀ other, put s.refs side (s.refs side - 1) other =
      (s.fds.erase (p, side)).countP (fun e => e.2 = other) := by
    intro other
    rw [countP_closed mem, ← sound.refs other]
    by_cases same : other = side
    · rw [same, put_same, if_pos rfl]
    · rw [put_ne _ _ same, if_neg same, Nat.sub_zero]
  by_cases last : s.refs side = 1
  · unfold doclose
    dsimp only
    rw [if_pos last]
    apply wakeup_kept
    refine ⟨counts, ?_, ?_, sound.some_bytes⟩
    · cases side with
      | reading =>
        dsimp only
        rw [if_pos ⟨last, rfl⟩, put_same, sound.readers, last]
        rfl
      | writing =>
        have other : ¬ (s.refs .writing = 1 ∧ Side.writing = .reading) := fun both => by cases both.2
        dsimp only
        rw [if_neg other, put_ne _ _ (by decide), sound.readers]
    · cases side with
      | reading =>
        have other : ¬ (s.refs .reading = 1 ∧ Side.reading = .writing) := fun both => by cases both.2
        dsimp only
        rw [if_neg other, put_ne _ _ (by decide), sound.writers]
      | writing =>
        dsimp only
        rw [if_pos ⟨last, rfl⟩, put_same, sound.writers, last]
        rfl
  · have grown := grow sound awake counts (by
      intro other
      by_cases same : other = side
      · rw [same, put_same]
        omega
      · rw [put_ne _ _ same])
    unfold doclose
    dsimp only
    rw [if_neg last, if_neg fun both => last both.1, if_neg fun both => last both.1]
    exact grown

/-- One step keeps the counts and the sleepers right, and adds an answer at most, which is
right if the step was fair. -/
theorem apply_kept (sound : Sound s) (awake : Awake s) (done : a.apply s = some t) :
    Sound t ∧ Awake t ∧ (t.answers = s.answers ∨
      ∃ answer, t.answers = answer :: s.answers ∧ (Right strict answer ↔ Fair strict s a)) := by
  cases a with
  | begin p side count ndelay =>
    by_cases ready : s.calls p = none ∧ (p, side) ∈ s.fds ∧ 0 < count
    · rw [Action.apply, if_pos ready] at done
      cases done
      have kept := put_call (p := p) (d := ⟨side, count, ndelay, .gate⟩) sound awake ready.2.2
        (fun asleep => by cases asleep)
      exact ⟨kept.1, kept.2, Or.inl rfl⟩
    · rw [Action.apply, if_neg ready] at done
      cases done
  | resume p hit moved fault =>
    obtain ⟨c, found, went⟩ := Option.bind_eq_some_iff.1 done
    rcases resume_outcome strict sound found went with ⟨slept, open_end⟩ | ⟨answer, answered, right⟩
    · have kept := put_call (p := p) (d := { c with place := .asleep }) sound awake
        (sound.some_bytes p c found) (fun _ => open_end)
      rw [slept]
      exact ⟨kept.1, kept.2, Or.inl rfl⟩
    · refine ⟨answered.sound sound, answered.awake awake, Or.inr ⟨answer, answered.answers, right.trans ?_⟩⟩
      show _ ↔ (s.calls p).elim True fun d => Clean strict s d hit
      rw [found]
      exact Iff.rfl
  | signal p =>
    obtain ⟨c, found, woken⟩ := Option.map_eq_some_iff.1 done
    have kept := put_call (p := p) (d := wake c) sound awake
      (by rw [wake_count]; exact sound.some_bytes p c found) (fun asleep => absurd asleep (wake_awake c))
    rw [← woken]
    exact ⟨kept.1, kept.2, Or.inl rfl⟩
  | die p =>
    cases done
    refine ⟨sound.of_calls rfl rfl rfl rfl ?_, ?_, Or.inl rfl⟩
    · intro q d found
      exact sound.some_bytes q d (put_none found)
    · intro q d found
      exact awake q d (put_none found)
  | dup p side =>
    by_cases ready : s.calls p = none ∧ (p, side) ∈ s.fds
    · rw [Action.apply, if_pos ready] at done
      cases done
      have kept := dup_kept sound awake ready.2
      exact ⟨kept.1, kept.2, Or.inl rfl⟩
    · rw [Action.apply, if_neg ready] at done
      cases done
  | fork p q =>
    by_cases ready : s.calls p = none ∧ s.calls q = none ∧ ∀ e ∈ s.fds, e.1 ≠ q
    · rw [Action.apply, if_pos ready] at done
      cases done
      have kept := fork_kept sound awake p q
      exact ⟨kept.1, kept.2, Or.inl rfl⟩
    · rw [Action.apply, if_neg ready] at done
      cases done
  | close p side =>
    by_cases ready : s.calls p = none ∧ (p, side) ∈ s.fds
    · rw [Action.apply, if_pos ready] at done
      cases done
      have kept := doclose_kept sound awake ready.2
      refine ⟨kept.1, kept.2, Or.inl ?_⟩
      unfold doclose
      dsimp only
      split
      · rfl
      · rfl
    · rw [Action.apply, if_neg ready] at done
      cases done

end Steps

/-! ## Every run -/

section Runs
variable {strict : Bool} {s : State} {as : List Action}

/-- Every answer so far is right, and nobody sleeps for an end that is closed. -/
structure Protocol (strict : Bool) (s : State) : Prop where
  answers : ∀ a ∈ s.answers, Right strict a
  awake : Awake s

def Step (strict : Bool) (s : State) (a : Action) (t : State) : Prop := Fair strict s a ∧ a.apply s = some t

theorem opened_sound (p : Nat) : Sound (opened p) ∧ Awake (opened p) := by
  constructor
  · refine ⟨?_, rfl, rfl, ?_⟩
    · intro side
      cases side with
      | reading => rfl
      | writing => rfl
    · intro q c found
      cases found
  · intro q c found
    cases found

/-- A step that is not fair gives a wrong answer. -/
theorem unfair_wrong {a : Action} {t : State} (sound : Sound s) (awake : Awake s) (done : a.apply s = some t)
    (unfair : ¬ Fair strict s a) (answers : t.answers ≠ s.answers) : ∃ answer ∈ t.answers, ¬ Right strict answer := by
  rcases (@apply_kept strict _ _ _ sound awake done).2.2 with same | ⟨answer, added, right⟩
  · exact absurd same answers
  · refine ⟨answer, ?_, fun fine => unfair (right.1 fine)⟩
    rw [added]
    exact List.mem_cons_self

/-- The protocol of a pipe, for the counts that calls return and for those a process sees. -/
theorem pipe_protocol (strict : Bool) (p : Nat) (run : Run.Steps (Step strict) (opened p) as s) :
    Protocol strict s := by
  have kept := run.keeps (I := fun s => (Sound s ∧ Awake s) ∧ ∀ a ∈ s.answers, Right strict a) (by
    rintro s a t ⟨⟨sound, awake⟩, right⟩ ⟨fair, done⟩
    obtain ⟨sound', awake', answers⟩ := @apply_kept strict _ _ _ sound awake done
    refine ⟨⟨sound', awake'⟩, ?_⟩
    rcases answers with same | ⟨answer, added, fine⟩
    · rw [same]
      exact right
    · rw [added]
      intro other mem
      rcases List.mem_cons.1 mem with new | old
      · rw [new]
        exact fine.2 fair
      · exact right other old) ⟨opened_sound p, fun a mem => absurd mem List.not_mem_nil⟩
  exact ⟨kept.2, kept.1.2⟩

end Runs

/-- Process 1 writes three bytes and closes its end; process 2 reads them, and then the end of
file. -/
def threeBytes : List Action :=
  [.fork 1 2, .begin 1 .writing 3 false, .resume 1 false 3 .device, .close 2 .writing,
    .begin 2 .reading 10 false, .resume 2 false 3 .device, .begin 2 .reading 10 false,
    .resume 2 false 0 .device, .close 1 .writing, .resume 2 false 0 .device]

theorem pipe_protocol_three : ∃ s, Run.Steps (Step true) (opened 1) threeBytes s ∧
    s.answers.map Answer.ret = [some 0, some 3, some 3] ∧ Protocol true s := by
  have run : Run.Steps (Step true) (opened 1) threeBytes _ := Run.perform_steps rfl
  exact ⟨_, run, rfl, pipe_protocol true 1 run⟩

/-- The read end is closed, and a byte is written. -/
def brokenPipe : List Action := [.close 1 .reading, .begin 1 .writing 1 false, .resume 1 false 1 .device]

theorem write_without_reader : ∃ s, Run.Steps (fun s a t => Action.apply s a = some t) (opened 1) brokenPipe s ∧
    s.answers.map Answer.ret = [some 1] ∧ ∀ strict, ¬ Protocol strict s := by
  have run : Run.Steps (fun s a t => True ∧ Action.apply s a = some t) (opened 1) brokenPipe _ :=
    Run.perform_steps rfl
  refine ⟨_, run.mono fun _ _ _ both => both.2, rfl, ?_⟩
  intro strict protocol
  have right := protocol.answers _ List.mem_cons_self
  cases (right.1 rfl).1

end Pipe
