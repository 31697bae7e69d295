import Mathlib.Algebra.Group.Nat.Defs
import Fuzix.Sched
import Fuzix.Lib.Run

/-!
# Alarms and timed pauses

`_alarm` and `_pause` of syscall_proc.c with the counters that `timer_interrupt` of
process.c takes down ten times a second. The interrupt can come between the steps of a
`pause`. Which process the processor runs is left open: every process that is awake may
take the next step.
-/

namespace Alarm

open Table
open Sched (Status)

class Platform where
  /-- The width of `uarg_t`. -/
  uargBits : Nat
  widths : uargBits = 16 ∨ uargBits = 32

export Platform (uargBits)

/-- Where a process is: behind the store of `p_timeout` in `_pause`, behind `psleep`, or
in no call of `pause`. -/
inductive Place where
  | user
  | armed (t : BitVec 16)
  | waiting (t : BitVec 16)
deriving DecidableEq

/-- The last four fields are history: the argument of the last `alarm`, the deciseconds
since, those since the last `pause`, and how often the clock has sent `SIGALRM`. -/
structure Entry [Platform] where
  p_status : Status
  p_alarm : BitVec uargBits
  p_timeout : BitVec 16
  /-- `SIGALRM` is held or ignored. -/
  deaf : Bool
  place : Place
  secs : Nat
  since : Nat
  waited : Nat
  posted : Nat

section
variable [Platform]

def pwake (q : Entry) : Entry := if q.p_status = .sleep then { q with p_status := .ready } else q

/-- `ssig(p, SIGALRM)` -/
def ssig (q : Entry) : Entry :=
  let q := { q with posted := q.posted + 1 }
  if q.deaf then q else pwake q

/-- `_alarm`: the seconds left, and the new entry. -/
def alarm (secs : BitVec uargBits) (q : Entry) : BitVec uargBits × Entry :=
  (q.p_alarm / 10, { q with p_alarm := secs * 10, secs := secs.toNat, since := 0 })

/-- `_pause` up to its `psleep`. -/
def pause (t : BitVec 16) (q : Entry) : Entry :=
  { q with
    p_timeout := if t ≠ 0 then t + 1 else q.p_timeout, place := .armed t, waited := 0 }

/-- `_pause` behind its `psleep`: the error `EINTR`, or none. -/
def interrupted (t : BitVec 16) (q : Entry) : Bool := t = 0 ∨ 1 < q.p_timeout

/-- The end of `unix_syscall`. -/
def leave (q : Entry) : Entry := { q with p_timeout := 0, p_status := .running, place := .user }

/-- What `timer_interrupt` does to an entry of the table. -/
def alarms (q : Entry) : Entry :=
  if q.p_alarm ≠ 0 then
    let q := { q with p_alarm := q.p_alarm - 1 }
    if q.p_alarm = 0 then ssig q else q
  else q

def timeouts (q : Entry) : Entry :=
  if 1 < q.p_timeout then
    let q := { q with p_timeout := q.p_timeout - 1 }
    if q.p_timeout = 1 then pwake q else q
  else q

def timer_interrupt (q : Entry) : Entry :=
  timeouts (alarms { q with since := q.since + 1, waited := q.waited + 1 })

/-! ## Runs -/

abbrev Ptab := Nat → Entry

inductive Action where
  | alarm (p : Nat) (secs : BitVec uargBits)
  | pause (p : Nat) (t : BitVec 16)
  | psleep (p : Nat)
  | resume (p : Nat)
  | signal (p : Nat)
  | setDeaf (p : Nat) (deaf : Bool)
  | tick

def apply (s : Ptab) : Action → Option Ptab
  | .alarm p secs => if (s p).place = .user then some (put s p (alarm secs (s p)).2) else none
  | .pause p t => if (s p).place = .user then some (put s p (pause t (s p))) else none
  | .psleep p => match (s p).place with
    | .armed t => some (put s p { s p with p_status := .sleep, place := .waiting t })
    | _ => none
  | .resume p => match (s p).place with
    | .waiting _ => if (s p).p_status = .ready then some (put s p (leave (s p))) else none
    | _ => none
  | .signal p => some (put s p (pwake (s p)))
  | .setDeaf p deaf => if (s p).place = .user then some (put s p { s p with deaf := deaf }) else none
  | .tick => some (fun p => timer_interrupt (s p))

def boot : Ptab := fun _ => ⟨.running, 0, 0, false, .user, 0, 0, 0, 0⟩

/-! ## What is asked of the clock -/

/-- The deciseconds until the last `alarm` is due, 0 without one. -/
def Entry.left (q : Entry) : Nat := 10 * q.secs - q.since

/-- The next decisecond is the one that the last `alarm` asked for. -/
def Entry.due (q : Entry) : Prop := q.secs ≠ 0 ∧ q.since + 1 = 10 * q.secs

instance (q : Entry) : Decidable q.due := by unfold Entry.due; infer_instance

/-- The clock sends `SIGALRM` when it is due, and wakes the sleeper of a timed `pause` when
its time is over. -/
structure Punctual (q q' : Entry) : Prop where
  posts : q'.posted = q.posted + if q.due then 1 else 0
  wakes : ∀ t, q.place = .waiting t → q.p_status = .sleep →
    (q'.p_status = .ready ↔ (t ≠ 0 ∧ q.waited + 1 = t.toNat) ∨ (q.due ∧ q.deaf = false))
  /-- Nobody sleeps past the end. -/
  ends : ∀ t, q.place = .waiting t → q.p_status = .sleep → t ≠ 0 → q.waited < t.toNat

def Right (s : Ptab) (a : Action) (s' : Ptab) : Prop :=
  match a with
  | .alarm p secs => (alarm secs (s p)).1.toNat = (s p).left / 10
  | .resume p => ∀ t, (s p).place = .waiting t →
      (interrupted t (s p) = false ↔ t ≠ 0 ∧ t.toNat ≤ (s p).waited)
  | .tick => ∀ p, Punctual (s p) (s' p)
  | _ => True

/-- The deciseconds fit the counters, and a timed `pause` is asleep before its time is over. -/
def Clean (s : Ptab) : Action → Prop
  | .alarm _ secs => secs.toNat * 10 < 2 ^ uargBits
  | .pause _ t => t ≠ 65535
  | .psleep p => ∀ t, (s p).place = .armed t → t = 0 ∨ (s p).waited < t.toNat
  | _ => True

/-! ## The counters as numbers -/

theorem wide : 65536 ≤ 2 ^ (uargBits) := by
  have least : 16 ≤ uargBits := by
    rcases Platform.widths with short | long
    · exact Nat.le_of_eq short.symm
    · omega
  have power : 2 ^ 16 ≤ 2 ^ uargBits := Nat.pow_le_pow_right (by decide) least
  exact power

theorem toNat_small {n : Nat} (small : n < 65536) : (BitVec.ofNat uargBits n).toNat = n := by
  have := wide
  rw [BitVec.toNat_ofNat, Nat.mod_eq_of_lt (by omega)]

omit [Platform] in
theorem zero_iff {w : Nat} (x : BitVec w) : x = 0 ↔ x.toNat = 0 := by
  constructor
  · intro zero
    rw [zero]
    exact BitVec.toNat_zero
  · intro zero
    exact BitVec.eq_of_toNat_eq (by rw [zero]; exact BitVec.toNat_zero.symm)

theorem alarm_less {x : BitVec uargBits} (some : x ≠ 0) : (x - 1).toNat = x.toNat - 1 := by
  have positive : x.toNat ≠ 0 := fun zero => some ((zero_iff x).mpr zero)
  have one : (1 : BitVec uargBits).toNat = 1 := toNat_small (by decide)
  have bound := x.isLt
  rw [BitVec.toNat_sub_of_le (by rw [BitVec.le_def, one]; omega), one]

omit [Platform] in
theorem timeout_less {x : BitVec 16} (some : 1 < x) : (x - 1).toNat = x.toNat - 1 := by
  have positive : 1 < x.toNat := some
  have one : (1 : BitVec 16).toNat = 1 := rfl
  rw [BitVec.toNat_sub_of_le (by rw [BitVec.le_def, one]; omega), one]

/-! ## What an interrupt does -/

/-- The process sleeps and is woken if `cause`. -/
def woken (status : Status) (cause : Prop) [Decidable cause] : Status :=
  if status = .sleep ∧ cause then .ready else status

structure Rung (q q' : Entry) : Prop where
  p_alarm : q'.p_alarm.toNat = q.p_alarm.toNat - 1
  posted : q'.posted = q.posted + if q.p_alarm.toNat = 1 then 1 else 0
  p_status : q'.p_status = woken q.p_status (q.p_alarm.toNat = 1 ∧ q.deaf = false)
  p_timeout : q'.p_timeout = q.p_timeout
  place : q'.place = q.place
  secs : q'.secs = q.secs
  since : q'.since = q.since
  waited : q'.waited = q.waited

theorem ssig_rung (q : Entry) (last : q.p_alarm.toNat = 1) : Rung q (ssig { q with p_alarm := 0 }) := by
  have zero : (0 : BitVec uargBits).toNat = q.p_alarm.toNat - 1 := by
    rw [last]
    exact BitVec.toNat_zero
  unfold ssig pwake
  by_cases deaf : q.deaf = true
  · simp only [deaf, if_true]
    constructor <;> simp [woken, deaf, last]
  · by_cases asleep : q.p_status = .sleep
    · simp only [deaf, asleep, if_true]
      constructor <;> simp [woken, deaf, last, asleep]
    · simp only [deaf, asleep, if_false]
      constructor <;> simp [woken, deaf, last, asleep]

theorem alarms_rung (q : Entry) : Rung q (alarms q) := by
  unfold alarms
  by_cases off : q.p_alarm = 0
  · have zero := (zero_iff _).mp off
    rw [if_neg (not_not.mpr off)]
    constructor <;> simp [woken, zero]
  · rw [if_pos off]
    have less := alarm_less off
    by_cases last : q.p_alarm - 1 = 0
    · have zero := (zero_iff _).mp last
      have positive : q.p_alarm.toNat ≠ 0 := fun none => off ((zero_iff _).mpr none)
      simp only [last, if_true]
      exact ssig_rung q (by omega)
    · have more : q.p_alarm.toNat ≠ 1 := by
        intro one
        exact last ((zero_iff _).mpr (by omega))
      rw [if_neg last]
      exact ⟨less, by simp [more], by simp [woken, more], rfl, rfl, rfl, rfl, rfl⟩

structure Expired (q q' : Entry) : Prop where
  p_timeout : q'.p_timeout.toNat = if 1 < q.p_timeout.toNat then q.p_timeout.toNat - 1 else q.p_timeout.toNat
  p_status : q'.p_status = woken q.p_status (q.p_timeout.toNat = 2)
  p_alarm : q'.p_alarm = q.p_alarm
  posted : q'.posted = q.posted
  place : q'.place = q.place
  secs : q'.secs = q.secs
  since : q'.since = q.since
  waited : q'.waited = q.waited

theorem timeouts_expired (q : Entry) : Expired q (timeouts q) := by
  unfold timeouts
  by_cases live : 1 < q.p_timeout
  · have positive : 1 < q.p_timeout.toNat := live
    have less := timeout_less live
    rw [if_pos live]
    by_cases last : q.p_timeout - 1 = 1
    · have two : q.p_timeout.toNat = 2 := by
        have one : (q.p_timeout - 1).toNat = 1 := by rw [last]; rfl
        omega
      unfold pwake
      by_cases asleep : q.p_status = .sleep
      · simp only [last, asleep, if_true]
        constructor <;> simp [woken, two, asleep]
      · simp only [last, asleep, if_true, if_false]
        constructor <;> simp [woken, two, asleep]
    · have more : q.p_timeout.toNat ≠ 2 := by
        intro two
        exact last (BitVec.eq_of_toNat_eq (by rw [less, two]; rfl))
      rw [if_neg last]
      exact ⟨by rw [if_pos positive]; exact less, by simp [woken, more], rfl, rfl, rfl, rfl, rfl, rfl⟩
  · have small : ¬ 1 < q.p_timeout.toNat := live
    have more : q.p_timeout.toNat ≠ 2 := by omega
    rw [if_neg live]
    constructor <;> simp [woken, more, small]

omit [Platform] in
theorem woken_woken (status : Status) (c d : Prop) [Decidable c] [Decidable d] :
    woken (woken status c) d = woken status (c ∨ d) := by
  unfold woken
  by_cases asleep : status = .sleep
  · by_cases first : c
    · simp [asleep, first]
    · simp [asleep, first]
  · simp [asleep]

omit [Platform] in
theorem woken_ready (c : Prop) [Decidable c] : woken .sleep c = .ready ↔ c := by
  unfold woken
  by_cases cause : c <;> simp [cause]

structure Ticked (q q' : Entry) : Prop where
  p_alarm : q'.p_alarm.toNat = q.p_alarm.toNat - 1
  p_timeout : q'.p_timeout.toNat = if 1 < q.p_timeout.toNat then q.p_timeout.toNat - 1 else q.p_timeout.toNat
  p_status : q'.p_status = woken q.p_status
    (q.p_alarm.toNat = 1 ∧ q.deaf = false ∨ q.p_timeout.toNat = 2)
  place : q'.place = q.place
  secs : q'.secs = q.secs
  since : q'.since = q.since + 1
  waited : q'.waited = q.waited + 1
  posted : q'.posted = q.posted + if q.p_alarm.toNat = 1 then 1 else 0

theorem tick_ticked (q : Entry) : Ticked q (timer_interrupt q) := by
  unfold timer_interrupt
  have rung := alarms_rung { q with since := q.since + 1, waited := q.waited + 1 }
  have expired := timeouts_expired (alarms { q with since := q.since + 1, waited := q.waited + 1 })
  constructor
  · rw [expired.p_alarm, rung.p_alarm]
  · rw [expired.p_timeout, rung.p_timeout]
  · rw [expired.p_status, rung.p_status, woken_woken, rung.p_timeout]
  · rw [expired.place, rung.place]
  · rw [expired.secs, rung.secs]
  · rw [expired.since, rung.since]
  · rw [expired.waited, rung.waited]
  · rw [expired.posted, rung.posted]

/-! ## The invariant -/

/-- `p_timeout` in a `pause` of `t` deciseconds, `n` of them gone. -/
def remaining (t : BitVec 16) (n : Nat) : Nat := if t = 0 then 0 else max 1 (t.toNat + 1 - n)

structure Kept (q : Entry) : Prop where
  alarm : q.p_alarm.toNat = q.left
  user : q.place = .user → q.p_timeout = 0
  armed : ∀ t, q.place = .armed t → q.p_timeout.toNat = remaining t q.waited
  waiting : ∀ t, q.place = .waiting t → q.p_timeout.toNat = remaining t q.waited
  asleep : ∀ t, q.place = .waiting t → q.p_status = .sleep → t = 0 ∨ q.waited < t.toNat

theorem due_iff {q : Entry} (kept : Kept q) : q.due ↔ q.p_alarm.toNat = 1 := by
  rw [kept.alarm]
  unfold Entry.due Entry.left
  omega

omit [Platform] in
/-- One decisecond less. -/
theorem remaining_next (t : BitVec 16) (n : Nat) :
    remaining t (n + 1) = if 1 < remaining t n then remaining t n - 1 else remaining t n := by
  unfold remaining
  by_cases none : t = 0
  · simp [none]
  · simp only [none, if_false]
    split <;> omega

omit [Platform] in
theorem remaining_last {t : BitVec 16} {n : Nat} : remaining t n = 2 ↔ t ≠ 0 ∧ n + 1 = t.toNat := by
  unfold remaining
  by_cases none : t = 0
  · simp [none]
  · simp only [none, if_false, ne_eq, not_false_eq_true, true_and]
    omega

theorem tick_kept {q : Entry} (kept : Kept q) : Kept (timer_interrupt q) := by
  have ticked := tick_ticked q
  generalize timer_interrupt q = q' at ticked
  constructor
  · rw [ticked.p_alarm, kept.alarm]
    unfold Entry.left
    rw [ticked.secs, ticked.since]
    omega
  · intro user
    have zero := (zero_iff _).mp (kept.user (ticked.place ▸ user))
    have still := ticked.p_timeout
    rw [zero] at still
    exact (zero_iff _).mpr still
  · intro t armed
    rw [ticked.p_timeout, kept.armed t (ticked.place ▸ armed), ticked.waited, remaining_next]
  · intro t waiting
    rw [ticked.p_timeout, kept.waiting t (ticked.place ▸ waiting), ticked.waited, remaining_next]
  · intro t waiting asleep
    have left := kept.waiting t (ticked.place ▸ waiting)
    have status := ticked.p_status
    rw [asleep] at status
    unfold woken at status
    split at status
    · cases status
    · rename_i unwoken
      have more : ¬ remaining t q.waited = 2 := fun two => unwoken ⟨status.symm, Or.inr (left.trans two)⟩
      have before := kept.asleep t (ticked.place ▸ waiting) status.symm
      rw [remaining_last] at more
      rw [ticked.waited]
      by_cases none : t = 0
      · exact Or.inl none
      · rcases before with zero | inside
        · exact Or.inl zero
        · have last : q.waited + 1 ≠ t.toNat := fun last => more ⟨none, last⟩
          exact Or.inr (by omega)

theorem tick_punctual {q : Entry} (kept : Kept q) : Punctual q (timer_interrupt q) := by
  have ticked := tick_ticked q
  have due := due_iff kept
  constructor
  · rw [ticked.posted]
    simp only [due]
  · intro t waiting asleep
    have left := kept.waiting t waiting
    rw [ticked.p_status, asleep, woken_ready, left, remaining_last, due]
    exact or_comm
  · intro t waiting asleep some
    rcases kept.asleep t waiting asleep with zero | inside
    · exact absurd zero some
    · exact inside

/-! ## The other steps -/

theorem alarm_kept {q : Entry} {secs : BitVec uargBits} (fits : secs.toNat * 10 < 2 ^ uargBits)
    (kept : Kept q) : Kept (alarm secs q).2 := by
  have ten : (10 : BitVec uargBits).toNat = 10 := toNat_small (by decide)
  constructor
  · unfold alarm Entry.left
    simp only [BitVec.toNat_mul, ten]
    rw [Nat.mod_eq_of_lt fits]
    omega
  · exact kept.user
  · exact kept.armed
  · exact kept.waiting
  · exact kept.asleep

theorem pause_kept {q : Entry} {t : BitVec 16} (fits : t ≠ 65535) (user : q.place = .user)
    (kept : Kept q) : Kept (pause t q) := by
  have zero := kept.user user
  constructor
  · exact kept.alarm
  · intro other
    cases other
  · intro t' armed
    injection armed with same
    subst same
    unfold pause remaining
    by_cases none : t = 0
    · simp [none, zero]
    · have less : t.toNat ≠ 65535 := fun all => fits (BitVec.eq_of_toNat_eq all)
      have bound := t.isLt
      have one : (1 : BitVec 16).toNat = 1 := rfl
      simp only [none, ne_eq, not_false_eq_true, if_true, if_false, BitVec.toNat_add, one]
      omega
  · intro t' waiting
    cases waiting
  · intro t' waiting
    cases waiting

theorem psleep_kept {q : Entry} {t : BitVec 16} (early : t = 0 ∨ q.waited < t.toNat)
    (armed : q.place = .armed t) (kept : Kept q) :
    Kept { q with p_status := .sleep, place := .waiting t } := by
  constructor
  · exact kept.alarm
  · intro user
    cases user
  · intro t' other
    cases other
  · intro t' waiting
    injection waiting with same
    subst same
    exact kept.armed t armed
  · intro t' waiting asleep
    injection waiting with same
    subst same
    exact early

theorem leave_kept {q : Entry} (kept : Kept q) : Kept (leave q) := by
  constructor
  · exact kept.alarm
  · intro user
    rfl
  · intro t armed
    cases armed
  · intro t waiting
    cases waiting
  · intro t waiting
    cases waiting

theorem pwake_kept {q : Entry} (kept : Kept q) : Kept (pwake q) := by
  unfold pwake
  split
  · exact ⟨kept.alarm, kept.user, kept.armed, kept.waiting, fun _ _ asleep => by cases asleep⟩
  · exact kept

theorem apply_kept {s s' : Ptab} {a : Action} (clean : Clean s a) (done : apply s a = some s')
    (kept : ∀ p, Kept (s p)) : ∀ p, Kept (s' p) := by
  have single : ∀ {p : Nat} {q : Entry}, Kept q → put s p q = s' → ∀ p, Kept (s' p) := by
    intro p q own same r
    subst same
    by_cases here : r = p
    · subst here
      rw [put_same]
      exact own
    · rw [put_ne _ _ here]
      exact kept r
  cases a with
  | alarm p secs =>
    simp only [apply, Option.ite_none_right_eq_some, Option.some.injEq] at done
    exact single (alarm_kept clean (kept p)) done.2
  | pause p t =>
    simp only [apply, Option.ite_none_right_eq_some, Option.some.injEq] at done
    exact single (pause_kept clean done.1 (kept p)) done.2
  | psleep p =>
    simp only [apply] at done
    split at done
    · rename_i t armed
      injection done with done
      exact single (psleep_kept (clean t armed) armed (kept p)) done
    · cases done
  | resume p =>
    simp only [apply] at done
    split at done
    · simp only [Option.ite_none_right_eq_some, Option.some.injEq] at done
      exact single (leave_kept (kept p)) done.2
    · cases done
  | signal p =>
    injection done with done
    exact single (pwake_kept (kept p)) done
  | setDeaf p deaf =>
    simp only [apply, Option.ite_none_right_eq_some, Option.some.injEq] at done
    have own := kept p
    exact single (q := { s p with deaf := deaf })
      ⟨own.alarm, own.user, own.armed, own.waiting, own.asleep⟩ done.2
  | tick =>
    injection done with done
    subst done
    exact fun p => tick_kept (kept p)

/-- `pause` fails unless its time is over. -/
theorem resume_answer {q : Entry} {t : BitVec 16} (kept : Kept q) (waiting : q.place = .waiting t) :
    interrupted t q = false ↔ t ≠ 0 ∧ t.toNat ≤ q.waited := by
  have left := kept.waiting t waiting
  have one : (1 : BitVec 16).toNat = 1 := rfl
  unfold interrupted
  simp only [decide_eq_false_iff_not, not_or, BitVec.lt_def, one, left]
  unfold remaining
  by_cases none : t = 0
  · simp [none]
  · simp only [none, if_false, not_false_eq_true, true_and, ne_eq]
    omega

theorem apply_right {s s' : Ptab} {a : Action} (done : apply s a = some s')
    (kept : ∀ p, Kept (s p)) : Right s a s' := by
  have ten : (10 : BitVec uargBits).toNat = 10 := toNat_small (by decide)
  cases a with
  | alarm p secs =>
    unfold Right alarm
    simp only [BitVec.toNat_udiv, ten, (kept p).alarm]
  | resume p => exact fun t waiting => resume_answer (kept p) waiting
  | tick =>
    injection done with done
    subst done
    exact fun p => tick_punctual (kept p)
  | pause | psleep | signal | setDeaf => exact True.intro

theorem boot_kept (p : Nat) : Kept (boot p) := by
  constructor
  · exact BitVec.toNat_zero
  · exact fun _ => rfl
  · exact fun _ armed => by cases armed
  · exact fun _ waiting => by cases waiting
  · exact fun _ waiting => by cases waiting

/-- Alarms and timed pauses are punctual in every run of clean steps. -/
theorem alarms_punctual {as : List Action} {s s' : Ptab} {a : Action}
    (run : Run.Steps (fun s a s' => Clean s a ∧ apply s a = some s') boot as s)
    (done : apply s a = some s') : Right s a s' := by
  have kept : ∀ p, Kept (s p) :=
    run.keeps (I := fun s : Ptab => ∀ p, Kept (s p))
      (fun _ _ _ kept step => apply_kept step.1 step.2 kept) boot_kept
  exact apply_right done kept

/-! ## Nothing less is enough -/

/-- The entry after `n` deciseconds. -/
def ticks : Nat → Entry → Entry
  | 0, q => q
  | n + 1, q => timer_interrupt (ticks n q)

theorem ticks_kept {q : Entry} (kept : Kept q) (n : Nat) : Kept (ticks n q) := by
  induction n with
  | zero => exact kept
  | succ n ih => exact tick_kept ih

theorem ticks_alarm (q : Entry) (n : Nat) :
    (ticks n q).p_alarm.toNat = q.p_alarm.toNat - n ∧ (ticks n q).secs = q.secs ∧
      (ticks n q).since = q.since + n := by
  induction n with
  | zero => exact ⟨rfl, rfl, rfl⟩
  | succ n ih =>
    have ticked := tick_ticked (ticks n q)
    obtain ⟨alarm, secs, since⟩ := ih
    refine ⟨?_, ticked.secs.trans secs, ?_⟩
    · exact ticked.p_alarm.trans (by omega)
    · exact ticked.since.trans (by omega)

theorem ticks_waited (q : Entry) (n : Nat) :
    (ticks n q).waited = q.waited + n ∧ (ticks n q).place = q.place := by
  induction n with
  | zero => exact ⟨rfl, rfl⟩
  | succ n ih =>
    have ticked := tick_ticked (ticks n q)
    exact ⟨ticked.waited.trans (by omega), ticked.place.trans ih.2⟩

/-- With no alarm and no count nobody is woken. -/
theorem ticks_asleep {q : Entry} (n : Nat) (alarm : q.p_alarm.toNat = 0) (timeout : q.p_timeout.toNat = 0) :
    (ticks n q).p_timeout.toNat = 0 ∧ (ticks n q).p_status = q.p_status := by
  induction n with
  | zero => exact ⟨timeout, rfl⟩
  | succ n ih =>
    have ticked := tick_ticked (ticks n q)
    obtain ⟨still, status⟩ := ih
    have off : (ticks n q).p_alarm.toNat = 0 := by
      have := (ticks_alarm q n).1
      omega
    have timeout := ticked.p_timeout
    have woke := ticked.p_status
    rw [still] at timeout
    simp only [off, still] at woke
    exact ⟨timeout, woke.trans (by simp [woken, status])⟩

/-- An `alarm` is punctual for ever just when its deciseconds fit the counter. -/
theorem alarm_exact {q : Entry} (kept : Kept q) (secs : BitVec uargBits) :
    (∀ n, Punctual (ticks n (alarm secs q).2) (ticks (n + 1) (alarm secs q).2)) ↔
      secs.toNat * 10 < 2 ^ uargBits := by
  constructor
  · intro punctual
    by_cases fits : secs.toNat * 10 < 2 ^ uargBits
    · exact fits
    · have bound := (alarm secs q).2.p_alarm.isLt
      have wide := wide
      have last := punctual (10 * secs.toNat - 1)
      obtain ⟨left, request, since⟩ := ticks_alarm (alarm secs q).2 (10 * secs.toNat - 1)
      have asked : (alarm secs q).2.secs = secs.toNat := rfl
      have begun : (alarm secs q).2.since = 0 := rfl
      have due : (ticks (10 * secs.toNat - 1) (alarm secs q).2).due := by
        unfold Entry.due
        omega
      have posts := last.posts
      have sent := (tick_ticked (ticks (10 * secs.toNat - 1) (alarm secs q).2)).posted
      rw [if_pos due] at posts
      have quiet : ¬ (ticks (10 * secs.toNat - 1) (alarm secs q).2).p_alarm.toNat = 1 := by omega
      rw [if_neg quiet] at sent
      exact absurd (posts.symm.trans sent) (by omega)
  · intro fits n
    exact tick_punctual (ticks_kept (alarm_kept fits kept) n)

/-- The entry that goes to sleep in `pause` after `g` deciseconds. -/
def paused (t : BitVec 16) (g : Nat) (q : Entry) : Entry :=
  { ticks g (pause t q) with p_status := .sleep, place := .waiting t }

/-- Without an alarm a `pause` is punctual for ever just when its end fits the counter and
does not come before the sleep. -/
theorem pause_exact {q : Entry} (kept : Kept q) (user : q.place = .user) (none : q.p_alarm = 0)
    (t : BitVec 16) (g : Nat) :
    (∀ n, Punctual (ticks n (paused t g q)) (ticks (n + 1) (paused t g q))) ↔
      (t ≠ 0 → t ≠ 65535 ∧ g < t.toNat) := by
  have gone : (ticks g (pause t q)).waited = g := (ticks_waited _ g).1.trans (Nat.zero_add g)
  have silent : (pause t q).p_alarm.toNat = 0 := (zero_iff _).mp none
  constructor
  · intro punctual some
    have early : g < t.toNat := by
      have := (punctual 0).ends t rfl rfl some
      exact gone ▸ this
    refine ⟨?_, early⟩
    intro all
    have wraps : (pause t q).p_timeout.toNat = 0 := by
      rw [all]
      rfl
    have armed := (ticks_asleep g silent wraps).1
    have off : (paused t g q).p_alarm.toNat = 0 := by
      have := (ticks_alarm (pause t q) g).1
      exact this.trans (by omega)
    -- nothing takes the process out of its sleep
    have asleep := (ticks_asleep (q := paused t g q) t.toNat off armed).2
    obtain ⟨waited, place⟩ := ticks_waited (paused t g q) t.toNat
    have ends := (punctual t.toNat).ends t place asleep some
    omega
  · intro early n
    have fits : t ≠ 65535 := by
      by_cases zero : t = 0
      · rw [zero]
        decide
      · exact (early zero).1
    have armed : (ticks g (pause t q)).place = .armed t := (ticks_waited _ g).2
    have inside : t = 0 ∨ (ticks g (pause t q)).waited < t.toNat := by
      by_cases zero : t = 0
      · exact Or.inl zero
      · exact Or.inr (gone.symm ▸ (early zero).2)
    exact tick_punctual (ticks_kept (psleep_kept inside armed (ticks_kept (pause_kept fits user kept) g)) n)

end

/-- Words of 16 bits. -/
instance short : Platform := ⟨16, Or.inl rfl⟩

theorem alarm_exact_long : ¬ ∀ n, Punctual (ticks n (alarm (6554 : BitVec 16) (boot 0)).2)
    (ticks (n + 1) (alarm (6554 : BitVec 16) (boot 0)).2) :=
  fun punctual => absurd ((alarm_exact (boot_kept 0) 6554).mp punctual) (by decide)

theorem pause_exact_late : ¬ ∀ n, Punctual (ticks n (paused 3 3 (boot 0))) (ticks (n + 1) (paused 3 3 (boot 0))) :=
  fun punctual => absurd ((pause_exact (boot_kept 0) rfl rfl 3 3).mp punctual) (by decide)

/-- A process with an alarm in a second is back from a `pause` of 3 deciseconds, before the
alarm. -/
theorem alarms_punctual_short : ∃ s s' : Ptab, apply s (.resume 0) = some s' ∧
    Right s (.resume 0) s' ∧ (s 0).place = .waiting 3 ∧ (s 0).waited = 3 := by
  have early : Clean (put (put boot 0 (alarm 1 (boot 0)).2) 0
      (pause 3 ((put boot 0 (alarm 1 (boot 0)).2) 0))) (.psleep 0) := by
    intro t armed
    injection armed with same
    subst same
    decide
  have run : Run.Steps (fun s a s' => Clean s a ∧ apply s a = some s') boot
      [.alarm 0 1, .pause 0 3, .psleep 0, .tick, .tick, .tick] _ :=
    .cons ⟨show (1 : BitVec 16).toNat * 10 < 2 ^ 16 by decide, rfl⟩
      (.cons ⟨show (3 : BitVec 16) ≠ 65535 by decide, rfl⟩ (.cons ⟨early, rfl⟩
        (.cons ⟨True.intro, rfl⟩ (.cons ⟨True.intro, rfl⟩ (.cons ⟨True.intro, rfl⟩ (.nil _))))))
  exact ⟨_, _, rfl, alarms_punctual run rfl, rfl, rfl⟩

/-- `alarm(6554)` goes off after 4 deciseconds. -/
theorem long_alarm_early : ¬ ∀ [Platform] (as : List Action) (s s' : Ptab) (a : Action),
    Run.Steps (fun s a s' => apply s a = some s') boot as s → apply s a = some s' → Right s a s' := by
  intro always
  have right := @always short [.alarm 0 6554, .tick, .tick, .tick] _ _ .tick
    (.cons rfl (.cons rfl (.cons rfl (.cons rfl (.nil _))))) rfl
  have posts := (right 0).posts
  revert posts
  decide

end Alarm
