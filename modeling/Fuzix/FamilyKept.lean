import Fuzix.Family
import Fuzix.Lib.Total

/-!
# What the calls keep of a process

Signals, wakeups, the clock and the calls other than fork, exit and wait leave the
number, the parent, the exit value and the page of every process alone, and whether it
is alive.
-/

set_option linter.unusedSectionVars false

namespace Family

open Table
open Sched (Status NSIGS SIGHUP SIGKILL SIGCHLD SIGCONT SIGSTOP SIGTSTP SIGTTIN SIGTTOU stopper)

def live (status : Status) : Prop := status ≠ .empty ∧ status ≠ .zombie

instance (status : Status) : Decidable (live status) := by unfold live; infer_instance

/-- The same process, alive or dead as before. -/
structure Same (q q' : Entry) : Prop where
  pid : q'.pid = q.pid
  pptr : q'.pptr = q.pptr
  exitval : q'.exitval = q.exitval
  page : q'.page = q.page
  status : q'.status = q.status ∨ live q.status ∧ live q'.status

variable {q q' q'' : Entry}

theorem Same.refl (q : Entry) : Same q q := ⟨rfl, rfl, rfl, rfl, Or.inl rfl⟩

theorem Same.live_iff (same : Same q q') : live q'.status ↔ live q.status := by
  rcases same.status with equal | ⟨before, after⟩
  · rw [equal]
  · exact ⟨fun _ => before, fun _ => after⟩

theorem Same.zombie_iff (same : Same q q') : q'.status = .zombie ↔ q.status = .zombie := by
  rcases same.status with equal | ⟨before, after⟩
  · rw [equal]
  · exact ⟨fun zombie => absurd zombie after.2, fun zombie => absurd zombie before.2⟩

theorem Same.empty_iff (same : Same q q') : q'.status = .empty ↔ q.status = .empty := by
  rcases same.status with equal | ⟨before, after⟩
  · rw [equal]
  · exact ⟨fun empty => absurd empty after.1, fun empty => absurd empty before.1⟩

variable [Machine]

/-! ## Longs in the area -/

section Longs
variable (area : Nat → Half) (k j : Nat) (w : Word)

theorem low_append (a b : Half) : low (a ++ b) = b := BitVec.extractLsb'_append_eq_right

theorem high_append (a b : Half) : high (a ++ b) = a := BitVec.extractLsb'_append_eq_left

theorem append_high_low : (high w ++ low w : BitVec (16 + 16)) = w := by
  have whole : (high w ++ low w : BitVec (16 + 16)) = w.extractLsb' 0 (16 + 16) :=
    BitVec.extractLsb'_append_extractLsb'_eq_extractLsb' rfl
  exact whole.trans BitVec.extractLsb'_eq_self

theorem long_setLong : long (setLong area k w) k = w := by
  unfold long setLong
  have apart : k ≠ k + 1 := by omega
  split
  · rw [put_same, put_ne _ _ apart, put_same]
    exact append_high_low w
  · rw [put_same, put_ne _ _ apart, put_same]
    exact append_high_low w

variable {k j}

theorem setLong_ne {n : Nat} (first : n ≠ k) (second : n ≠ k + 1) : setLong area k w n = area n := by
  unfold setLong
  split
  · rw [put_ne _ _ second, put_ne _ _ first]
  · rw [put_ne _ _ second, put_ne _ _ first]

theorem long_setLong_apart (apart : k + 1 < j ∨ j + 1 < k) :
    long (setLong area k w) j = long area j := by
  unfold long
  rw [setLong_ne area w (by omega) (by omega), setLong_ne area w (by omega) (by omega)]

theorem setLong_long : setLong area k (long area k) = area := by
  funext n
  by_cases first : n = k
  · subst first
    have apart : n ≠ n + 1 := by omega
    unfold setLong long
    split
    · rw [put_ne _ _ apart, put_same]
      exact low_append _ _
    · rw [put_ne _ _ apart, put_same]
      exact high_append _ _
  · by_cases second : n = k + 1
    · subst second
      unfold setLong long
      split
      · rw [put_same]
        exact high_append _ _
      · rw [put_same]
        exact low_append _ _
    · exact setLong_ne _ _ first second

end Longs

theorem setPending_ignored (w : Word) : (q.setPending w).ignored = q.ignored :=
  long_setLong_apart _ _ (by omega)

theorem setPending_self : q.setPending q.pending = q := by
  unfold Entry.setPending Entry.pending
  rw [setLong_long]

/-- The times that are stored are read again. -/
theorem setTimes_read (utime stime : Word) :
    (q.setTimes utime stime).utime = utime ∧ (q.setTimes utime stime).stime = stime := by
  constructor
  · unfold Entry.setTimes Entry.utime
    rw [long_setLong_apart _ _ (by omega), long_setLong]
  · exact long_setLong _ _ _

/-! ## Signals -/

/-- What a signal may do to a process: it wakes up, and the pending signals change. -/
structure Posted (q q' : Entry) : Prop where
  pid : q'.pid = q.pid
  pptr : q'.pptr = q.pptr
  exitval : q'.exitval = q.exitval
  page : q'.page = q.page
  pgrp : q'.pgrp = q.pgrp
  ignored : q'.ignored = q.ignored
  wait : q'.wait = q.wait ∨ q'.wait = 0
  status : q'.status = q.status ∨
    (q.status = .sleep ∨ q.status = .stopped) ∧ q'.status = .ready

theorem Posted.refl (q : Entry) : Posted q q :=
  ⟨rfl, rfl, rfl, rfl, rfl, rfl, Or.inl rfl, Or.inl rfl⟩

theorem Posted.trans (first : Posted q q') (second : Posted q' q'') : Posted q q'' := by
  constructor
  · exact second.pid.trans first.pid
  · exact second.pptr.trans first.pptr
  · exact second.exitval.trans first.exitval
  · exact second.page.trans first.page
  · exact second.pgrp.trans first.pgrp
  · exact second.ignored.trans first.ignored
  · rcases second.wait with same | cleared
    · rw [same]
      exact first.wait
    · exact Or.inr cleared
  · rcases second.status with same | ⟨before, after⟩
    · rw [same]
      exact first.status
    · rcases first.status with same | ⟨before', _⟩
      · exact Or.inr ⟨same ▸ before, after⟩
      · exact Or.inr ⟨before', after⟩

theorem Posted.same (posted : Posted q q') : Same q q' := by
  refine ⟨posted.pid, posted.pptr, posted.exitval, posted.page, ?_⟩
  rcases posted.status with same | ⟨before, after⟩
  · exact Or.inl same
  · right
    rw [after]
    rcases before with before | before
    · rw [before]; decide
    · rw [before]; decide

theorem posted_pending (w : Word) : Posted q (q.setPending w) :=
  ⟨rfl, rfl, rfl, rfl, rfl, setPending_ignored w, Or.inl rfl, Or.inl rfl⟩

theorem posted_cont : Posted q (cont q) := by
  unfold cont
  by_cases stopped : q.status = .stopped
  · rw [if_pos stopped]
    have ready : Posted q { q with status := .ready, event := 0 } :=
      ⟨rfl, rfl, rfl, rfl, rfl, rfl, Or.inl rfl, Or.inr ⟨Or.inr stopped, rfl⟩⟩
    exact ready.trans (posted_pending _)
  · rw [if_neg stopped]
    exact posted_pending _

theorem posted_rouse : Posted q (rouse q) := by
  refine ⟨rfl, rfl, rfl, rfl, rfl, rfl, Or.inr rfl, ?_⟩
  by_cases asleep : q.status = .sleep
  · exact Or.inr ⟨Or.inl asleep, if_pos asleep⟩
  · exact Or.inl (if_neg asleep)

theorem posted_if {c : Prop} [Decidable c] {f : Entry → Entry} (then' : Posted q (f q)) :
    Posted q (if c then f q else q) := by
  split
  · exact then'
  · exact Posted.refl q

theorem posted_ssig (sig : Nat) : Posted q (ssig sig q) := by
  unfold ssig
  by_cases empty : q.status = .empty
  · rw [if_pos empty]
    exact Posted.refl q
  · rw [if_neg empty]
    dsimp only
    have first : Posted q (if sig = SIGCONT then cont q else q) := posted_if posted_cont
    generalize (if sig = SIGCONT then cont q else q) = r at *
    have second : Posted r (if SIGSTOP ≤ sig ∧ sig ≤ SIGTTOU
        then r.setPending (r.pending &&& ~~~ sigmask SIGCONT) else r) := by
      split
      · exact posted_pending _
      · exact Posted.refl r
    have both := first.trans second
    generalize (if SIGSTOP ≤ sig ∧ sig ≤ SIGTTOU
      then r.setPending (r.pending &&& ~~~ sigmask SIGCONT) else r) = m at *
    split
    · exact both
    · have third : Posted m (if has m.held sig then m else rouse m) := by
        split
        · exact Posted.refl m
        · exact posted_rouse
      exact (both.trans third).trans (posted_pending _)

theorem posted_pwake : Posted q (pwake q) := by
  unfold pwake
  split
  · rename_i asleep
    exact ⟨rfl, rfl, rfl, rfl, rfl, rfl, Or.inr rfl, Or.inr ⟨Or.inl asleep, rfl⟩⟩
  · rename_i ready
    exact ⟨rfl, rfl, rfl, rfl, rfl, rfl, Or.inr rfl, Or.inl rfl⟩
  · exact Posted.refl q

theorem posted_alarms : Posted q (alarms q) := by
  unfold alarms
  split
  · exact Posted.refl q
  · split
    · have off : Posted q { q with alarm := 0 } :=
        ⟨rfl, rfl, rfl, rfl, rfl, rfl, Or.inl rfl, Or.inl rfl⟩
      exact off.trans (posted_ssig _)
    · exact ⟨rfl, rfl, rfl, rfl, rfl, rfl, Or.inl rfl, Or.inl rfl⟩

theorem posted_timeouts : Posted q (timeouts q) := by
  unfold timeouts
  have less : Posted q { q with timeout := q.timeout - 1 } :=
    ⟨rfl, rfl, rfl, rfl, rfl, rfl, Or.inl rfl, Or.inl rfl⟩
  split
  · dsimp only
    split
    · exact less.trans posted_pwake
    · exact less
  · exact Posted.refl q

theorem posted_each {s : State} {f : Nat → Entry → Entry} (each : ∀ p q, Posted q (f p q)) (p : Nat) :
    Posted (s.ptab p) ((eachProc f s).ptab p) := by
  unfold eachProc
  dsimp only
  split
  · exact each p _
  · exact Posted.refl _

theorem posted_wakeup {s : State} (event p : Nat) :
    Posted (s.ptab p) ((wakeup event s).ptab p) :=
  posted_each (fun _ _ => posted_if posted_pwake) p

theorem posted_sgrpsig {s : State} (pgrp sig p : Nat) :
    Posted (s.ptab p) ((sgrpsig pgrp sig s).ptab p) :=
  posted_each (fun _ _ => posted_if (posted_ssig sig)) p

theorem posted_kill {s : State} (pid : Int) (sig : Nat) (allowed : Nat → Bool) (p : Nat) :
    Posted (s.ptab p) ((kill pid sig allowed s).ptab p) := by
  unfold kill
  split
  · exact Posted.refl _
  · exact posted_each (fun _ _ => posted_if (posted_ssig sig)) p

end Family
