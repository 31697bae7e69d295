import Fuzix.FamilyRuns

/-!
# What the parent is told

A process that exits leaves a report: its number, its exit value and its times. The
times lie on top of the pending signals of the dead process, and a signal that is still
sent to it changes them. Over every run in which no such signal changes a bit, the
reports that were left are those that `_waitpid` has returned, those that no one wanted,
and those of the zombies.
-/

set_option linter.unusedSectionVars false

namespace Family

open Table
open Sched (Status NSIGS SIGHUP SIGKILL SIGCHLD SIGCONT SIGSTOP SIGTSTP SIGTTIN SIGTTOU stopper)

structure Report where
  pid : Nat
  val : Half
  utime : Word
  stime : Word
deriving DecidableEq

section Steps
variable [Machine] {s t : State} {p n : Nat} {q : Entry}

/-! ## Signals that change nothing -/

/-- The signal finds its bit set already, or it is ignored, and it clears no bit. -/
def Silent (q : Entry) (sig : Nat) : Prop :=
  (sig = SIGCONT → q.pending &&& stops = 0) ∧
    (SIGSTOP ≤ sig ∧ sig ≤ SIGTTOU → ¬ has q.pending SIGCONT) ∧
    (has q.ignored sig ∨ has q.pending sig)

instance (q : Entry) (sig : Nat) : Decidable (Silent q sig) := by unfold Silent; infer_instance

theorem and_compl {w m : Word} (apart : w &&& m = 0) : w &&& ~~~ m = w := by
  apply BitVec.eq_of_getLsbD_eq
  intro i bound
  have zero : (w &&& m).getLsbD i = false := by
    rw [apart]
    exact BitVec.getLsbD_zero
  rw [BitVec.getLsbD_and] at zero
  rw [BitVec.getLsbD_and, BitVec.getLsbD_not]
  cases here : w.getLsbD i with
  | false => rfl
  | true =>
    rw [here, Bool.true_and] at zero
    rw [zero, decide_eq_true bound]
    rfl

theorem or_sigmask {w : Word} {sig : Nat} (set : has w sig) : w ||| sigmask sig = w := by
  have single : w &&& sigmask sig = if w.getLsbD sig then sigmask sig else 0 := by
    unfold sigmask
    rw [← BitVec.twoPow_eq]
    exact BitVec.and_twoPow _ _
  have bit : w.getLsbD sig = true := by
    by_contra clear
    unfold has at set
    rw [single, if_neg clear] at set
    exact set rfl
  rw [if_pos bit] at single
  apply BitVec.eq_of_getLsbD_eq
  intro i _
  have part := congrArg (fun v => v.getLsbD i) single
  simp only [BitVec.getLsbD_and] at part
  rw [BitVec.getLsbD_or]
  cases mask : (sigmask sig).getLsbD i with
  | false => rw [Bool.or_false]
  | true =>
    rw [mask, Bool.and_true] at part
    rw [part, Bool.true_or]

theorem setPending_area {w : Word} (same : w = q.pending) : (q.setPending w).area = q.area := by
  rw [same]
  exact congrArg Entry.area setPending_self

theorem pending_congr {r : Entry} (same : r.area = q.area) : r.pending = q.pending := by
  unfold Entry.pending
  rw [same]

theorem ignored_congr {r : Entry} (same : r.area = q.area) : r.ignored = q.ignored := by
  unfold Entry.ignored
  rw [same]

theorem cont_area (clear : q.pending &&& stops = 0) : (cont q).area = q.area := by
  unfold cont
  split
  · exact setPending_area (and_compl clear)
  · exact setPending_area (and_compl clear)

theorem rouse_area : (rouse q).area = q.area := rfl

/-- A silent signal leaves the end of the entry as it is. -/
theorem ssig_area {sig : Nat} (silent : Silent q sig) : (ssig sig q).area = q.area := by
  obtain ⟨cont', stop', post'⟩ := silent
  unfold ssig
  split
  · rfl
  · dsimp only
    have first : (if sig = SIGCONT then cont q else q).area = q.area := by
      split
      · rename_i continues
        exact cont_area (cont' continues)
      · rfl
    generalize (if sig = SIGCONT then cont q else q) = r at *
    have second : (if SIGSTOP ≤ sig ∧ sig ≤ SIGTTOU
        then r.setPending (r.pending &&& ~~~ sigmask SIGCONT) else r).area = q.area := by
      split
      · rename_i stops
        have clear := stop' stops
        unfold has at clear
        rw [not_not, ← pending_congr first] at clear
        rw [setPending_area (and_compl clear), first]
      · exact first
    generalize (if SIGSTOP ≤ sig ∧ sig ≤ SIGTTOU
      then r.setPending (r.pending &&& ~~~ sigmask SIGCONT) else r) = m at *
    split
    · exact second
    · rename_i taken
      rw [ignored_congr second] at taken
      have set : has q.pending sig := post'.resolve_left taken
      have third : (if has m.held sig then m else rouse m).area = q.area := by
        split
        · exact second
        · exact rouse_area.trans second
      generalize (if has m.held sig then m else rouse m) = k at *
      rw [← pending_congr third] at set
      rw [setPending_area (or_sigmask set), third]

theorem pwake_area : (pwake q).area = q.area := by
  unfold pwake
  split
  · rfl
  · rfl
  · rfl

theorem timeouts_area : (timeouts q).area = q.area := by
  unfold timeouts
  split
  · dsimp only
    split
    · exact pwake_area
    · rfl
  · rfl

/-! ## Reports -/

def report (q : Entry) : Report := ⟨q.pid, q.exitval, q.utime, q.stime⟩

/-- The times of the process are in its entry already. -/
def done (s : State) (p : Nat) : Prop := (s.ptab p).status = .zombie ∨ s.exiting = true ∧ p = s.cur

instance (s : State) (p : Nat) : Decidable (done s p) := by unfold done; infer_instance

def reports (s : State) (p : Nat) : List Report := if done s p then [report (s.ptab p)] else []

theorem reports_dead (dead : done s p) : reports s p = [report (s.ptab p)] := if_pos dead

theorem reports_none (alive : ¬ done s p) : reports s p = [] := if_neg alive

/-- The reports that no one has taken yet. -/
def waiting (s : State) : List Report := (List.range PTABSIZE).flatMap (reports s)

/-- The report of an exit: the times of the process and of the children it waited for. -/
def exited (s : State) : Action → List Report
  | .exit val => [⟨s.me.pid, val, (s.udata s.cur).utime + (s.udata s.cur).cutime,
      (s.udata s.cur).stime + (s.udata s.cur).cstime⟩]
  | _ => []

def answer (s : State) : Action → Option Answer
  | .waitpid pid nohang untraced => some (waitpid pid nohang untraced s).2
  | .waitAgain pid nohang untraced => some (waitRound pid nohang untraced s).2
  | _ => none

/-- What the caller of `_waitpid` gets, and what is added to its times. -/
def returned (s : State) (a : Action) (t : State) : List Report :=
  match answer s a with
  | some (.child pid status) => [⟨pid, status, (t.udata s.cur).cutime - (s.udata s.cur).cutime,
      (t.udata s.cur).cstime - (s.udata s.cur).cstime⟩]
  | _ => []

/-- The report is for a parent that ignores `SIGCHLD`: nobody will wait. -/
def unwanted (s : State) : Action → Nat → Prop
  | .exit _, p => (s.ptab p).status = .zombie ∧ (s.ptab p).pptr = s.cur ∧ initIgnores s
  | .gone, p => p = s.cur ∧ has (s.ptab s.me.pptr).ignored SIGCHLD
  | _, _ => False

instance (s : State) (a : Action) (p : Nat) : Decidable (unwanted s a p) :=
  a.casesOn (motive := fun a => Decidable (unwanted s a p)) (fun _ => instDecidableFalse)
    (fun _ => instDecidableFalse) (fun _ => instDecidableAnd) instDecidableAnd
    (fun _ _ _ => instDecidableFalse) (fun _ _ _ => instDecidableFalse) (fun _ _ _ => instDecidableFalse)
    (fun _ _ => instDecidableFalse) (fun _ => instDecidableFalse) (fun _ => instDecidableFalse)
    (fun _ => instDecidableFalse)

def dropped (s : State) (a : Action) (p : Nat) : List Report :=
  if unwanted s a p then [report (s.ptab p)] else []

/-- The signals that a step sends to entry `p`. -/
def sent (s : State) : Action → Nat → List Nat
  | .kill pid sig allowed, p => if sig ≠ 0 ∧ p ∈ targets s pid allowed then [sig] else []
  | .sgrpsig pgrp sig, p => if pgrp ≠ 0 ∧ (s.ptab p).pgrp = pgrp then [sig] else []
  | .timer _, p =>
    if s.ticks_this_dsecond + 1 = ticks_per_dsecond ∧ (s.ptab p).alarm = 1 then [SIGALRM] else []
  | .exit _, p =>
    if (s.ptab p).pgrp = s.me.pid ∧ ¬ ((s.ptab p).pptr = s.cur ∧ initIgnores s)
    then [SIGHUP, SIGCONT] else []
  | _, _ => []

/-- No signal changes a bit of a process that is dead or dying. -/
def calm (s : State) (a : Action) : Prop :=
  ∀ p < PTABSIZE, done s p → ∀ sig ∈ sent s a p, Silent (s.ptab p) sig

instance (s : State) (a : Action) : Decidable (calm s a) := by unfold calm; infer_instance

/-- No process is its own parent but init, and no parent is dead. -/
structure Kin (s : State) : Prop extends Seated s where
  proper : ∀ p < PTABSIZE, p ≠ 0 → (s.ptab p).status ≠ .empty → (s.ptab p).pptr ≠ p
  parent : ∀ p < PTABSIZE, (s.ptab p).status ≠ .empty → ¬ done s (s.ptab p).pptr

/-! ## Quiet steps -/

theorem Quiet.done_iff (quiet : Quiet s t) (p : Nat) : done t p ↔ done s p := by
  have zombie : (t.ptab p).status = .zombie ↔ (s.ptab p).status = .zombie := by
    by_cases empty : (s.ptab p).status = .empty
    · rw [quiet.empty p empty, empty]
    · exact (quiet.same p empty).zombie_iff
  unfold done
  rw [zombie, quiet.exiting]
  constructor
  · rintro (dead | ⟨exiting, same⟩)
    · exact Or.inl dead
    · exact Or.inr ⟨exiting, same.trans (quiet.cur exiting)⟩
  · rintro (dead | ⟨exiting, same⟩)
    · exact Or.inl dead
    · exact Or.inr ⟨exiting, same.trans (quiet.cur exiting).symm⟩

theorem done_filled (seated : Seated s) (dead : done s p) : (s.ptab p).status ≠ .empty := by
  rcases dead with zombie | ⟨exiting, same⟩
  · rw [zombie]
    decide
  · have running : (s.ptab s.cur).status = .running := (seated.exiting exiting).1
    rw [same, running]
    decide

/-- The end of every dead entry is as it was. -/
def Still (s t : State) : Prop := ∀ p < PTABSIZE, done s p → (t.ptab p).area = (s.ptab p).area

theorem Quiet.reports (seated : Seated s) (quiet : Quiet s t) (still : Still s t)
    (bound : p < PTABSIZE) : reports t p = reports s p := by
  unfold Family.reports
  by_cases dead : done s p
  · have same := quiet.same p (done_filled seated dead)
    have area := still p bound dead
    rw [if_pos dead, if_pos ((quiet.done_iff p).mpr dead)]
    unfold report Entry.utime Entry.stime
    rw [same.pid, same.exitval, area]
  · rw [if_neg dead, if_neg (fun no => dead ((quiet.done_iff p).mp no))]

theorem Kin.quiet (kin : Kin s) (quiet : Quiet s t) : Kin t := by
  have filled : ∀ p, (t.ptab p).status ≠ .empty → (s.ptab p).status ≠ .empty :=
    fun p some_entry empty => some_entry (quiet.empty p empty)
  refine ⟨kin.toSeated.quiet quiet, fun p bound notInit some_entry => ?_,
    fun p bound some_entry => ?_⟩
  · rw [(quiet.same p (filled p some_entry)).pptr]
    exact kin.proper p bound notInit (filled p some_entry)
  · rw [(quiet.same p (filled p some_entry)).pptr, quiet.done_iff]
    exact kin.parent p bound (filled p some_entry)

/-! ## The balance of a step -/

theorem user_dead (user : s.user) : done s p ↔ (s.ptab p).status = .zombie := by
  unfold done
  constructor
  · rintro (zombie | exits)
    · exact zombie
    · exact absurd exits.1 (user_awake user)
  · exact Or.inl

theorem user_apart (user : s.user) (zombie : (s.ptab p).status = .zombie) : p ≠ s.cur := by
  intro same
  have running : (s.ptab s.cur).status = .running := user.2
  rw [← same, zombie] at running
  cases running

/-- What is left is what was left before, with the new report, less what was taken. -/
def Balance (s : State) (a : Action) (t : State) : Prop := ∀ r,
  (exited s a).count r + total PTABSIZE (fun p => (reports s p).count r) =
    (returned s a t).count r + total PTABSIZE (fun p => (dropped s a p).count r) +
      total PTABSIZE (fun p => (reports t p).count r)

theorem balance_same {a : Action} (none₁ : exited s a = []) (none₂ : returned s a t = [])
    (none₃ : ∀ p, ¬ unwanted s a p) (same : ∀ p < PTABSIZE, reports t p = reports s p) :
    Balance s a t := by
  intro r
  have gone : total PTABSIZE (fun p => (dropped s a p).count r) = total PTABSIZE (fun _ => 0) :=
    total_congr (fun p _ => by
      unfold dropped
      rw [if_neg (none₃ p)]
      rfl)
  have kept : total PTABSIZE (fun p => (reports t p).count r) =
      total PTABSIZE (fun p => (reports s p).count r) :=
    total_congr (fun p bound => by rw [same p bound])
  rw [none₁, none₂, gone, kept, total_zero]
  simp

theorem Forks.reports (user : s.user) (forks : Forks s p t) (r : Nat) : reports t r = reports s r := by
  have awake : t.exiting = false := forks.exiting.trans user.1
  have dead : done t r ↔ (t.ptab r).status = .zombie := by
    unfold done
    rw [awake]
    simp
  unfold Family.reports
  by_cases self : r = p
  · have before : ¬ done s r := by
      rw [user_dead user, self, forks.slot]
      decide
    have after : ¬ done t r := by
      rw [dead, self, forks.status]
      decide
    rw [if_neg before, if_neg after]
  · by_cases mine : r = s.cur
    · have before : ¬ done s r := fun no => user_apart user ((user_dead user).mp no) mine
      have after : ¬ done t r := by
        rw [dead, mine, forks.parent]
        intro no
        cases no
      rw [if_neg before, if_neg after]
    · have same := forks.others r self mine
      simp only [dead, user_dead user, same]

theorem Reaps.balance {a : Action} (user : s.user) (reaps : Reaps s p t)
    (waits : exited s a = []) (told : answer s a = some (.child (s.ptab p).pid (s.ptab p).exitval))
    (none' : ∀ p, ¬ unwanted s a p) : Balance s a t := by
  intro r
  have gone : total PTABSIZE (fun p => (dropped s a p).count r) = total PTABSIZE (fun _ => 0) :=
    total_congr (fun p _ => by
      unfold dropped
      rw [if_neg (none' p)]
      rfl)
  have got : returned s a t = [report (s.ptab p)] := by
    unfold returned
    rw [told, reaps.after]
    unfold modifyUdata modify report
    dsimp only
    rw [put_same]
    dsimp only
    rw [BitVec.add_comm, BitVec.add_sub_cancel, BitVec.add_comm, BitVec.add_sub_cancel]
  have awake : t.exiting = false := reaps.exiting.trans user.1
  have dead : ∀ k, done t k ↔ (t.ptab k).status = .zombie := by
    intro k
    unfold done
    rw [awake]
    simp
  have change := total_change reaps.bound
    (f := fun k => (reports s k).count r) (g := fun k => (reports t k).count r)
    (fun k _ other => by
      unfold reports
      simp only [dead, user_dead user, reaps.others other])
  have before : reports s p = [report (s.ptab p)] := if_pos (Or.inl reaps.zombie)
  have after : reports t p = [] := by
    refine if_neg ?_
    rw [dead, reaps.slot]
    intro no
    cases no
  rw [before, after] at change
  rw [waits, gone, got, total_zero]
  have none'' : ([] : List Report).count r = 0 := rfl
  omega

/-! ## Exits -/

theorem dismissed_area (calm : (q.pgrp = s.me.pid → Silent q SIGHUP ∧ Silent q SIGCONT)) :
    (dismissed s q).area = q.area := by
  unfold dismissed
  split
  · rename_i group
    obtain ⟨hup, cont'⟩ := calm group
    have first : (ssig SIGHUP { q with pgrp := 0 }).area = q.area := ssig_area hup
    have second : Silent (ssig SIGHUP { q with pgrp := 0 }) SIGCONT := by
      unfold Silent at cont' ⊢
      rw [pending_congr first, ignored_congr first]
      exact cont'
    rw [ssig_area second, first]
  · rfl

/-- The zombies at an exit. -/
theorem Leaves.zombie {val : Half} (seated : Seated s) (leaves : Leaves val s t)
    (calm : calm s (.exit val)) (user : s.user) (bound : p < PTABSIZE)
    (zombie : (s.ptab p).status = .zombie) (wanted : ¬ unwanted s (.exit val) p) :
    (t.ptab p).status = .zombie ∧ report (t.ptab p) = report (s.ptab p) := by
  have other := user_apart user zombie
  have left := leaves.left p other
  have kept : ¬ ((s.ptab p).pptr = s.cur ∧ initIgnores s) := fun both => wanted ⟨zombie, both⟩
  have slot : p ≠ 0 := by
    intro same
    have alive := seated.init
    rw [← same, zombie] at alive
    exact not_live_zombie alive
  have status : (t.ptab p).status = .zombie := by
    rcases left.status (fun no => kept no.2) with same | ⟨asleep, _⟩
    · exact same.trans zombie
    · rw [zombie] at asleep
      rcases asleep with no | no <;> cases no
  refine ⟨status, ?_⟩
  have entry := left.after bound zombie slot
  have adopt : (adopted s (s.ptab p)).area = (s.ptab p).area ∧
      (adopted s (s.ptab p)).pgrp = (s.ptab p).pgrp := by
    unfold adopted
    split
    · exact ⟨rfl, rfl⟩
    · exact ⟨rfl, rfl⟩
  have silent : (adopted s (s.ptab p)).pgrp = s.me.pid →
      Silent (adopted s (s.ptab p)) SIGHUP ∧ Silent (adopted s (s.ptab p)) SIGCONT := by
    intro group
    have signals : sent s (.exit val) p = [SIGHUP, SIGCONT] := if_pos ⟨adopt.2.symm.trans group, kept⟩
    have quiet := calm p bound (Or.inl zombie)
    rw [signals] at quiet
    unfold Silent
    rw [pending_congr adopt.1, ignored_congr adopt.1]
    exact ⟨quiet SIGHUP List.mem_cons_self,
      quiet SIGCONT (List.mem_cons_of_mem _ List.mem_cons_self)⟩
  have area : (t.ptab p).area = (s.ptab p).area := by
    rw [entry, dismissed_area silent, adopt.1]
  unfold report Entry.utime Entry.stime
  rw [left.pid, left.exitval, area]

theorem Leaves.balance {val : Half} (seated : Seated s) (leaves : Leaves val s t)
    (calm : calm s (.exit val)) (user : s.user) : Balance s (.exit val) t := by
  intro r
  have each : ∀ p < PTABSIZE, (if p = s.cur then (exited s (.exit val)).count r else 0) +
      (reports s p).count r = (dropped s (.exit val) p).count r + (reports t p).count r := by
    intro p bound
    by_cases mine : p = s.cur
    · have before : reports s p = [] :=
        if_neg (fun no => user_apart user ((user_dead user).mp no) mine)
      have no : dropped s (.exit val) p = [] := if_neg (fun no => user_apart user no.1 mine)
      have after : reports t p = exited s (.exit val) := by
        have entry : t.ptab p = t.me := by
          unfold State.me
          rw [leaves.cur, mine]
        rw [reports_dead (Or.inr ⟨leaves.exiting, mine.trans leaves.cur.symm⟩), entry]
        unfold report exited
        rw [leaves.pid, leaves.exitval, leaves.utime, leaves.stime]
      rw [if_pos mine, before, no, after, List.count_nil, Nat.add_zero, Nat.zero_add]
    · rw [if_neg mine, Nat.zero_add]
      have after : done t p ↔ (t.ptab p).status = .zombie := by
        unfold done
        rw [leaves.cur]
        simp [mine]
      by_cases zombie : (s.ptab p).status = .zombie
      · have before : reports s p = [report (s.ptab p)] := if_pos (Or.inl zombie)
        by_cases gone : unwanted s (.exit val) p
        · have taken : dropped s (.exit val) p = [report (s.ptab p)] := if_pos gone
          have rest : reports t p = [] := by
            refine if_neg ?_
            rw [after, (leaves.left p mine).released bound gone.2.1 gone.2.2]
            decide
          rw [before, taken, rest, List.count_nil, Nat.add_zero]
        · obtain ⟨status, same⟩ := leaves.zombie seated calm user bound zombie gone
          have none' : dropped s (.exit val) p = [] := if_neg gone
          have rest : reports t p = [report (s.ptab p)] := by
            rw [reports_dead (after.mpr status), same]
          rw [before, none', rest, List.count_nil, Nat.zero_add]
      · have before : reports s p = [] := if_neg (fun no => zombie ((user_dead user).mp no))
        have none' : dropped s (.exit val) p = [] := if_neg (fun no => zombie no.1)
        have rest : reports t p = [] := by
          refine if_neg ?_
          rw [after]
          have left := leaves.left p mine
          by_cases released : (s.ptab p).pptr = s.cur ∧ initIgnores s
          · rw [left.released bound released.1 released.2]
            decide
          · rcases left.status (fun no => released no.2) with same | ⟨_, ready, _⟩
            · rw [same]
              exact zombie
            · rw [ready]
              decide
        rw [before, none', rest, List.count_nil]
  have sum : total PTABSIZE (fun p => (if p = s.cur then (exited s (.exit val)).count r else 0) +
      (reports s p).count r) = total PTABSIZE (fun p => (dropped s (.exit val) p).count r +
        (reports t p).count r) := total_congr each
  rw [total_add, total_add, total_single seated.cur] at sum
  have none' : (returned s (.exit val) t).count r = 0 := rfl
  omega

/-- The entry of the process at the very end. -/
theorem signal_parent_me (running : s.me.status = .running) (apart : s.me.pptr ≠ s.cur) :
    (signal_parent s).ptab s.cur = { s.me with
      status := (if has (s.ptab s.me.pptr).ignored SIGCHLD then .empty else .zombie) } := by
  have still : steady (s.ptab s.cur).status := by
    have running' : (s.ptab s.cur).status = .running := running
    rw [running']
    decide
  unfold signal_parent
  dsimp only
  split
  · exact modify_same s s.cur (fun q => { q with status := .empty })
  · have kept := tell_steady (Ne.symm apart) still
    have entry := modify_same (tell s.me.pptr s) s.cur (fun q => { q with status := .zombie })
    rw [kept] at entry
    exact entry

theorem signal_parent_dead {r : Nat} (other : r ≠ s.cur) (parent : r ≠ s.me.pptr)
    (zombie : (s.ptab r).status = .zombie) : (signal_parent s).ptab r = s.ptab r := by
  have still : steady (s.ptab r).status := by
    rw [zombie]
    decide
  unfold signal_parent
  dsimp only
  split
  · exact modify_ne (s := s) (fun q => { q with status := .empty }) other
  · have entry := modify_ne (s := tell s.me.pptr s) (fun q => { q with status := .zombie }) other
    exact entry.trans (tell_steady parent still)

theorem gone_balance (kin : Kin s) (exiting : s.exiting = true) :
    Balance s .gone (signal_parent s) := by
  intro r
  obtain ⟨running, notInit⟩ := kin.exiting exiting
  have ends := signal_parent_ends (s := s)
  have filled : (s.ptab s.cur).status ≠ .empty := by
    have running' : (s.ptab s.cur).status = .running := running
    rw [running']
    decide
  have apart : s.me.pptr ≠ s.cur := kin.proper s.cur kin.cur notInit filled
  have me := signal_parent_me running apart
  have after : ∀ p, done (signal_parent s) p ↔ ((signal_parent s).ptab p).status = .zombie := by
    intro p
    unfold done
    rw [ends.exiting]
    simp
  have each : ∀ p < PTABSIZE, (reports s p).count r =
      (dropped s .gone p).count r + (reports (signal_parent s) p).count r := by
    intro p bound
    by_cases mine : p = s.cur
    · have before : reports s p = [report s.me] := by
        rw [reports_dead (Or.inr ⟨exiting, mine⟩), mine]
        rfl
      by_cases gone : unwanted s .gone p
      · have taken : dropped s .gone p = [report s.me] := by
          unfold dropped
          rw [if_pos gone, mine]
          rfl
        have rest : reports (signal_parent s) p = [] := by
          refine if_neg ?_
          rw [after, mine, ends.status, if_pos gone.2]
          decide
        rw [before, taken, rest, List.count_nil, Nat.add_zero]
      · have cares : ¬ has (s.ptab s.me.pptr).ignored SIGCHLD := fun no => gone ⟨mine, no⟩
        have none' : dropped s .gone p = [] := if_neg gone
        have dead : done (signal_parent s) p := by
          rw [after, mine, ends.status]
          exact if_neg cares
        have rest : reports (signal_parent s) p = [report s.me] := by
          rw [reports_dead dead, mine, me]
          rfl
        rw [before, none', rest, List.count_nil, Nat.zero_add]
    · have none' : dropped s .gone p = [] := if_neg (fun no => mine no.1)
      have same : reports (signal_parent s) p = reports s p := by
        have status := (ends.others p mine).same.zombie_iff
        by_cases zombie : (s.ptab p).status = .zombie
        · have parent : p ≠ s.me.pptr := by
            intro same
            exact kin.parent s.cur kin.cur filled (same ▸ Or.inl zombie)
          rw [reports_dead (Or.inl zombie), reports_dead ((after p).mpr (status.mpr zombie)),
            signal_parent_dead mine parent zombie]
        · have alive : ¬ done s p := by
            rintro (no | no)
            · exact zombie no
            · exact mine no.2
          rw [reports_none alive, reports_none (fun no => zombie (status.mp ((after p).mp no)))]
      rw [none', same, List.count_nil, Nat.zero_add]
  have sum : total PTABSIZE (fun p => (reports s p).count r) = total PTABSIZE (fun p =>
      (dropped s .gone p).count r + (reports (signal_parent s) p).count r) := total_congr each
  rw [total_add] at sum
  have none₁ : (exited s .gone).count r = 0 := rfl
  have none₂ : (returned s .gone (signal_parent s)).count r = 0 := rfl
  omega

/-! ## Parents -/

theorem init_alive (seated : Seated s) (awake : ¬ (s.exiting = true ∧ s.cur = 0)) : ¬ done s 0 := by
  rintro (zombie | exits)
  · have alive := seated.init
    rw [zombie] at alive
    exact not_live_zombie alive
  · exact awake ⟨exits.1, exits.2.symm⟩

theorem Kin.fork (kin : Kin s) (user : s.user) (forks : Forks s p t) : Kin t := by
  have dead : ∀ r, ¬ done s r → ¬ done t r := by
    intro r alive
    have same := forks.reports user r
    intro no
    rw [reports_dead no, reports_none alive] at same
    cases same
  have parent : ∀ r, r ≠ p → (t.ptab r).status ≠ .empty →
      (s.ptab r).status ≠ .empty ∧ (t.ptab r).pptr = (s.ptab r).pptr := by
    intro r other filled
    have same := forks.others_same user other
    exact ⟨fun empty => filled (same.empty_iff.mpr empty), same.pptr⟩
  have awake : ¬ done s s.cur := fun no => user_apart user ((user_dead user).mp no) rfl
  have apart : s.cur ≠ p := by
    intro same
    have running : (s.ptab s.cur).status = .running := user.2
    rw [same, forks.slot] at running
    cases running
  refine ⟨kin.toSeated.fork user forks, fun r bound notInit filled => ?_, fun r bound filled => ?_⟩
  · by_cases self : r = p
    · rw [self, forks.pptr]
      exact apart
    · obtain ⟨before, same⟩ := parent r self filled
      rw [same]
      exact kin.proper r bound notInit before
  · by_cases self : r = p
    · rw [self, forks.pptr]
      exact dead s.cur awake
    · obtain ⟨before, same⟩ := parent r self filled
      rw [same]
      exact dead _ (kin.parent r bound before)

theorem Kin.exit {val : Half} (kin : Kin s) (user : s.user) (run : doexit val s = some t) : Kin t := by
  have notInit := doexit_notInit kin.toSeated run
  have leaves := doexit_leaves notInit user.2 run
  have seated := kin.toSeated.exit user run
  have zombies : ∀ r, r ≠ s.cur → (t.ptab r).status = .zombie → (s.ptab r).status = .zombie := by
    intro r other zombie
    have left := leaves.left r other
    by_cases released : r < PTABSIZE ∧ (s.ptab r).pptr = s.cur ∧ initIgnores s
    · rw [left.released released.1 released.2.1 released.2.2] at zombie
      cases zombie
    · rcases left.status released with same | ⟨_, ready, _⟩
      · exact same.symm.trans zombie
      · rw [ready] at zombie
        cases zombie
  have filled : ∀ r, r ≠ s.cur → (t.ptab r).status ≠ .empty → (s.ptab r).status ≠ .empty := by
    intro r other some_entry empty
    have left := leaves.left r other
    by_cases released : r < PTABSIZE ∧ (s.ptab r).pptr = s.cur ∧ initIgnores s
    · exact some_entry (left.released released.1 released.2.1 released.2.2)
    · rcases left.status released with same | ⟨asleep, _⟩
      · exact some_entry (same.trans empty)
      · rw [empty] at asleep
        rcases asleep with no | no <;> cases no
  have safe : ∀ r, r ≠ s.cur → ¬ done s r → ¬ done t r := by
    intro r other alive
    rintro (zombie | exits)
    · exact alive (Or.inl (zombies r other zombie))
    · exact other (exits.2.trans leaves.cur)
  have some_me : (s.ptab s.cur).status ≠ .empty := by
    have running : (s.ptab s.cur).status = .running := user.2
    rw [running]
    decide
  have init : ¬ done t 0 := init_alive seated (fun no => notInit (leaves.cur.symm.trans no.2))
  refine ⟨seated, fun r bound notInit' some_entry => ?_, fun r bound some_entry => ?_⟩
  · by_cases mine : r = s.cur
    · have same : (t.ptab s.cur).pptr = s.me.pptr := by
        have entry := leaves.pptr
        unfold State.me at entry
        rw [leaves.cur] at entry
        exact entry
      rw [mine, same]
      exact kin.proper s.cur kin.cur notInit some_me
    · have left := leaves.left r mine
      by_cases child : (s.ptab r).pptr = s.cur
      · rw [left.child bound (filled r mine some_entry) child]
        exact Ne.symm notInit'
      · rw [left.other (fun no => child no.2.2)]
        exact kin.proper r bound notInit' (filled r mine some_entry)
  · by_cases mine : r = s.cur
    · have same : (t.ptab s.cur).pptr = s.me.pptr := by
        have entry := leaves.pptr
        unfold State.me at entry
        rw [leaves.cur] at entry
        exact entry
      rw [mine, same]
      exact safe _ (kin.proper s.cur kin.cur notInit some_me) (kin.parent s.cur kin.cur some_me)
    · have left := leaves.left r mine
      by_cases child : (s.ptab r).pptr = s.cur
      · rw [left.child bound (filled r mine some_entry) child]
        exact init
      · rw [left.other (fun no => child no.2.2)]
        exact safe _ child (kin.parent r bound (filled r mine some_entry))

theorem Kin.ends (kin : Kin s) (exiting : s.exiting = true) : Kin (signal_parent s) := by
  obtain ⟨running, notInit⟩ := kin.exiting exiting
  have ends := signal_parent_ends (s := s)
  have some_me : (s.ptab s.cur).status ≠ .empty := by
    have running' : (s.ptab s.cur).status = .running := running
    rw [running']
    decide
  have me := signal_parent_me running (kin.proper s.cur kin.cur notInit some_me)
  have kept : ∀ r, ((signal_parent s).ptab r).status ≠ .empty →
      (s.ptab r).status ≠ .empty ∧ ((signal_parent s).ptab r).pptr = (s.ptab r).pptr := by
    intro r filled
    by_cases mine : r = s.cur
    · rw [mine, me]
      exact ⟨some_me, rfl⟩
    · have same := (ends.others r mine).same
      exact ⟨fun empty => filled (same.empty_iff.mpr empty), same.pptr⟩
  have safe : ∀ r, ¬ done s r → ¬ done (signal_parent s) r := by
    intro r alive
    have other : r ≠ s.cur := fun same => alive (Or.inr ⟨exiting, same⟩)
    rintro (zombie | exits)
    · exact alive (Or.inl ((ends.others r other).same.zombie_iff.mp zombie))
    · rw [ends.exiting] at exits
      cases exits.1
  refine ⟨kin.toSeated.ends exiting ends, fun r bound notInit' filled => ?_, fun r bound filled => ?_⟩
  · obtain ⟨before, same⟩ := kept r filled
    rw [same]
    exact kin.proper r bound notInit' before
  · obtain ⟨before, same⟩ := kept r filled
    rw [same]
    exact safe _ (kin.parent r bound before)

theorem Kin.reap (kin : Kin s) (user : s.user) (reaps : Reaps s p t) : Kin t := by
  have awake : t.exiting = false := reaps.exiting.trans user.1
  have kept : ∀ r, (t.ptab r).status ≠ .empty →
      (s.ptab r).status ≠ .empty ∧ (t.ptab r).pptr = (s.ptab r).pptr := by
    intro r filled
    have other : r ≠ p := by
      intro same
      rw [same, reaps.slot] at filled
      exact filled rfl
    rw [← reaps.others other]
    exact ⟨filled, rfl⟩
  have safe : ∀ r, ¬ done s r → ¬ done t r := by
    intro r alive
    have other : r ≠ p := fun same => alive (Or.inl (same ▸ reaps.zombie))
    unfold done
    rw [awake, reaps.others other]
    rintro (zombie | exits)
    · exact alive (Or.inl zombie)
    · cases exits.1
  refine ⟨kin.toSeated.reap user reaps, fun r bound notInit filled => ?_, fun r bound filled => ?_⟩
  · obtain ⟨before, same⟩ := kept r filled
    rw [same]
    exact kin.proper r bound notInit before
  · obtain ⟨before, same⟩ := kept r filled
    rw [same]
    exact safe _ (kin.parent r bound before)

theorem Kin.step {a : Action} (kin : Kin s) (step : a.apply s = some t) : Kin t := by
  rcases apply_cases step with quiet | ⟨val, rfl, user, run⟩ | ⟨_, exiting, same⟩ |
    ⟨_, p, _, user, forks⟩ | ⟨p, user, reaps⟩
  · exact kin.quiet quiet
  · exact kin.exit user run
  · exact same ▸ kin.ends exiting
  · exact kin.fork user forks
  · exact kin.reap user reaps

/-! ## Every step -/

theorem still_dead (awake : s.exiting = false)
    (same : ∀ p, (s.ptab p).status = .zombie → t.ptab p = s.ptab p) : Still s t := by
  intro p _ dead
  rcases dead with zombie | exits
  · rw [same p zombie]
  · rw [awake] at exits
    cases exits.1

theorem still_each {f : Nat → Entry → Entry}
    (each : ∀ p < PTABSIZE, done s p → (f p (s.ptab p)).area = (s.ptab p).area) :
    Still s (eachProc f s) := by
  intro p bound dead
  unfold eachProc
  dsimp only
  rw [if_pos bound]
  exact each p bound dead

theorem still_kill {pid : Int} {sig : Nat} {allowed : Nat → Bool}
    (calm : calm s (.kill pid sig allowed)) : Still s (kill pid sig allowed s) := by
  unfold kill
  by_cases zero : sig = 0
  · rw [if_pos zero]
    exact fun p _ _ => rfl
  · rw [if_neg zero]
    refine still_each (fun p bound dead => ?_)
    split
    · rename_i target
      have signals : sent s (.kill pid sig allowed) p = [sig] := if_pos ⟨zero, target⟩
      have quiet := calm p bound dead
      rw [signals] at quiet
      exact ssig_area (quiet sig List.mem_cons_self)
    · rfl

theorem still_sgrpsig {pgrp sig : Nat} (calm : calm s (.sgrpsig pgrp sig)) :
    Still s (sgrpsig pgrp sig s) := by
  refine still_each (fun p bound dead => ?_)
  split
  · rename_i member
    have signals : sent s (.sgrpsig pgrp sig) p = [sig] := if_pos member
    have quiet := calm p bound dead
    rw [signals] at quiet
    exact ssig_area (quiet sig List.mem_cons_self)
  · rfl

theorem still_timer {insys : Bool} (calm : calm s (.timer insys)) :
    Still s (timer_interrupt insys s) := by
  obtain ⟨table, _, _, _, _, ticks⟩ := charge_same (s := s) insys
  intro p bound dead
  unfold timer_interrupt
  dsimp only
  rw [ticks]
  by_cases due : s.ticks_this_dsecond + 1 = ticks_per_dsecond
  · rw [if_pos due]
    unfold eachProc
    dsimp only
    rw [if_pos bound, timeouts_area, table]
    unfold alarms
    split
    · rfl
    · split
      · rename_i alarm
        have signals : sent s (.timer insys) p = [SIGALRM] := if_pos ⟨due, alarm⟩
        have quiet := calm p bound dead
        rw [signals] at quiet
        exact ssig_area (q := { s.ptab p with alarm := 0 }) (quiet SIGALRM List.mem_cons_self)
      · rfl
  · rw [if_neg due]
    dsimp only
    rw [table]

theorem still_wakeup (event : Nat) : Still s (wakeup event s) := by
  refine still_each (fun p _ _ => ?_)
  split
  · exact pwake_area
  · rfl

theorem balance_quiet {a : Action} (kin : Kin s) (quiet : Quiet s t) (still : Still s t)
    (none₁ : exited s a = []) (none₂ : returned s a t = []) (none₃ : ∀ p, ¬ unwanted s a p) :
    Balance s a t :=
  balance_same none₁ none₂ none₃ (fun _ bound => quiet.reports kin.toSeated still bound)

theorem round_balance {a : Action} {pid : Int} {nohang untraced : Bool} (kin : Kin s) (user : s.user)
    (none₁ : exited s a = []) (none₃ : ∀ p, ¬ unwanted s a p)
    (told : answer s a = some (waitRound pid nohang untraced s).2) :
    Balance s a (waitRound pid nohang untraced s).1 := by
  rcases waitRound_cases pid nohang untraced user with ⟨p, reaps, _, child⟩ | ⟨quiet, dead, no, _⟩
  · exact reaps.balance user none₁ (told.trans (congrArg some child)) none₃
  · refine balance_quiet kin quiet (still_dead user.1 dead) none₁ ?_ none₃
    unfold returned
    rw [told]
    split
    · rename_i child status got
      injection got with got
      exact absurd got (no child status)
    · rfl

theorem apply_balance {a : Action} (kin : Kin s) (calm : calm s a) (step : a.apply s = some t) :
    Balance s a t := by
  have nobody : ∀ _ : Nat, ¬ False := fun _ no => no
  cases a with
  | own o =>
    obtain ⟨⟨user, _⟩, same⟩ := Option.ite_none_right_eq_some.mp step
    injection same with same
    rw [← same]
    have still : Still s (modify s s.cur (fun q => o.apply q)) :=
      still_dead user.1 (fun p zombie => modify_ne _ (user_apart user zombie))
    exact balance_quiet kin (quiet_modify user (same_own user.2 o)) still rfl rfl nobody
  | fork copied =>
    obtain ⟨user, run⟩ := Option.ite_none_right_eq_some.mp step
    rcases fork_cases user run with ⟨quiet, others⟩ | ⟨p, forks⟩
    · have still : Still s t := still_dead user.1 (fun p zombie => others p (by rw [zombie]; decide))
      exact balance_quiet kin quiet still rfl rfl nobody
    · exact balance_same rfl rfl nobody (fun p _ => forks.reports user p)
  | exit val =>
    obtain ⟨user, run⟩ := Option.ite_none_right_eq_some.mp step
    have leaves := doexit_leaves (doexit_notInit kin.toSeated run) user.2 run
    exact leaves.balance kin.toSeated calm user
  | gone =>
    obtain ⟨exiting, same⟩ := Option.ite_none_right_eq_some.mp step
    injection same with same
    exact same ▸ gone_balance kin exiting
  | waitpid pid nohang untraced =>
    obtain ⟨user, same⟩ := Option.ite_none_right_eq_some.mp step
    injection same with same
    rw [← same]
    rcases waitpid_round (s := s) pid nohang untraced with ⟨pid', again⟩ | childless
    · rw [again]
      have told : answer s (.waitpid pid nohang untraced) =
          some (waitRound pid' nohang untraced s).2 := by
        show some (Family.waitpid pid nohang untraced s).2 = _
        rw [again]
      exact round_balance kin user rfl nobody told
    · rw [childless]
      refine balance_quiet kin (Quiet.refl s) (fun _ _ _ => rfl) rfl ?_ nobody
      unfold returned answer
      dsimp only
      rw [childless]
  | waitAgain pid nohang untraced =>
    obtain ⟨user, same⟩ := Option.ite_none_right_eq_some.mp step
    injection same with same
    rw [← same]
    exact round_balance kin user rfl nobody rfl
  | kill pid sig allowed =>
    obtain ⟨_, same⟩ := Option.ite_none_right_eq_some.mp step
    injection same with same
    rw [← same]
    exact balance_quiet kin (quiet_kill pid sig allowed) (still_kill calm) rfl rfl nobody
  | sgrpsig pgrp sig =>
    injection step with same
    rw [← same]
    exact balance_quiet kin (quiet_frame (frame_each _) (posted_sgrpsig pgrp sig))
      (still_sgrpsig calm) rfl rfl nobody
  | timer insys =>
    injection step with same
    rw [← same]
    exact balance_quiet kin (quiet_timer insys) (still_timer calm) rfl rfl nobody
  | wakeup event =>
    injection step with same
    rw [← same]
    exact balance_quiet kin (quiet_frame (frame_each _) (posted_wakeup event))
      (still_wakeup event) rfl rfl nobody
  | switch p =>
    obtain ⟨⟨idle, bound, ready⟩, same⟩ := Option.ite_none_right_eq_some.mp step
    injection same with same
    rw [← same]
    have still : Still s (switchin p s) := by
      refine still_dead idle.1 (fun r zombie => ?_)
      have other : r ≠ p := by
        intro same
        rw [same, ready] at zombie
        cases zombie
      exact modify_ne (s := s) (fun q => { q with status := .running }) other
    exact balance_quiet kin (quiet_switch idle bound ready) still rfl rfl nobody

end Steps

/-! ## Runs -/

open Run

/-- A run with all the reports so far: left by an exit, returned by a wait, unwanted. -/
structure Watch where
  state : State
  exits : List Report
  waits : List Report
  drops : List Report

def watch (s : State) : Watch := ⟨s, [], [], []⟩

def Watch.apply [Machine] (w : Watch) (a : Action) : Option Watch :=
  (a.apply w.state).map fun t => {
    state := t
    exits := w.exits ++ exited w.state a
    waits := w.waits ++ returned w.state a t
    drops := w.drops ++ (List.range PTABSIZE).flatMap (dropped w.state a) }

/-- Every report that a parent wants is returned once, or a zombie still has it; it goes
to the parent, and a parent that waits for a zombie gets one. -/
structure Delivered [Machine] (w : Watch) : Prop where
  once : w.exits.Perm (w.waits ++ w.drops ++ waiting w.state)
  parent : w.state.user → ∀ pid nohang untraced child status,
    (waitRound pid nohang untraced w.state).2 = .child child status →
    ∃ p < PTABSIZE, (w.state.ptab p).status = .zombie ∧ (w.state.ptab p).pptr = w.state.cur ∧
      (w.state.ptab p).pid = child ∧ (w.state.ptab p).exitval = status
  found : w.state.user → ∀ pid nohang, ∀ p < PTABSIZE, wanted w.state pid p →
    (w.state.ptab p).status = .zombie →
    ∃ child status, (waitRound pid nohang false w.state).2 = .child child status

section Watching
variable [Machine] {w w' : Watch}

/-- The counts behind `Delivered.once`. -/
structure Kept (w : Watch) : Prop where
  kin : Kin w.state
  count : ∀ r, w.exits.count r = w.waits.count r + w.drops.count r +
    total PTABSIZE (fun p => (reports w.state p).count r)

theorem Kept.step {a : Action} (kept : Kept w) (calm : calm w.state a)
    (step : w.apply a = some w') : Kept w' := by
  obtain ⟨t, applied, same⟩ := Option.map_eq_some_iff.mp step
  rw [← same]
  refine ⟨kept.kin.step applied, fun r => ?_⟩
  have balance := apply_balance kept.kin calm applied r
  have before := kept.count r
  dsimp only
  rw [List.count_append, List.count_append, List.count_append, count_table]
  omega

theorem Kept.delivered (kept : Kept w) : Delivered w := by
  constructor
  · apply List.perm_iff_count.mpr
    intro r
    have count := kept.count r
    unfold waiting
    rw [List.count_append, List.count_append, count_table]
    exact count
  · intro user pid nohang untraced child status told
    rcases waitRound_cases pid nohang untraced user with ⟨p, reaps, _, got⟩ | ⟨_, _, no, _⟩
    · rw [told] at got
      injection got with pid' status'
      exact ⟨p, reaps.bound, reaps.zombie, reaps.pptr, pid'.symm, status'.symm⟩
    · exact absurd told (no child status)
  · intro user pid nohang p bound mine zombie
    rcases waitRound_cases pid nohang false user with ⟨r, _, _, got⟩ | ⟨_, _, _, none'⟩
    · exact ⟨_, _, got⟩
    · exact absurd zombie (none' rfl p bound mine)

/-- Over every calm run from a state without dead processes. -/
theorem reports_delivered {s : State} {as : List Action} (kin : Kin s)
    (none' : ∀ p < PTABSIZE, ¬ done s p)
    (run : Steps (fun w a w' => calm w.state a ∧ w.apply a = some w') (watch s) as w) :
    Delivered w := by
  have start : Kept (watch s) := by
    refine ⟨kin, fun r => ?_⟩
    have gone : total PTABSIZE (fun p => (reports s p).count r) = total PTABSIZE (fun _ => 0) :=
      total_congr (fun p bound => by
        rw [reports_none (none' p bound)]
        rfl)
    rw [total_zero] at gone
    show 0 = 0 + 0 + total PTABSIZE (fun p => (reports s p).count r)
    omega
  have kept : Kept w := run.keeps (fun _ _ _ kept step => kept.step step.1 step.2) start
  exact kept.delivered

theorem boot_alive (page : Nat) (pfree : List Nat) (p : Nat) : ¬ done (boot page pfree) p := by
  rintro (zombie | exits)
  · unfold boot at zombie
    dsimp only at zombie
    split at zombie
    · cases zombie
    · cases zombie
  · cases exits.1

theorem boot_kin {page : Nat} {pfree : List Nat} (some_slot : 0 < PTABSIZE) :
    Kin (boot page pfree) := by
  refine ⟨⟨some_slot, live_running, rfl, rfl, fun no => (by cases no)⟩,
    fun p _ other filled => ?_, fun p _ _ => boot_alive page pfree _⟩
  unfold boot at filled
  dsimp only at filled
  rw [if_neg other] at filled
  exact absurd rfl filled

end Watching

/-- A child that runs for a tick each in its own code and in the kernel. -/
theorem report_delivered : ∃ (_ : Machine) (w : Watch), Delivered w ∧ w.waits = [⟨2, 7, 1, 1⟩] := by
  let m := small
  have run : (perform Watch.apply (fun w a => calm w.state a) [.fork true, .timer false, .timer true,
      .exit 7, .gone, .switch 0, .waitpid (-1) false false] (watch (boot 1 [2, 3]))).map Watch.waits =
      some [⟨2, 7, 1, 1⟩] := by decide +kernel
  obtain ⟨w, ran, result⟩ := Option.map_eq_some_iff.mp run
  exact ⟨small, w, reports_delivered (boot_kin (by decide)) (fun p _ => boot_alive _ _ p)
    (perform_steps ran), result⟩

/-- A zombie is sent `SIGTERM`, and its parent is told of 2147483648 ticks. -/
theorem report_changed : ∃ (_ : Machine) (as : List Action) (w : Watch),
    Steps (fun w a w' => Watch.apply w a = some w') (watch (boot 1 [2, 3])) as w ∧
    ¬ w.exits.Perm (w.waits ++ w.drops ++ waiting w.state) := by
  let m := small
  have run : (perform Watch.apply (fun _ _ => True) [.fork true, .exit 0, .gone, .switch 0,
      .kill 2 15 (fun _ => true), .waitpid (-1) false false] (watch (boot 1 [2, 3]))).map
      (fun w => (w.exits, w.waits ++ w.drops ++ waiting w.state)) =
      some ([⟨2, 0, 0, 0⟩], [⟨2, 0, 0x80000000, 0⟩]) := by decide +kernel
  obtain ⟨w, ran, result⟩ := Option.map_eq_some_iff.mp run
  injection result with exits rest
  refine ⟨small, _, w, (perform_steps ran).mono fun _ _ _ step => step.2, ?_⟩
  rw [exits, rest]
  decide

end Family
