import Fuzix.SchedRunning

/-!
# Taking turns

`getproc` goes on behind the entry it chose last. Whatever else happens, it comes to an
entry that stays ready within one turn of the table.
-/

set_option linter.unusedSectionVars false

namespace Sched

open Table Run

section Machine

variable [Machine]

/-- A round of the loop of `getproc`. -/
def Action.polls (s : State) (a : Action) : Bool :=
  match a, s.phase with
  | .go, .getproc => true
  | _, _ => false

/-- The rounds it takes `getproc` to come from the entry `next` to the entry `p`. -/
def away (p next : Nat) : Nat :=
  if next < p then p - next else PTABSIZE - 1 - next + p + 1

theorem away_bounds {p : Nat} (hp : p < PTABSIZE) (next : Nat) : 0 < away p next ∧ away p next ≤ PTABSIZE := by
  unfold away
  split <;> omega

section Steps
variable {s t : State} {p : Nat}

theorem leaveChksigs_nextp (s : State) : (leaveChksigs s).nextp = s.nextp := by
  unfold leaveChksigs
  split <;> rfl

theorem chksigs_nextp (s : State) (pending : Mask) (svec : Nat) :
    (chksigs s pending svec).nextp = s.nextp := by
  unfold chksigs
  split
  · exact leaveChksigs_nextp s
  · generalize scan s.me pending svec (NSIGS - 1) 1 s.me.pending = found
    obtain ⟨verdict, left⟩ := found
    cases verdict with
    | nothing => exact leaveChksigs_nextp _
    | caught j => exact leaveChksigs_nextp _
    | stop j => rfl
    | kill j =>
      dsimp only
      split <;> rfl

theorem ssig_nextp (s : State) (p sig : Nat) : (ssig s p sig).nextp = s.nextp := by
  unfold ssig cont rouse
  dsimp only
  split_ifs <;> rfl

theorem doexit_nextp (run : doexit s = .ok t) : t.nextp = s.nextp := by
  unfold doexit at run
  split at run
  · cases run
  · injection run with same
    subst same
    refine forProcs_keeps (R := fun s t => t.nextp = s.nextp) (fun _ => rfl)
      (fun _ _ _ first then_ => then_.trans first) ?_ _ PTABSIZE (Nat.le_refl _)
    intro s p hp
    exact leaveFamily_keeps (R := fun s t => t.nextp = s.nextp) (fun _ => rfl)
      (fun _ _ _ first then_ => then_.trans first) (fun s p sig _ => ssig_nextp s p sig)
      (fun s event => (stirs_wakeup event s).nextp) (fun _ _ => rfl) (fun _ _ => rfl)
      (fun _ _ => rfl) hp s

theorem endProcess_nextp (s : State) : (endProcess s).nextp = s.nextp := by
  unfold endProcess
  dsimp only
  split
  · rfl
  · exact (stirs_wakeup _ _).nextp.trans (ssig_nextp s _ SIGCHLD)

theorem fork_nextp (pid : Nat) (memory copied : Bool) (s : State) :
    (fork pid memory copied s).nextp = s.nextp := by
  unfold fork
  split
  · rfl
  · dsimp only
    split_ifs <;> rfl

theorem kept {u : State} (run : (.ok u : Except Panic State) = .ok t) (same : u.nextp = s.nextp) :
    t.nextp = s.nextp := by
  injection run with reached
  rw [← reached, same]

/-- Only a round of `getproc` moves on in the table. -/
theorem run_nextp {a : Action} (enabled : a.enabled s) (run : a.run s = .ok t)
    (other : a.polls s = false) : t.nextp = s.nextp := by
  cases a with
  | psleep event =>
    have step : Sched.psleep event s = .ok t := run
    unfold Sched.psleep at step
    split at step
    · exact kept step rfl
    · exact kept step rfl
    · exact kept step rfl
    · cases step
  | schedYield => exact kept run (by unfold Sched.schedYield; split <;> rfl)
  | preempt => exact kept run (by unfold Sched.preempt; split <;> rfl)
  | chksigs => exact kept run (chksigs_nextp s _ 0)
  | fork pid memory copied => exact kept run (fork_nextp pid memory copied s)
  | ssig p sig => exact kept run (ssig_nextp s p sig)
  | wakeup event => exact kept run (stirs_wakeup event s).nextp
  | pwake p => exact kept run (stirs_pwake enabled s).nextp
  | go =>
    have step : advance s = .ok t := run
    unfold advance at step
    split at step
    · exact kept step (chksigs_nextp _ _ 0)
    · exact kept step (chksigs_nextp s _ _)
    · rename_i here
      simp [Action.polls, here] at other
    · exact doexit_nextp step
    · exact kept step (endProcess_nextp s)
    · exact kept step rfl
  | _ => exact kept run rfl

theorem switchin_runs (s : State) (p : Nat) : (switchin s p).nextp = s.nextp ∧
    (switchin s p).cur = p ∧ ((switchin s p).ptab p).status = .running := by
  unfold switchin
  dsimp only
  have runs : ((setStatus { s with cur := p } p .running).ptab p).status = .running := by
    simp only [setStatus, modifyProc, put_same]
  split
  · refine ⟨rfl, rfl, ?_⟩
    show (put (setStatus { s with cur := p } p .running).ptab p _ p).status = _
    rw [put_same]
    exact runs
  · exact ⟨rfl, rfl, runs⟩

/-- A round of `getproc` while `p` is ready comes one entry closer, or to `p`. -/
theorem getproc_away (hp : p < PTABSIZE) (ready : (s.ptab p).status = .ready)
    (round : getproc s = .ok t) : away p t.nextp + 1 = away p s.nextp ∨
      away p s.nextp = 1 ∧ t.cur = p ∧ (t.ptab p).status = .running := by
  unfold getproc at round
  dsimp only at round
  generalize moved : (if s.nextp + 1 < PTABSIZE then s.nextp + 1 else 0) = next at round
  have closer : next ≠ p → away p next + 1 = away p s.nextp := by
    unfold away
    split_ifs at moved ⊢ <;> omega
  have last : next = p → away p s.nextp = 1 := by
    unfold away
    split_ifs at moved ⊢ <;> omega
  by_cases here : next = p
  · subst here
    rw [ready] at round
    injection round with same
    rw [← same]
    exact Or.inr ⟨last rfl, (switchin_runs _ next).2⟩
  · refine Or.inl ?_
    rw [← closer here]
    split at round
    · cases round
    · injection round with same
      rw [← same, (switchin_runs _ next).1]
    · injection round with same
      rw [← same]

/-- A step while the entry `p` is ready, with the rounds of `getproc` counted. -/
def Action.waits (p : Nat) (s : State × Nat) (a : Action) (t : State × Nat) : Prop :=
  a.enabled s.1 ∧ a.run s.1 = .ok t.1 ∧ (s.1.ptab p).status = .ready ∧
    t.2 = s.2 + (a.polls s.1).toNat

/-- The rounds since `getproc` stood at `next` have not come to `p`, or the last of them has. -/
def turn (p next : Nat) (s : State × Nat) : Prop :=
  s.2 + away p s.1.nextp = away p next ∨
    s.2 = away p next ∧ s.1.cur = p ∧ (s.1.ptab p).status = .running

theorem turn_step (hp : p < PTABSIZE) {next : Nat} {a : Action} {s t : State × Nat} (before : turn p next s)
    (step : a.waits p s t) : turn p next t := by
  obtain ⟨enabled, run, ready, count⟩ := step
  rcases before with waits | ⟨_, _, runs⟩
  · cases polls : a.polls s.1 with
    | false =>
      have same := run_nextp enabled run polls
      rw [polls] at count
      refine Or.inl ?_
      rw [same, count]
      exact waits
    | true =>
      rw [polls, Bool.toNat_true] at count
      have round : getproc s.1 = .ok t.1 := by
        unfold Action.polls at polls
        split at polls
        · rename_i here
          have step : advance s.1 = .ok t.1 := run
          unfold advance at step
          rwa [here] at step
        · cases polls
      rcases getproc_away hp ready round with closer | ⟨last, cur, runs⟩
      · exact Or.inl (by omega)
      · exact Or.inr ⟨by omega, cur, runs⟩
  · rw [ready] at runs
    cases runs

/-- While an entry is ready `getproc` makes fewer rounds than it takes to come to it, or the
last of them has switched to it. -/
theorem no_starvation {as : List Action} {n : Nat} (hp : p < PTABSIZE)
    (run : Steps (Action.waits p) (s, 0) as (t, n)) :
    n ≤ away p s.nextp ∧ away p s.nextp ≤ PTABSIZE ∧
      (n = away p s.nextp → t.cur = p ∧ (t.ptab p).status = .running) := by
  have turns : turn p s.nextp (t, n) := run.keeps (fun _ _ _ => turn_step hp) (Or.inl (Nat.zero_add _))
  have more := (away_bounds hp t.nextp).1
  have most := (away_bounds hp s.nextp).2
  rcases turns with waits | ⟨all, had⟩
  · have sum : n + away p t.nextp = away p s.nextp := waits
    exact ⟨by omega, most, fun all => by omega⟩
  · exact ⟨Nat.le_of_eq all, most, fun _ => had⟩

end Steps

end Machine

/-- Init has forked; its child goes to sleep, and the second round comes to init. -/
theorem no_starvation_after_fork : ∃ (_ : Machine) (s t : State) (n : Nat),
    Steps (Action.waits 0) (s, 0) [.psleep 7, .go, .go, .go] (t, n) ∧
    t.cur = 0 ∧ (t.ptab 0).status = .running := by
  let _ := pair
  have steps : ∃ s t, Action.waits 0 (fork 2 true true booted, 0) (.psleep 7) (s, 0) ∧
      ∃ u, Action.waits 0 (s, 0) .go (u, 0) ∧ ∃ w, Action.waits 0 (u, 0) .go (w, 1) ∧
        Action.waits 0 (w, 1) .go (t, 2) :=
    ⟨_, _, ⟨rfl, rfl, rfl, rfl⟩, _, ⟨⟨nofun, nofun⟩, rfl, rfl, rfl⟩, _, ⟨⟨nofun, nofun⟩, rfl, rfl, rfl⟩,
      ⟨nofun, nofun⟩, rfl, rfl, rfl⟩
  obtain ⟨s, t, first, u, second, w, third, fourth⟩ := steps
  have run := Steps.snoc (Steps.snoc (Steps.snoc (Steps.snoc (Steps.nil _) first) second) third) fourth
  exact ⟨pair, _, t, 2, run, (no_starvation (by decide) run).2.2 rfl⟩

end Sched
