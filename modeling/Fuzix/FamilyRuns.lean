import Fuzix.FamilySteps

/-!
# Orphans and the count of processes

Over every run of fork, failed fork, exit and wait, with whatever signals come in
between, `nproc` counts the processes that have not exited. At an exit the children go
to init.
-/

set_option linter.unusedSectionVars false

namespace Family

open Table
open Sched (Status NSIGS SIGHUP SIGKILL SIGCHLD SIGCONT SIGSTOP SIGTSTP SIGTTIN SIGTTOU stopper)

section Counting
variable [Machine] {s t : State} {p : Nat}

def liveCount (s : State) : Nat := total PTABSIZE (fun p => if live (s.ptab p).status then 1 else 0)

theorem liveCount_congr (same : ∀ p, p < PTABSIZE → (live (t.ptab p).status ↔ live (s.ptab p).status)) :
    liveCount t = liveCount s := by
  apply total_congr
  intro p bound
  simp only [same p bound]

/-- The entry holds memory. -/
def holds (s : State) (p : Nat) : Prop :=
  live (s.ptab p).status ∧ ¬ (s.exiting = true ∧ p = s.cur)

/-- Init is in its place, and the process that exits is another one. -/
structure Seated (s : State) : Prop where
  cur : s.cur < PTABSIZE
  init : live (s.ptab 0).status
  pid : (s.ptab 0).pid = 1
  pptr : (s.ptab 0).pptr = 0
  exiting : s.exiting = true → s.me.status = .running ∧ s.cur ≠ 0

/-- What holds between any two steps. -/
structure Sound (s : State) : Prop extends Seated s where
  nproc : s.nproc = liveCount s
  nodup : s.pfree.Nodup
  free : ∀ p < PTABSIZE, holds s p → (s.ptab p).page ∉ s.pfree
  apart : ∀ p < PTABSIZE, ∀ r < PTABSIZE, p ≠ r → holds s p → holds s r →
    (s.ptab p).page ≠ (s.ptab r).page

theorem Sound.small (sound : Sound s) : s.nproc < 65536 := by
  have bound : liveCount s ≤ PTABSIZE * 1 := by
    apply total_le
    intro k _
    split
    · exact Nat.le_refl 1
    · exact Nat.zero_le 1
  have table := Machine.tableBound
  rw [sound.nproc]
  omega

/-- Pages move to no one else. -/
theorem Sound.pages (sound : Sound s) (pfree : t.pfree = s.pfree)
    (kept : ∀ p < PTABSIZE, holds t p → holds s p ∧ (t.ptab p).page = (s.ptab p).page) :
    t.pfree.Nodup ∧ (∀ p < PTABSIZE, holds t p → (t.ptab p).page ∉ t.pfree) ∧
      ∀ p < PTABSIZE, ∀ r < PTABSIZE, p ≠ r → holds t p → holds t r →
        (t.ptab p).page ≠ (t.ptab r).page := by
  rw [pfree]
  refine ⟨sound.nodup, fun p bound held => ?_, fun p bound r bound' other held held' => ?_⟩
  · obtain ⟨before, same⟩ := kept p bound held
    rw [same]
    exact sound.free p bound before
  · obtain ⟨before, same⟩ := kept p bound held
    obtain ⟨before', same'⟩ := kept r bound' held'
    rw [same, same']
    exact sound.apart p bound r bound' other before before'

theorem Quiet.live_iff (quiet : Quiet s t) (p : Nat) :
    live (t.ptab p).status ↔ live (s.ptab p).status := by
  by_cases empty : (s.ptab p).status = .empty
  · rw [quiet.empty p empty, empty]
  · exact (quiet.same p empty).live_iff

theorem Seated.quiet (seated : Seated s) (quiet : Quiet s t) : Seated t := by
  have same := quiet.same 0 seated.init.1
  constructor
  · exact quiet.bound seated.cur
  · exact (quiet.live_iff 0).mpr seated.init
  · exact same.pid.trans seated.pid
  · exact same.pptr.trans seated.pptr
  · intro exiting
    have exiting' := quiet.exiting.symm.trans exiting
    have cur := quiet.cur exiting'
    obtain ⟨running, notInit⟩ := seated.exiting exiting'
    refine ⟨?_, cur ▸ notInit⟩
    unfold State.me
    rw [cur]
    exact quiet.running exiting' running

theorem Sound.quiet (sound : Sound s) (quiet : Quiet s t) : Sound t := by
  have kept : ∀ p < PTABSIZE, holds t p → holds s p ∧ (t.ptab p).page = (s.ptab p).page := by
    intro p _ held
    have alive := (quiet.live_iff p).mp held.1
    refine ⟨⟨alive, fun exits => held.2 ?_⟩, (quiet.same p alive.1).page⟩
    exact ⟨quiet.exiting.trans exits.1, exits.2.trans (quiet.cur exits.1).symm⟩
  obtain ⟨nodup, free, apart⟩ := sound.pages quiet.pfree kept
  constructor
  · exact sound.toSeated.quiet quiet
  · rw [quiet.nproc sound.small, liveCount_congr (fun p _ => quiet.live_iff p)]
    exact sound.nproc
  · exact nodup
  · exact free
  · exact apart

theorem not_live_empty : ¬ live .empty := by decide

theorem not_live_zombie : ¬ live .zombie := by decide

theorem user_awake (user : s.user) : ¬ (s.exiting = true) := by
  rw [user.1]
  exact Bool.false_ne_true

theorem Forks.others_same (user : s.user) (forks : Forks s p t) {r : Nat} (other : r ≠ p) :
    Same (s.ptab r) (t.ptab r) := by
  by_cases mine : r = s.cur
  · rw [mine, forks.parent]
    refine same_status user.2 ?_
    decide
  · rw [forks.others r other mine]
    exact Same.refl _

theorem Seated.fork (seated : Seated s) (user : s.user) (forks : Forks s p t) : Seated t := by
  have notInit : (0 : Nat) ≠ p := by
    intro same
    have alive := seated.init
    rw [same, forks.slot] at alive
    exact not_live_empty alive
  have same := forks.others_same user notInit
  constructor
  · rw [forks.cur]
    exact forks.bound
  · exact same.live_iff.mpr seated.init
  · exact same.pid.trans seated.pid
  · exact same.pptr.trans seated.pptr
  · intro exiting
    exact absurd (forks.exiting.symm.trans exiting) (user_awake user)

theorem Sound.fork (sound : Sound s) (user : s.user) (forks : Forks s p t) : Sound t := by
  have entry : ∀ r, r ≠ p → (t.ptab r).page = (s.ptab r).page ∧
      (live (t.ptab r).status ↔ live (s.ptab r).status) := by
    intro r other
    have same := forks.others_same user other
    exact ⟨same.page, same.live_iff⟩
  have awake : ∀ r, live (t.ptab r).status → holds t r := by
    intro r alive
    refine ⟨alive, fun exits => user_awake user ?_⟩
    rw [← forks.exiting]
    exact exits.1
  have before : ∀ r, r ≠ p → holds t r → holds s r := by
    intro r other held
    exact ⟨(entry r other).2.mp held.1, fun exits => user_awake user exits.1⟩
  have nodup := sound.nodup
  rw [forks.pfree] at nodup
  have free : ∀ r < PTABSIZE, r ≠ p → holds t r →
      (s.ptab r).page ≠ (t.ptab p).page ∧ (s.ptab r).page ∉ t.pfree := by
    intro r bound other held
    have away := sound.free r bound (before r other held)
    rw [forks.pfree] at away
    exact ⟨fun same => away (same ▸ List.mem_cons_self), fun inside => away (List.mem_cons_of_mem _ inside)⟩
  constructor
  · exact sound.toSeated.fork user forks
  · have change := total_change forks.bound
      (f := fun r => if live (s.ptab r).status then 1 else 0)
      (g := fun r => if live (t.ptab r).status then 1 else 0)
      (fun r _ other => by simp only [(entry r other).2])
    have gone : (if live (s.ptab p).status then 1 else 0) = 0 := by
      rw [forks.slot]
      rfl
    have born : (if live (t.ptab p).status then 1 else 0) = 1 := by
      rw [forks.status]
      rfl
    have count : liveCount t = liveCount s + 1 := by
      unfold liveCount
      omega
    have bound : liveCount t ≤ PTABSIZE * 1 := by
      apply total_le
      intro k _
      split
      · exact Nat.le_refl 1
      · exact Nat.zero_le 1
    have table := Machine.tableBound
    rw [forks.nproc, sound.nproc, count]
    omega
  · exact (List.nodup_cons.mp nodup).2
  · intro r bound held
    by_cases self : r = p
    · rw [self]
      exact (List.nodup_cons.mp nodup).1
    · rw [(entry r self).1]
      exact (free r bound self held).2
  · intro r bound r' bound' other held held'
    by_cases self : r = p
    · have self' : r' ≠ p := fun same => other (self.trans same.symm)
      rw [self, (entry r' self').1]
      exact Ne.symm (free r' bound' self' held').1
    · rw [(entry r self).1]
      by_cases self' : r' = p
      · rw [self']
        exact (free r bound self held).1
      · rw [(entry r' self').1]
        exact sound.apart r bound r' bound' other (before r self held) (before r' self' held')

/-- The slip is not met: init cares for its children, or there is no live child. -/
def spared (s : State) : Prop :=
  initIgnores s → ∀ p < PTABSIZE, p ≠ s.cur → (s.ptab p).pptr = s.cur → ¬ live (s.ptab p).status

theorem Woken.live_iff {q q' : Entry} (woken : Woken s p q q') : live q'.status ↔ live q.status := by
  rcases woken with same | ⟨asleep, ready, _⟩
  · rw [same]
  · rw [ready]
    rcases asleep with asleep | asleep
    · rw [asleep]
      decide
    · rw [asleep]
      decide

theorem Leaves.live_iff {val : Half} (leaves : Leaves val s t) (spared : spared s) (bound : p < PTABSIZE)
    (other : p ≠ s.cur) : live (t.ptab p).status ↔ live (s.ptab p).status := by
  have left := leaves.left p other
  by_cases released : (s.ptab p).pptr = s.cur ∧ initIgnores s
  · have empty := left.released bound released.1 released.2
    rw [empty]
    exact ⟨fun no => absurd no not_live_empty,
      fun alive => absurd alive (spared released.2 p bound other released.1)⟩
  · exact (left.status (fun no => released no.2)).live_iff

theorem doexit_notInit {val : Half} (seated : Seated s) (done : doexit val s = some t) : s.cur ≠ 0 := by
  intro init
  have pid : s.me.pid = 1 := by
    unfold State.me
    rw [init]
    exact seated.pid
  unfold doexit at done
  rw [if_pos (Or.inl pid)] at done
  cases done

theorem Seated.exit {val : Half} (seated : Seated s) (user : s.user)
    (done : doexit val s = some t) : Seated t := by
  have notInit := doexit_notInit seated done
  have leaves := doexit_leaves notInit user.2 done
  have init := leaves.left 0 (Ne.symm notInit)
  have notMine : (s.ptab 0).pptr ≠ s.cur := fun child => notInit (child.symm.trans seated.pptr)
  constructor
  · rw [leaves.cur]
    exact seated.cur
  · exact (init.status (fun no => notMine no.2.1)).live_iff.mpr seated.init
  · exact init.pid.trans seated.pid
  · exact (init.other (fun no => notMine no.2.2)).trans seated.pptr
  · exact fun _ => ⟨leaves.status.trans user.2, leaves.cur ▸ notInit⟩

theorem Sound.exit {val : Half} (sound : Sound s) (user : s.user) (spared : spared s)
    (done : doexit val s = some t) : Sound t := by
  have notInit := doexit_notInit sound.toSeated done
  have leaves := doexit_leaves notInit user.2 done
  have running : t.me.status = .running := leaves.status.trans user.2
  have away : ∀ p, holds t p → p ≠ s.cur := by
    intro p held same
    exact held.2 ⟨leaves.exiting, same.trans leaves.cur.symm⟩
  have before : ∀ p < PTABSIZE, holds t p → holds s p ∧ (t.ptab p).page = (s.ptab p).page := by
    intro p bound held
    exact ⟨⟨(leaves.live_iff spared bound (away p held)).mp held.1,
      fun exits => user_awake user exits.1⟩, (leaves.left p (away p held)).page⟩
  have mine : holds s s.cur := by
    refine ⟨?_, fun exits => user_awake user exits.1⟩
    have running : (s.ptab s.cur).status = .running := user.2
    rw [running]
    exact live_running
  constructor
  · exact sound.toSeated.exit user done
  · rw [leaves.nproc, sound.nproc]
    refine (liveCount_congr (fun p bound => ?_)).symm
    by_cases self : p = s.cur
    · have running' : (t.ptab t.cur).status = .running := running
      have running'' : (s.ptab s.cur).status = .running := user.2
      rw [leaves.cur] at running'
      rw [self, running', running'']
    · exact leaves.live_iff spared bound self
  · rw [leaves.pfree]
    exact List.nodup_cons.mpr ⟨sound.free s.cur sound.cur mine, sound.nodup⟩
  · intro p bound held
    obtain ⟨held', same⟩ := before p bound held
    rw [leaves.pfree, same]
    intro inside
    rcases List.mem_cons.mp inside with page | inside
    · exact sound.apart p bound s.cur sound.cur (away p held) held' mine page
    · exact sound.free p bound held' inside
  · intro p bound r bound' other held held'
    obtain ⟨first, same⟩ := before p bound held
    obtain ⟨second, same'⟩ := before r bound' held'
    rw [same, same']
    exact sound.apart p bound r bound' other first second

theorem Seated.ends (seated : Seated s) (exiting : s.exiting = true) (ends : Ends s t) : Seated t := by
  have notInit := Ne.symm (seated.exiting exiting).2
  have init := (ends.others 0 notInit).same
  constructor
  · rw [ends.cur]
    exact seated.cur
  · exact init.live_iff.mpr seated.init
  · exact init.pid.trans seated.pid
  · exact init.pptr.trans seated.pptr
  · intro still
    rw [ends.exiting] at still
    cases still

theorem Sound.ends (sound : Sound s) (exiting : s.exiting = true) (ends : Ends s t) : Sound t := by
  obtain ⟨running, notInit⟩ := sound.exiting exiting
  have mine : live (s.ptab s.cur).status := by
    have running' : (s.ptab s.cur).status = .running := running
    rw [running']
    exact live_running
  have gone : ¬ live (t.ptab s.cur).status := by
    rw [ends.status]
    split
    · exact not_live_empty
    · exact not_live_zombie
  have others : ∀ p, p ≠ s.cur → (live (t.ptab p).status ↔ live (s.ptab p).status) :=
    fun p other => (ends.others p other).same.live_iff
  have kept : ∀ p < PTABSIZE, holds t p → holds s p ∧ (t.ptab p).page = (s.ptab p).page := by
    intro p _ held
    have other : p ≠ s.cur := fun same => gone (same ▸ held.1)
    exact ⟨⟨(others p other).mp held.1, fun exits => other exits.2⟩, (ends.others p other).page⟩
  obtain ⟨nodup, free, apart⟩ := sound.pages ends.pfree kept
  constructor
  · exact sound.toSeated.ends exiting ends
  · have change := total_change sound.cur
      (f := fun r => if live (s.ptab r).status then 1 else 0)
      (g := fun r => if live (t.ptab r).status then 1 else 0)
      (fun r _ other => by simp only [others r other])
    have before : (if live (s.ptab s.cur).status then 1 else 0) = 1 := if_pos mine
    have after : (if live (t.ptab s.cur).status then 1 else 0) = 0 := if_neg gone
    have count : liveCount t + 1 = liveCount s := by
      unfold liveCount
      omega
    have small := sound.small
    have same := sound.nproc
    rw [ends.nproc]
    omega
  · exact nodup
  · exact free
  · exact apart

theorem Reaps.live_iff (reaps : Reaps s p t) (r : Nat) :
    live (t.ptab r).status ↔ live (s.ptab r).status := by
  by_cases self : r = p
  · rw [self, reaps.slot, reaps.zombie]
    show live .empty ↔ live .zombie
    decide
  · rw [reaps.others self]

theorem Reaps.exiting (reaps : Reaps s p t) : t.exiting = s.exiting := by
  rw [reaps.after]
  rfl

theorem Reaps.cur (reaps : Reaps s p t) : t.cur = s.cur := by
  rw [reaps.after]
  rfl

theorem Seated.reap (seated : Seated s) (user : s.user) (reaps : Reaps s p t) : Seated t := by
  have notInit : (0 : Nat) ≠ p := by
    intro same
    have alive := seated.init
    rw [same, reaps.zombie] at alive
    exact not_live_zombie alive
  constructor
  · rw [reaps.cur]
    exact seated.cur
  · exact (reaps.live_iff 0).mpr seated.init
  · rw [reaps.others notInit]
    exact seated.pid
  · rw [reaps.others notInit]
    exact seated.pptr
  · intro still
    exact absurd (reaps.exiting.symm.trans still) (user_awake user)

theorem Sound.reap (sound : Sound s) (user : s.user) (reaps : Reaps s p t) : Sound t := by
  have each := reaps.live_iff
  have kept : ∀ r < PTABSIZE, holds t r → holds s r ∧ (t.ptab r).page = (s.ptab r).page := by
    intro r _ held
    have alive := (each r).mp held.1
    have other : r ≠ p := by
      intro same
      rw [same, reaps.zombie] at alive
      exact not_live_zombie alive
    exact ⟨⟨alive, fun exits => user_awake user exits.1⟩, by rw [reaps.others other]⟩
  have pfree : t.pfree = s.pfree := by
    rw [reaps.after]
    rfl
  obtain ⟨nodup, free, apart⟩ := sound.pages pfree kept
  constructor
  · exact sound.toSeated.reap user reaps
  · rw [liveCount_congr (fun r _ => each r), ← sound.nproc, reaps.after]
    rfl
  · exact nodup
  · exact free
  · exact apart

/-! ## Runs -/

instance (s : State) : Decidable (spared s) := by unfold spared; infer_instance

/-- An exit does not meet the slip. -/
def tidy (s : State) : Action → Prop
  | .exit _ => spared s
  | _ => True

instance (s : State) (a : Action) : Decidable (tidy s a) := by
  cases a <;> unfold tidy <;> infer_instance

theorem Sound.step {a : Action} (sound : Sound s) (fine : tidy s a) (step : a.apply s = some t) :
    Sound t := by
  rcases apply_cases step with quiet | ⟨val, rfl, user, done⟩ | ⟨_, exiting, same⟩ |
    ⟨_, p, _, user, forks⟩ | ⟨p, user, reaps⟩
  · exact sound.quiet quiet
  · exact sound.exit user fine done
  · exact sound.ends exiting (same ▸ signal_parent_ends)
  · exact sound.fork user forks
  · exact sound.reap user reaps

/-- Only a process that exits leaves an empty slot behind. -/
theorem emptied {a : Action} (sound : Sound s) (fine : tidy s a) (step : a.apply s = some t)
    (bound : p < PTABSIZE) (alive : live (s.ptab p).status) (empty : (t.ptab p).status = .empty) :
    a = .gone ∧ p = s.cur := by
  have dead : ¬ live (t.ptab p).status := by
    rw [empty]
    exact not_live_empty
  rcases apply_cases step with quiet | ⟨val, rfl, user, done⟩ | ⟨gone, exiting, same⟩ |
    ⟨_, r, _, user, forks⟩ | ⟨r, user, reaps⟩
  · exact absurd ((quiet.live_iff p).mpr alive) dead
  · have leaves := doexit_leaves (doexit_notInit sound.toSeated done) user.2 done
    by_cases self : p = s.cur
    · have running : (t.ptab t.cur).status = .running := leaves.status.trans user.2
      rw [leaves.cur, ← self, empty] at running
      cases running
    · exact absurd ((leaves.live_iff fine bound self).mpr alive) dead
  · refine ⟨gone, ?_⟩
    by_contra other
    have ends : Ends s t := same ▸ signal_parent_ends
    exact dead ((ends.others p other).same.live_iff.mpr alive)
  · by_cases self : p = r
    · rw [self, forks.slot] at alive
      exact absurd alive not_live_empty
    · by_cases mine : p = s.cur
      · rw [mine, forks.parent] at empty
        cases empty
      · rw [forks.others p self mine] at empty
        rw [empty] at alive
        exact absurd alive not_live_empty
  · by_cases self : p = r
    · rw [self, reaps.zombie] at alive
      exact absurd alive not_live_zombie
    · rw [reaps.others self] at empty
      rw [empty] at alive
      exact absurd alive not_live_empty

end Counting

open Run

/-- Init alone, in its page. -/
def boot [Machine] (page : Nat) (pfree : List Nat) : State where
  ptab := fun p => if p = 0 then { blank 1 1 page with status := .running, pptr := 0 }
    else { blank 0 0 0 with status := .empty }
  udata := fun _ => ⟨0, 0, 0, 0, fun _ => none⟩
  cur := 0
  nproc := 1
  nextpid := 1
  ticks_this_dsecond := 0
  pfree := pfree
  exiting := false

/-- Three entries, and the signals right behind the priority. -/
@[reducible] def small : Machine := ⟨3, 1, 65536, true, 1, Or.inl rfl, by decide⟩

end Family
