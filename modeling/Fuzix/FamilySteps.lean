import Fuzix.FamilyExit

/-!
# What a step can do

A step forks, begins or ends an exit, reaps a dead child, or leaves every process the
process it was.
-/

set_option linter.unusedSectionVars false

namespace Family

open Table
open Sched (Status NSIGS SIGHUP SIGKILL SIGCHLD SIGCONT SIGSTOP SIGTSTP SIGTTIN SIGTTOU stopper)

variable [Machine] {s t : State} {p n : Nat}

/-- A step after which every process is still there, and no other. -/
structure Quiet (s t : State) : Prop where
  same : ∀ p, (s.ptab p).status ≠ .empty → Same (s.ptab p) (t.ptab p)
  empty : ∀ p, (s.ptab p).status = .empty → (t.ptab p).status = .empty
  nproc : s.nproc < 65536 → t.nproc = s.nproc
  pfree : t.pfree = s.pfree
  exiting : t.exiting = s.exiting
  cur : s.exiting = true → t.cur = s.cur
  running : s.exiting = true → s.me.status = .running → (t.ptab s.cur).status = .running
  bound : s.cur < PTABSIZE → t.cur < PTABSIZE

theorem Quiet.refl (s : State) : Quiet s s :=
  ⟨fun _ _ => Same.refl _, fun _ empty => empty, fun _ => rfl, rfl, rfl, fun _ => rfl,
    fun _ running => running, fun bound => bound⟩

theorem quiet_posted (posted : ∀ p, Posted (s.ptab p) (t.ptab p)) (nproc : t.nproc = s.nproc)
    (pfree : t.pfree = s.pfree) (exiting : t.exiting = s.exiting) (cur : t.cur = s.cur) :
    Quiet s t := by
  constructor
  · exact fun p _ => (posted p).same
  · exact fun p empty => (posted p).same.empty_iff.mpr empty
  · exact fun _ => nproc
  · exact pfree
  · exact exiting
  · exact fun _ => cur
  · intro _ running
    rcases (posted s.cur).status with same | ⟨asleep, _⟩
    · exact same.trans running
    · have running' : (s.ptab s.cur).status = .running := running
      rw [running'] at asleep
      rcases asleep with no | no <;> cases no
  · exact fun bound => cur ▸ bound

theorem quiet_modify {f : Entry → Entry} (user : s.user)
    (same : Same (s.ptab p) (f (s.ptab p))) : Quiet s (modify s p f) := by
  have each : ∀ r, Same (s.ptab r) ((modify s p f).ptab r) := by
    intro r
    by_cases self : r = p
    · subst self
      rw [modify_same]
      exact same
    · rw [modify_ne _ self]
      exact Same.refl _
  exact ⟨fun r _ => each r, fun r empty => (each r).empty_iff.mpr empty, fun _ => rfl, rfl, rfl,
    fun _ => rfl, fun exiting => absurd (user.1.symm.trans exiting) Bool.false_ne_true, fun bound => bound⟩

/-! ## The calls that touch one process -/

theorem live_running : live .running := by decide

theorem same_status {q : Entry} {status : Status} (running : q.status = .running)
    (alive : live status) : Same q { q with status := status } :=
  ⟨rfl, rfl, rfl, rfl, Or.inr ⟨running ▸ live_running, alive⟩⟩

theorem same_rest {q q' : Entry} (pid : q'.pid = q.pid) (pptr : q'.pptr = q.pptr)
    (exitval : q'.exitval = q.exitval) (page : q'.page = q.page) (status : q'.status = q.status) :
    Same q q' := ⟨pid, pptr, exitval, page, Or.inl status⟩

theorem same_own {q : Entry} (running : q.status = .running) (o : Own) : Same q (o.apply q) := by
  have alive : ∀ status : Status, live status → q.status = q.status ∨ live q.status ∧ live status :=
    fun _ _ => Or.inl rfl
  cases o with
  | psleep event => exact ⟨rfl, rfl, rfl, rfl, Or.inr ⟨running ▸ live_running, by
      show live .sleep
      decide⟩⟩
  | stop sig => exact ⟨rfl, rfl, rfl, rfl, Or.inr ⟨running ▸ live_running, by
      show live .stopped
      decide⟩⟩
  | resched => exact ⟨rfl, rfl, rfl, rfl, Or.inr ⟨running ▸ live_running, by
      show live .ready
      decide⟩⟩
  | raise sig => exact (posted_ssig sig).same
  | signal sig ign =>
    unfold Own.apply
    dsimp only
    split
    · split
      · exact Same.refl q
      · exact same_rest rfl rfl rfl rfl rfl
    · exact same_rest rfl rfl rfl rfl rfl
  | _ => exact same_rest rfl rfl rfl rfl rfl

/-! ## fork -/

/-- A child in slot `p`. -/
structure Forks (s : State) (p : Nat) (t : State) : Prop where
  bound : p < PTABSIZE
  slot : (s.ptab p).status = .empty
  fresh : fresh s (t.ptab p).pid
  status : (t.ptab p).status = .running
  pptr : (t.ptab p).pptr = s.cur
  pfree : s.pfree = (t.ptab p).page :: t.pfree
  nproc : t.nproc = (s.nproc + 1) % 65536
  exiting : t.exiting = s.exiting
  cur : t.cur = p
  parent : t.ptab s.cur = { s.me with status := .ready }
  others : ∀ r, r ≠ p → r ≠ s.cur → t.ptab r = s.ptab r

theorem freeSlot_some (found : freeSlot s = some p) : p < PTABSIZE ∧ (s.ptab p).status = .empty := by
  have member := List.mem_of_find?_eq_some found
  have empty := List.find?_some found
  exact ⟨List.mem_range.mp member, of_decide_eq_true empty⟩

theorem pickPid_fresh {fuel pid : Nat} (picked : pickPid s fuel n = some pid) : fresh s pid := by
  induction fuel generalizing n with
  | zero => cases picked
  | succ fuel ih =>
    unfold pickPid at picked
    split at picked
    · rename_i free
      injection picked with same
      rw [← same]
      exact free
    · exact ih picked

/-- The entry of a child. -/
def childOf (s : State) (pid page : Nat) : Entry :=
  let q := { blank pid s.me.pgrp page with status := .running, pptr := s.cur }.setIgnored s.me.ignored
  { q with area := put q.area 0 (BitVec.ofInt 16 MAXTICKS) }

theorem newproc_ptab {pid page : Nat} (apart : s.cur ≠ p)
    (start : t.ptab = put s.ptab p (blank pid s.me.pgrp page)) (cur : t.cur = s.cur) :
    (newproc p (modify t t.cur (fun q => { q with status := .ready }))).ptab =
      put (put s.ptab s.cur { s.me with status := .ready }) p (childOf s pid page) := by
  funext r
  have parent : t.ptab s.cur = s.me := by
    rw [start, put_ne _ _ apart]
    rfl
  have slot : t.ptab p = blank pid s.me.pgrp page := by
    rw [start, put_same]
  unfold newproc modify State.me
  dsimp only
  rw [cur, put_same, parent]
  by_cases self : r = p
  · subst self
    rw [put_same, put_same, put_same, put_ne _ _ (Ne.symm apart), slot]
    rfl
  · rw [put_ne _ _ self, put_ne _ _ self, put_ne _ _ self]
    by_cases mine : r = s.cur
    · subst mine
      rw [put_same, put_same]
      rfl
    · rw [put_ne _ _ mine, put_ne _ _ mine, start, put_ne _ _ self]

/-- The table after `dofork` has failed. -/
theorem undone_ptab {q : Entry} (apart : s.cur ≠ p) (start : t.ptab = put s.ptab p q)
    (cur : t.cur = s.cur) :
    (modify (pagemap_free p (modify (modify t t.cur (fun q => { q with status := .ready })) t.cur
      (fun q => { q with status := .running }))) p (fun q => { q with status := .empty })).ptab =
      put (put s.ptab s.cur { s.me with status := .running }) p { q with status := .empty } := by
  funext r
  have parent : t.ptab s.cur = s.me := by
    rw [start, put_ne _ _ apart]
    rfl
  have slot : t.ptab p = q := by
    rw [start, put_same]
  unfold modify pagemap_free
  dsimp only
  rw [cur, put_same, put_put, parent]
  by_cases self : r = p
  · subst self
    rw [put_same, put_same, put_ne _ _ (Ne.symm apart), slot]
  · rw [put_ne _ _ self, put_ne _ _ self]
    by_cases mine : r = s.cur
    · subst mine
      rw [put_same, put_same]
    · rw [put_ne _ _ mine, put_ne _ _ mine, start, put_ne _ _ self]

theorem undone_pfree {q : Entry} (apart : s.cur ≠ p) (start : t.ptab = put s.ptab p q)
    (cur : t.cur = s.cur) (f g : Entry → Entry) :
    (pagemap_free p (modify (modify t t.cur f) t.cur g)).pfree = q.page :: t.pfree := by
  unfold pagemap_free modify
  dsimp only
  rw [cur, put_ne _ _ (Ne.symm apart), put_ne _ _ (Ne.symm apart), start, put_same]

theorem put_running (user : s.user) : put s.ptab s.cur { s.me with status := .running } = s.ptab := by
  have same : { s.me with status := .running } = s.ptab s.cur := by
    rw [← user.2]
    rfl
  rw [same, put_self]

theorem slot_others {q : Entry} (slot : (s.ptab p).status = .empty)
    (table : t.ptab = put s.ptab p q) (r : Nat) (filled : (s.ptab r).status ≠ .empty) :
    t.ptab r = s.ptab r := by
  have other : r ≠ p := fun same => filled (same ▸ slot)
  rw [table, put_ne _ _ other]

theorem quiet_slot {q : Entry} (slot : (s.ptab p).status = .empty) (still : q.status = .empty)
    (user : s.user) (table : t.ptab = put s.ptab p q) (nproc : s.nproc < 65536 → t.nproc = s.nproc)
    (pfree : t.pfree = s.pfree) (exiting : t.exiting = s.exiting) (cur : t.cur = s.cur) :
    Quiet s t := by
  have others : ∀ r, r ≠ p → Same (s.ptab r) (t.ptab r) := by
    intro r other
    rw [table, put_ne _ _ other]
    exact Same.refl _
  constructor
  · exact fun r filled => others r (fun same => filled (same ▸ slot))
  · intro r empty
    by_cases self : r = p
    · rw [self, table, put_same]
      exact still
    · exact (others r self).empty_iff.mpr empty
  · exact nproc
  · exact pfree
  · exact exiting
  · exact fun _ => cur
  · exact fun exiting => absurd (user.1.symm.trans exiting) Bool.false_ne_true
  · exact fun bound => cur ▸ bound

/-- What `ptab_alloc` has done when it finds a slot and a page. -/
structure Allocates (s : State) (p pid page : Nat) (m : State) : Prop where
  bound : p < PTABSIZE
  slot : (s.ptab p).status = .empty
  fresh : fresh s pid
  pfree : s.pfree = page :: m.pfree
  nproc : m.nproc = (s.nproc + 1) % 65536
  ptab : m.ptab = put s.ptab p (blank pid s.me.pgrp page)
  cur : m.cur = s.cur
  exiting : m.exiting = s.exiting

theorem ptab_alloc_cases {m : State} {found : Option Nat} (user : s.user)
    (done : ptab_alloc s = some (m, found)) :
    (found = none ∧ Quiet s m ∧ ∀ r, (s.ptab r).status ≠ .empty → m.ptab r = s.ptab r) ∨
      ∃ p pid page, found = some p ∧ Allocates s p pid page m := by
  unfold ptab_alloc at done
  cases slot : freeSlot s with
  | none =>
    rw [slot] at done
    injection done with same
    injection same with state none'
    subst state
    exact Or.inl ⟨none'.symm, Quiet.refl s, fun _ _ => rfl⟩
  | some p =>
    obtain ⟨bound, empty⟩ := freeSlot_some slot
    rw [slot] at done
    obtain ⟨pid, picked, result⟩ := Option.map_eq_some_iff.mp done
    cases pages : s.pfree with
    | nil =>
      left
      rw [pages] at result
      injection result with state none'
      have table : m.ptab = put s.ptab p { blank pid 0 0 with status := .empty } := by
        rw [← state]
      refine ⟨none'.symm, quiet_slot empty rfl user table ?_ ?_ ?_ ?_, slot_others empty table⟩
      · intro _
        rw [← state]
      · rw [← state, pages]
      · rw [← state]
      · rw [← state]
    | cons page rest =>
      right
      rw [pages] at result
      injection result with state some'
      refine ⟨p, pid, page, some'.symm, bound, empty, pickPid_fresh picked, ?_, ?_, ?_, ?_, ?_⟩
      · rw [← state, pages]
      · rw [← state]
      · rw [← state]
      · rw [← state]
      · rw [← state]

/-- A fork makes a child or leaves every process but its own entry alone. -/
theorem fork_cases {copied : Bool} (user : s.user) (done : fork copied s = some t) :
    (Quiet s t ∧ ∀ r, (s.ptab r).status ≠ .empty → t.ptab r = s.ptab r) ∨ ∃ p, Forks s p t := by
  unfold fork at done
  obtain ⟨⟨m, found⟩, begun, result⟩ := Option.map_eq_some_iff.mp done
  rcases ptab_alloc_cases user begun with ⟨none', quiet, others⟩ | ⟨p, pid, page, some', alloc⟩
  · left
    subst none'
    dsimp only at result
    rw [← result]
    exact ⟨quiet, others⟩
  · have apart : s.cur ≠ p := by
      intro same
      have running : (s.ptab s.cur).status = .running := user.2
      rw [same, alloc.slot] at running
      cases running
    subst some'
    dsimp only at result
    cases copied with
    | false =>
      left
      rw [if_neg Bool.false_ne_true] at result
      have table := undone_ptab apart alloc.ptab alloc.cur
      rw [put_running user] at table
      have pages := undone_pfree apart alloc.ptab alloc.cur (fun q => { q with status := .ready })
        (fun q => { q with status := .running })
      have table' : t.ptab = _ := (congrArg State.ptab result).symm.trans table
      refine ⟨quiet_slot alloc.slot ?_ user table' ?_ ?_ ?_ ?_, slot_others alloc.slot table'⟩
      · rfl
      · intro small
        have count : t.nproc = (m.nproc + 65535) % 65536 := by
          rw [← result]
          rfl
        rw [count, alloc.nproc]
        omega
      · rw [alloc.pfree, ← result]
        exact pages
      · rw [← alloc.exiting, ← result]
        rfl
      · rw [← alloc.cur, ← result]
        rfl
    | true =>
      right
      rw [if_pos rfl] at result
      have table : t.ptab = _ :=
        (congrArg State.ptab result).symm.trans (newproc_ptab apart alloc.ptab alloc.cur)
      have child : t.ptab p = childOf s pid page := by
        rw [table, put_same]
      refine ⟨p, alloc.bound, alloc.slot, ?_, ?_, ?_, ?_, ?_, ?_, ?_, ?_, ?_⟩
      · rw [child]
        exact alloc.fresh
      · rw [child]
        rfl
      · rw [child]
        rfl
      · rw [child, alloc.pfree, ← result]
        rfl
      · rw [← alloc.nproc, ← result]
        rfl
      · rw [← alloc.exiting, ← result]
        rfl
      · rw [← result]
        rfl
      · rw [table, put_ne _ _ apart, put_same]
      · intro r other notMe
        rw [table, put_ne _ _ other, put_ne _ _ notMe]

/-! ## wait -/

/-- The dead child in slot `p` is gone, and its times are added. -/
structure Reaps (s : State) (p : Nat) (t : State) : Prop where
  bound : p < PTABSIZE
  zombie : (s.ptab p).status = .zombie
  pptr : (s.ptab p).pptr = s.cur
  after : t = modifyUdata (modify s p (fun q => { q with status := .empty })) s.cur
    (fun u => { u with
      cutime := u.cutime + (s.ptab p).utime
      cstime := u.cstime + (s.ptab p).stime })

theorem Reaps.others (reaps : Reaps s p t) {r : Nat} (other : r ≠ p) : t.ptab r = s.ptab r := by
  rw [reaps.after]
  exact modify_ne (s := s) (fun q => { q with status := .empty }) other

theorem Reaps.slot (reaps : Reaps s p t) : t.ptab p = { s.ptab p with status := .empty } := by
  rw [reaps.after]
  exact modify_same s p (fun q => { q with status := .empty })

/-- What one round of `_waitpid` does, by its answer. -/
theorem waitRound_cases (pid : Int) (nohang untraced : Bool) (user : s.user) :
    (∃ p, Reaps s p (waitRound pid nohang untraced s).1 ∧ wanted s pid p ∧
      (waitRound pid nohang untraced s).2 = .child (s.ptab p).pid (s.ptab p).exitval) ∨
    Quiet s (waitRound pid nohang untraced s).1 ∧
      (∀ p, (s.ptab p).status = .zombie → (waitRound pid nohang untraced s).1.ptab p = s.ptab p) ∧
      (∀ child status, (waitRound pid nohang untraced s).2 ≠ .child child status) ∧
      (untraced = false → ∀ p < PTABSIZE, wanted s pid p → (s.ptab p).status ≠ .zombie) := by
  unfold waitRound
  split
  · rename_i p found
    have member := List.mem_range.mp (List.mem_of_find?_eq_some found)
    have chosen := List.find?_some found
    rw [decide_eq_true_eq] at chosen
    dsimp only
    by_cases zombie : (s.ptab p).status = .zombie
    · left
      rw [if_pos zombie]
      exact ⟨p, ⟨member, zombie, chosen.1.1, rfl⟩, chosen.1, rfl⟩
    · right
      rw [if_neg zombie]
      have kept : Same (s.ptab p) { s.ptab p with event := 0 } := same_rest rfl rfl rfl rfl rfl
      refine ⟨quiet_modify (f := fun q => { q with event := 0 }) user kept, fun r dead => ?_,
        fun _ _ no => ?_, ?_⟩
      · have other : r ≠ p := by
          intro same
          rw [same] at dead
          exact zombie dead
        exact modify_ne (s := s) (fun q => { q with event := 0 }) other
      · cases no
      · intro traced
        rcases chosen.2 with dead | ⟨_, untraced⟩
        · exact absurd dead zombie
        · rw [traced] at untraced
          cases untraced
  · rename_i missing
    right
    have none' : ∀ p < PTABSIZE, wanted s pid p → (s.ptab p).status ≠ .zombie := by
      intro p bound mine zombie
      have no := List.find?_eq_none.mp missing p (List.mem_range.mpr bound)
      exact no (decide_eq_true ⟨mine, Or.inl zombie⟩)
    by_cases hang : nohang = true
    · rw [if_pos hang]
      exact ⟨Quiet.refl s, fun _ _ => rfl, fun _ _ no => (by cases no), fun _ => none'⟩
    · rw [if_neg hang]
      have awake : ∀ r, (s.ptab r).status = .zombie → r ≠ s.cur := by
        intro r dead same
        have running : (s.ptab s.cur).status = .running := user.2
        rw [← same, dead] at running
        cases running
      refine ⟨quiet_modify user ?_, fun r dead => modify_ne _ (awake r dead),
        fun _ _ no => (by cases no), fun _ => none'⟩
      exact ⟨rfl, rfl, rfl, rfl, Or.inr ⟨user.2 ▸ live_running, by
        show live .sleep
        decide⟩⟩

/-! ## All steps -/

theorem frame_each (f : Nat → Entry → Entry) : Frame s (eachProc f s) :=
  ⟨rfl, rfl, rfl, rfl, rfl, rfl, rfl⟩

theorem quiet_frame (frame : Frame s t) (posted : ∀ p, Posted (s.ptab p) (t.ptab p)) : Quiet s t :=
  quiet_posted posted frame.nproc frame.pfree frame.exiting frame.cur

theorem charge_same (insys : Bool) : (charge insys s).ptab = s.ptab ∧
    (charge insys s).cur = s.cur ∧ (charge insys s).nproc = s.nproc ∧
    (charge insys s).pfree = s.pfree ∧ (charge insys s).exiting = s.exiting ∧
    (charge insys s).ticks_this_dsecond = s.ticks_this_dsecond := by
  unfold charge
  split
  · exact ⟨rfl, rfl, rfl, rfl, rfl, rfl⟩
  · exact ⟨rfl, rfl, rfl, rfl, rfl, rfl⟩

theorem quiet_timer (insys : Bool) : Quiet s (timer_interrupt insys s) := by
  obtain ⟨table, cur, nproc, pfree, exiting, _⟩ := charge_same (s := s) insys
  unfold timer_interrupt
  dsimp only
  generalize charge insys s = u at *
  split
  · refine quiet_posted (fun p => ?_) nproc pfree exiting cur
    rw [← table]
    exact posted_each (fun _ _ => posted_alarms.trans posted_timeouts) p
  · refine quiet_posted (fun p => ?_) nproc pfree exiting cur
    dsimp only
    rw [table]
    exact Posted.refl _

theorem quiet_switch (idle : s.idle) (bound : p < PTABSIZE) (ready : (s.ptab p).status = .ready) :
    Quiet s (switchin p s) := by
  have each : ∀ r, Same (s.ptab r) ((switchin p s).ptab r) := by
    intro r
    by_cases self : r = p
    · subst self
      have entry : (switchin r s).ptab r = { s.ptab r with status := .running } :=
        modify_same s r (fun q => { q with status := .running })
      rw [entry]
      refine ⟨rfl, rfl, rfl, rfl, Or.inr ⟨?_, live_running⟩⟩
      rw [ready]
      decide
    · unfold switchin
      rw [modify_ne _ self]
      exact Same.refl _
  have awake : s.exiting = true → False := by
    intro exiting
    rw [idle.1] at exiting
    cases exiting
  exact ⟨fun r _ => each r, fun r empty => (each r).empty_iff.mpr empty, fun _ => rfl, rfl, rfl,
    fun exiting => (awake exiting).elim, fun exiting => (awake exiting).elim, fun _ => bound⟩

theorem quiet_kill (pid : Int) (sig : Nat) (allowed : Nat → Bool) :
    Quiet s (kill pid sig allowed s) := by
  refine quiet_frame ?_ (posted_kill pid sig allowed)
  unfold kill
  split
  · exact Frame.refl s
  · exact frame_each _

/-- A call of `_waitpid` is a round of its loop, or there are no children. -/
theorem waitpid_round (pid : Int) (nohang untraced : Bool) :
    (∃ pid', waitpid pid nohang untraced s = waitRound pid' nohang untraced s) ∨
      waitpid pid nohang untraced s = (s, .error ECHILD) := by
  unfold waitpid
  split
  · exact Or.inl ⟨_, rfl⟩
  · exact Or.inr rfl

theorem apply_cases {a : Action} (step : a.apply s = some t) :
    Quiet s t ∨
    (∃ val, a = .exit val ∧ s.user ∧ doexit val s = some t) ∨
    (a = .gone ∧ s.exiting = true ∧ t = signal_parent s) ∨
    (∃ copied p, a = .fork copied ∧ s.user ∧ Forks s p t) ∨
    ∃ p, s.user ∧ Reaps s p t := by
  have round : ∀ pid nohang untraced, s.user → (waitRound pid nohang untraced s).1 = t →
      Quiet s t ∨ ∃ p, s.user ∧ Reaps s p t := by
    intro pid nohang untraced user same
    rcases waitRound_cases pid nohang untraced user with ⟨p, reaps, _⟩ | ⟨quiet, _⟩
    · exact Or.inr ⟨p, user, same ▸ reaps⟩
    · exact Or.inl (same ▸ quiet)
  cases a with
  | own o =>
    obtain ⟨⟨user, _⟩, same⟩ := Option.ite_none_right_eq_some.mp step
    injection same with same
    exact Or.inl (same ▸ quiet_modify user (same_own user.2 o))
  | fork copied =>
    obtain ⟨user, done⟩ := Option.ite_none_right_eq_some.mp step
    rcases fork_cases user done with ⟨quiet, _⟩ | ⟨p, forks⟩
    · exact Or.inl quiet
    · exact Or.inr (Or.inr (Or.inr (Or.inl ⟨copied, p, rfl, user, forks⟩)))
  | exit val =>
    obtain ⟨user, done⟩ := Option.ite_none_right_eq_some.mp step
    exact Or.inr (Or.inl ⟨val, rfl, user, done⟩)
  | gone =>
    obtain ⟨exiting, same⟩ := Option.ite_none_right_eq_some.mp step
    injection same with same
    exact Or.inr (Or.inr (Or.inl ⟨rfl, exiting, same.symm⟩))
  | waitpid pid nohang untraced =>
    obtain ⟨user, same⟩ := Option.ite_none_right_eq_some.mp step
    injection same with same
    rcases waitpid_round (s := s) pid nohang untraced with ⟨pid', again⟩ | childless
    · rw [again] at same
      rcases round _ _ _ user same with quiet | reaps
      · exact Or.inl quiet
      · exact Or.inr (Or.inr (Or.inr (Or.inr reaps)))
    · rw [childless] at same
      exact Or.inl (same ▸ Quiet.refl s)
  | waitAgain pid nohang untraced =>
    obtain ⟨user, same⟩ := Option.ite_none_right_eq_some.mp step
    injection same with same
    rcases round _ _ _ user same with quiet | reaps
    · exact Or.inl quiet
    · exact Or.inr (Or.inr (Or.inr (Or.inr reaps)))
  | kill pid sig allowed =>
    obtain ⟨_, same⟩ := Option.ite_none_right_eq_some.mp step
    injection same with same
    exact Or.inl (same ▸ quiet_kill pid sig allowed)
  | sgrpsig pgrp sig =>
    injection step with same
    exact Or.inl (same ▸ quiet_frame (frame_each _) (posted_sgrpsig pgrp sig))
  | timer insys =>
    injection step with same
    exact Or.inl (same ▸ quiet_timer insys)
  | wakeup event =>
    injection step with same
    exact Or.inl (same ▸ quiet_frame (frame_each _) (posted_wakeup event))
  | switch p =>
    obtain ⟨⟨idle, bound, ready⟩, same⟩ := Option.ite_none_right_eq_some.mp step
    injection same with same
    exact Or.inl (same ▸ quiet_switch idle bound ready)

/-- The end of an exit: a zombie, or an empty slot if the parent does not care. -/
structure Ends (s t : State) : Prop where
  cur : t.cur = s.cur
  exiting : t.exiting = false
  pfree : t.pfree = s.pfree
  nproc : t.nproc = (s.nproc + 65535) % 65536
  others : ∀ p, p ≠ s.cur → Posted (s.ptab p) (t.ptab p)
  status : (t.ptab s.cur).status =
    if has (s.ptab s.me.pptr).ignored SIGCHLD then .empty else .zombie

theorem signal_parent_ends : Ends s (signal_parent s) := by
  unfold signal_parent
  dsimp only
  constructor
  · split
    · rfl
    · rfl
  · rfl
  · split
    · rfl
    · rfl
  · split
    · rfl
    · rfl
  · intro p other
    split
    · rw [modify_ne _ other]
      exact Posted.refl _
    · rw [modify_ne _ other]
      exact posted_tell p
  · split
    · rw [modify_same]
    · rw [modify_same]

end Family
