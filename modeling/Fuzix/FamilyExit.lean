import Fuzix.FamilyKept

/-!
# The loop of exit

`doexit` walks over the process table once. What it makes of the entry of a process
depends on that entry, on the process that exits and on whether init ignores `SIGCHLD`.
-/

set_option linter.unusedSectionVars false

namespace Family

open Table
open Sched (Status NSIGS SIGHUP SIGKILL SIGCHLD SIGCONT SIGSTOP SIGTSTP SIGTTIN SIGTTOU stopper)

variable [Machine] {s t : State} {p n : Nat}

/-- Only the process table differs. -/
structure Frame (s t : State) : Prop where
  udata : t.udata = s.udata
  cur : t.cur = s.cur
  nproc : t.nproc = s.nproc
  nextpid : t.nextpid = s.nextpid
  ticks : t.ticks_this_dsecond = s.ticks_this_dsecond
  pfree : t.pfree = s.pfree
  exiting : t.exiting = s.exiting

theorem Frame.refl (s : State) : Frame s s := ⟨rfl, rfl, rfl, rfl, rfl, rfl, rfl⟩

theorem Frame.trans {u : State} (first : Frame s t) (second : Frame t u) : Frame s u :=
  ⟨second.udata.trans first.udata, second.cur.trans first.cur, second.nproc.trans first.nproc,
    second.nextpid.trans first.nextpid, second.ticks.trans first.ticks,
    second.pfree.trans first.pfree, second.exiting.trans first.exiting⟩

theorem frame_modify (s : State) (p : Nat) (f : Entry → Entry) : Frame s (modify s p f) :=
  ⟨rfl, rfl, rfl, rfl, rfl, rfl, rfl⟩

theorem frame_tell (s : State) (p : Nat) : Frame s (tell p s) :=
  ⟨rfl, rfl, rfl, rfl, rfl, rfl, rfl⟩

theorem modify_same (s : State) (p : Nat) (f : Entry → Entry) :
    (modify s p f).ptab p = f (s.ptab p) := put_same _ _ _

theorem modify_ne (f : Entry → Entry) {r : Nat} (other : r ≠ p) :
    (modify s p f).ptab r = s.ptab r := put_ne _ _ other

/-! ## Telling the parent -/

theorem posted_tell (r : Nat) : Posted (s.ptab r) ((tell p s).ptab r) := by
  have signal : Posted (s.ptab r) ((modify s p (ssig SIGCHLD)).ptab r) := by
    by_cases self : r = p
    · subst self
      rw [modify_same]
      exact posted_ssig _
    · rw [modify_ne _ self]
      exact Posted.refl _
  exact signal.trans (posted_wakeup _ r)

theorem wakeup_ne {event r : Nat} (other : (s.ptab r).wait ≠ event) :
    (wakeup event s).ptab r = s.ptab r := by
  unfold wakeup eachProc
  dsimp only
  split
  · exact if_neg (fun woken => other woken.2)
  · rfl

theorem tell_other {r : Nat} (other : r ≠ p) (event : (s.ptab r).wait ≠ ptabEvent p) :
    (tell p s).ptab r = s.ptab r := by
  have same : (modify s p (ssig SIGCHLD)).ptab r = s.ptab r := modify_ne _ other
  unfold tell
  rw [wakeup_ne (by rw [same]; exact event), same]

/-- A status that no wakeup changes. -/
def steady (status : Status) : Prop := status ≠ .sleep ∧ status ≠ .ready

instance (status : Status) : Decidable (steady status) := by unfold steady; infer_instance

theorem pwake_steady {q : Entry} (still : steady q.status) : pwake q = q := by
  unfold pwake
  split
  · rename_i asleep
    exact absurd asleep still.1
  · rename_i ready
    exact absurd ready still.2
  · rfl

theorem wakeup_steady {event r : Nat} (still : steady (s.ptab r).status) :
    (wakeup event s).ptab r = s.ptab r := by
  unfold wakeup eachProc
  dsimp only
  rw [pwake_steady still, ite_self, ite_self]

theorem tell_steady {r : Nat} (other : r ≠ p) (still : steady (s.ptab r).status) :
    (tell p s).ptab r = s.ptab r := by
  have same : (modify s p (ssig SIGCHLD)).ptab r = s.ptab r := modify_ne _ other
  unfold tell
  rw [wakeup_steady (by rw [same]; exact still), same]

/-- Init ignores `SIGCHLD`. -/
def initIgnores (s : State) : Prop := has (s.ptab 0).ignored SIGCHLD

instance (s : State) : Decidable (initIgnores s) := by unfold initIgnores; infer_instance

/-- What telling init may do to entry `r`. -/
structure Nudged (r : Nat) (q q' : Entry) : Prop where
  posted : Posted q q'
  kept : r ≠ 0 → q.wait ≠ ptabEvent 0 ∨ steady q.status → q' = q

theorem Nudged.refl (r : Nat) (q : Entry) : Nudged r q q := ⟨Posted.refl q, fun _ _ => rfl⟩

theorem nudged_tell (r : Nat) : Nudged r (s.ptab r) ((tell 0 s).ptab r) := by
  refine ⟨posted_tell r, fun other reason => ?_⟩
  rcases reason with event | still
  · exact tell_other other event
  · exact tell_steady other still

/-! ## One round -/

/-- The entry of a child with init for its parent. -/
def adopted (s : State) (q : Entry) : Entry :=
  if q.pptr = s.cur then
    { q with pptr := 0, status := if initIgnores s then .empty else q.status }
  else q

/-- What a member of the process group is sent. -/
def dismissed (s : State) (q : Entry) : Entry :=
  if q.pgrp = s.me.pid then ssig SIGCONT (ssig SIGHUP { q with pgrp := 0 }) else q

theorem initIgnores_modify {f : Entry → Entry} (kept : ∀ q, (f q).ignored = q.ignored) :
    initIgnores (modify s p f) ↔ initIgnores s := by
  unfold initIgnores
  by_cases init : (0 : Nat) = p
  · subst init
    rw [modify_same, kept]
  · rw [modify_ne _ init]

theorem orphan_cases : (orphan s p = s ∧ (s.ptab p).pptr ≠ s.cur) ∨
    (s.ptab p).pptr = s.cur ∧
      (orphan s p = modify s p (adopted s) ∧ initIgnores s ∨
        orphan s p = tell 0 (modify s p (adopted s)) ∧ ¬ initIgnores s) := by
  unfold orphan
  by_cases child : (s.ptab p).pptr = s.cur
  · right
    refine ⟨child, ?_⟩
    rw [if_pos child]
    dsimp only
    have same : has ((modify s p (fun q => { q with pptr := 0 })).ptab 0).ignored SIGCHLD ↔
        initIgnores s := initIgnores_modify (fun q => rfl)
    by_cases ignores : initIgnores s
    · left
      refine ⟨?_, ignores⟩
      rw [if_pos (same.mpr ignores)]
      unfold modify adopted
      dsimp only
      rw [put_put, put_same, if_pos child, if_pos ignores]
    · right
      refine ⟨?_, ignores⟩
      rw [if_neg (fun no => ignores (same.mp no))]
      unfold modify adopted
      dsimp only
      rw [if_pos child, if_neg ignores]
  · left
    exact ⟨if_neg child, child⟩

theorem orphan_frame : Frame s (orphan s p) := by
  rcases orphan_cases (s := s) (p := p) with ⟨same, _⟩ | ⟨_, ⟨gone, _⟩ | ⟨told, _⟩⟩
  · rw [same]
    exact Frame.refl s
  · rw [gone]
    exact frame_modify _ _ _
  · rw [told]
    exact (frame_modify _ _ _).trans (frame_tell _ _)

theorem orphan_self : Nudged p (adopted s (s.ptab p)) ((orphan s p).ptab p) := by
  rcases orphan_cases (s := s) (p := p) with ⟨same, other⟩ | ⟨_, ⟨gone, _⟩ | ⟨told, _⟩⟩
  · rw [same]
    unfold adopted
    rw [if_neg other]
    exact Nudged.refl _ _
  · rw [gone, modify_same]
    exact Nudged.refl _ _
  · have nudged := nudged_tell (s := modify s p (adopted s)) p
    rw [modify_same] at nudged
    rw [told]
    exact nudged

theorem orphan_other {r : Nat} (other : r ≠ p) : Nudged r (s.ptab r) ((orphan s p).ptab r) := by
  rcases orphan_cases (s := s) (p := p) with ⟨same, _⟩ | ⟨_, ⟨gone, _⟩ | ⟨told, _⟩⟩
  · rw [same]
    exact Nudged.refl _ _
  · rw [gone, modify_ne _ other]
    exact Nudged.refl _ _
  · have nudged := nudged_tell (s := modify s p (adopted s)) r
    rw [modify_ne _ other] at nudged
    rw [told]
    exact nudged

theorem hangup_frame : Frame s (hangup s p) := by
  unfold hangup
  split
  · exact frame_modify _ _ _
  · exact Frame.refl s

theorem hangup_self : (hangup s p).ptab p = dismissed s (s.ptab p) := by
  unfold hangup dismissed
  split
  · exact modify_same _ _ _
  · rfl

theorem hangup_other {r : Nat} (other : r ≠ p) : (hangup s p).ptab r = s.ptab r := by
  unfold hangup
  split
  · exact modify_ne _ other
  · rfl

/-! ## All rounds -/

/-- A sleeping or stopped process is made ready for one of three reasons. -/
def Woken (s : State) (p : Nat) (q q' : Entry) : Prop :=
  q'.status = q.status ∨ (q.status = .sleep ∨ q.status = .stopped) ∧ q'.status = .ready ∧
    (p = 0 ∨ q.wait = ptabEvent 0 ∨ q.pgrp = s.me.pid)

/-- What the loop has made of an entry by now; `v` says that it came to the entry. -/
structure Left (s : State) (v : Prop) (p : Nat) (q q' : Entry) : Prop where
  pid : q'.pid = q.pid
  exitval : q'.exitval = q.exitval
  page : q'.page = q.page
  wait : q'.wait = q.wait ∨ q'.wait = 0
  pgrp : ¬ v → q'.pgrp = q.pgrp
  child : v → q.status ≠ .empty → q.pptr = s.cur → q'.pptr = 0
  other : ¬ (v ∧ q.status ≠ .empty ∧ q.pptr = s.cur) → q'.pptr = q.pptr
  released : v → q.pptr = s.cur → initIgnores s → q'.status = .empty
  status : ¬ (v ∧ q.pptr = s.cur ∧ initIgnores s) → Woken s p q q'
  before : ¬ v → q.status = .zombie → p ≠ 0 → q' = q
  after : v → q.status = .zombie → p ≠ 0 → q' = dismissed s (adopted s q)

section Rounds
variable {q q' q'' : Entry} {v w : Prop}

theorem Left.start (s : State) (p : Nat) (q : Entry) : Left s False p q q where
  pid := rfl
  exitval := rfl
  page := rfl
  wait := Or.inl rfl
  pgrp := fun _ => rfl
  child := fun no => no.elim
  other := fun _ => rfl
  released := fun no => no.elim
  status := fun _ => Or.inl rfl
  before := fun _ _ _ => rfl
  after := fun no => no.elim

theorem Left.iff (left : Left s v p q q') (same : v ↔ w) : Left s w p q q' := by
  rw [← propext same]
  exact left

theorem steady_dismissed (dead : q.status = .zombie) :
    steady (dismissed s (adopted s q)).status := by
  have parked : (adopted s q).status = .zombie ∨ (adopted s q).status = .empty := by
    unfold adopted
    split
    · dsimp only
      split
      · exact Or.inr rfl
      · exact Or.inl dead
    · exact Or.inl dead
  have posted : Posted { adopted s q with pgrp := 0 }
      (ssig SIGCONT (ssig SIGHUP { adopted s q with pgrp := 0 })) :=
    (posted_ssig _).trans (posted_ssig _)
  unfold dismissed
  split
  · have same : (ssig SIGCONT (ssig SIGHUP { adopted s q with pgrp := 0 })).status =
        (adopted s q).status := by
      rcases posted.status with same | ⟨asleep, _⟩
      · exact same
      · dsimp only at asleep
        rcases parked with zombie | empty
        · rw [zombie] at asleep
          rcases asleep with no | no <;> cases no
        · rw [empty] at asleep
          rcases asleep with no | no <;> cases no
    rw [same]
    rcases parked with zombie | empty
    · rw [zombie]; decide
    · rw [empty]; decide
  · rcases parked with zombie | empty
    · rw [zombie]; decide
    · rw [empty]; decide

/-- Telling init in a round of another entry. -/
theorem Left.nudge (left : Left s v p q q') (nudged : Nudged p q' q'') : Left s v p q q'' := by
  by_cases same : q'' = q'
  · rw [same]
    exact left
  · have reason : p = 0 ∨ q.wait = ptabEvent 0 := by
      by_contra neither
      obtain ⟨notInit, event⟩ := not_or.mp neither
      refine same (nudged.kept notInit (Or.inl ?_))
      rcases left.wait with kept | cleared
      · rw [kept]
        exact event
      · rw [cleared]
        decide
    have posted := nudged.posted
    constructor
    · exact posted.pid.trans left.pid
    · exact posted.exitval.trans left.exitval
    · exact posted.page.trans left.page
    · rcases posted.wait with kept | cleared
      · rw [kept]
        exact left.wait
      · exact Or.inr cleared
    · exact fun unvisited => posted.pgrp.trans (left.pgrp unvisited)
    · exact fun visited some_entry child => posted.pptr.trans (left.child visited some_entry child)
    · exact fun not_child => posted.pptr.trans (left.other not_child)
    · intro visited child ignores
      have empty := left.released visited child ignores
      rcases posted.status with kept | ⟨asleep, _⟩
      · exact kept.trans empty
      · rw [empty] at asleep
        rcases asleep with no | no <;> cases no
    · intro ordinary
      rcases posted.status with kept | ⟨asleep, ready⟩
      · rcases left.status ordinary with first | ⟨asleep, ready, why⟩
        · exact Or.inl (kept.trans first)
        · exact Or.inr ⟨asleep, kept.trans ready, why⟩
      · right
        refine ⟨?_, ready, ?_⟩
        · rcases left.status ordinary with first | ⟨before, _⟩
          · rw [← first]
            exact asleep
          · exact before
        · rcases reason with init | event
          · exact Or.inl init
          · exact Or.inr (Or.inl event)
    · intro unvisited zombie notInit
      have kept := left.before unvisited zombie notInit
      refine absurd (nudged.kept notInit (Or.inr ?_)) same
      rw [kept, zombie]
      decide
    · intro visited zombie notInit
      have kept := left.after visited zombie notInit
      refine absurd (nudged.kept notInit (Or.inr ?_)) same
      rw [kept]
      exact steady_dismissed zombie

/-- What leaving the process group does. -/
theorem dismissed_posted : ∃ r, dismissed s q = r ∧ r.pid = q.pid ∧ r.exitval = q.exitval ∧
    r.page = q.page ∧ r.pptr = q.pptr ∧ (r.wait = q.wait ∨ r.wait = 0) ∧
    (r.status = q.status ∨
      (q.status = .sleep ∨ q.status = .stopped) ∧ r.status = .ready ∧ q.pgrp = s.me.pid) := by
  refine ⟨_, rfl, ?_⟩
  unfold dismissed
  by_cases group : q.pgrp = s.me.pid
  · rw [if_pos group]
    have posted : Posted { q with pgrp := 0 } (ssig SIGCONT (ssig SIGHUP { q with pgrp := 0 })) :=
      (posted_ssig _).trans (posted_ssig _)
    refine ⟨posted.pid, posted.exitval, posted.page, posted.pptr, posted.wait, ?_⟩
    rcases posted.status with same | ⟨asleep, ready⟩
    · exact Or.inl same
    · exact Or.inr ⟨asleep, ready, group⟩
  · rw [if_neg group]
    exact ⟨rfl, rfl, rfl, rfl, Or.inl rfl, Or.inl rfl⟩

theorem adopted_fields : ∃ r, adopted s q = r ∧ r.pid = q.pid ∧ r.exitval = q.exitval ∧
    r.page = q.page ∧ r.wait = q.wait ∧ r.pgrp = q.pgrp ∧
    (q.pptr = s.cur → r.pptr = 0) ∧ (q.pptr ≠ s.cur → r.pptr = q.pptr) ∧
    (q.pptr = s.cur → initIgnores s → r.status = .empty) ∧
    (¬ (q.pptr = s.cur ∧ initIgnores s) → r.status = q.status) := by
  refine ⟨_, rfl, ?_⟩
  unfold adopted
  by_cases child : q.pptr = s.cur
  · rw [if_pos child]
    refine ⟨rfl, rfl, rfl, rfl, rfl, fun _ => rfl, fun no => absurd child no, ?_, ?_⟩
    · exact fun _ ignores => if_pos ignores
    · exact fun ordinary => if_neg (fun ignores => ordinary ⟨child, ignores⟩)
  · rw [if_neg child]
    exact ⟨rfl, rfl, rfl, rfl, rfl, fun yes => absurd yes child, fun _ => rfl,
      fun yes => absurd yes child, fun _ => rfl⟩

/-- A further change of the status for one of the reasons. -/
theorem Woken.step (woken : Woken s p q q') (again : q''.status = q'.status ∨
    (q'.status = .sleep ∨ q'.status = .stopped) ∧ q''.status = .ready ∧
      (p = 0 ∨ q.wait = ptabEvent 0 ∨ q.pgrp = s.me.pid)) : Woken s p q q'' := by
  rcases again with same | ⟨asleep, ready, why⟩
  · rcases woken with first | ⟨asleep, ready, why⟩
    · exact Or.inl (same.trans first)
    · exact Or.inr ⟨asleep, same.trans ready, why⟩
  · rcases woken with first | ⟨before, _⟩
    · exact Or.inr ⟨first ▸ asleep, ready, why⟩
    · exact Or.inr ⟨before, ready, why⟩

/-- The round of the entry itself. -/
theorem Left.visit (left : Left s False p q q') (some_entry : q.status ≠ .empty)
    (nudged : Nudged p (adopted s q') q'') : Left s True p q (dismissed s q'') := by
  obtain ⟨a, adopt, pid, exitval, page, wait, pgrp, child, other, released, kept⟩ :=
    adopted_fields (s := s) (q := q')
  obtain ⟨r, dismiss, pid', exitval', page', pptr', wait', status'⟩ :=
    dismissed_posted (s := s) (q := q'')
  have parent : q'.pptr = q.pptr := left.other (fun no => no.1)
  rw [adopt] at nudged
  have posted := nudged.posted
  rw [dismiss]
  constructor
  · rw [pid', posted.pid, pid, left.pid]
  · rw [exitval', posted.exitval, exitval, left.exitval]
  · rw [page', posted.page, page, left.page]
  · rcases wait' with same | cleared
    · rw [same]
      rcases posted.wait with same | cleared
      · rw [same, wait]
        exact left.wait
      · exact Or.inr cleared
    · exact Or.inr cleared
  · exact fun no => absurd trivial no
  · intro _ _ mine
    rw [pptr', posted.pptr]
    exact child (parent.trans mine)
  · intro not_child
    rw [pptr', posted.pptr, ← parent]
    exact other (fun mine => not_child ⟨trivial, some_entry, parent ▸ mine⟩)
  · intro _ mine ignores
    have empty := released (parent.trans mine) ignores
    have still : q''.status = .empty := by
      rcases posted.status with same | ⟨asleep, _⟩
      · exact same.trans empty
      · rw [empty] at asleep
        rcases asleep with no | no <;> cases no
    rcases status' with same | ⟨asleep, _⟩
    · exact same.trans still
    · rw [still] at asleep
      rcases asleep with no | no <;> cases no
  · intro ordinary
    have before : Woken s p q q' := left.status (fun no => no.1)
    have first : a.status = q'.status :=
      kept (fun both => ordinary ⟨trivial, parent ▸ both.1, both.2⟩)
    have second : Woken s p q q'' := by
      apply before.step
      rcases posted.status with same | ⟨asleep, ready⟩
      · exact Or.inl (same.trans first)
      · by_cases same : q'' = a
        · exact Or.inl (same ▸ first)
        · refine Or.inr ⟨first ▸ asleep, ready, ?_⟩
          by_contra neither
          obtain ⟨notInit, neither⟩ := not_or.mp neither
          refine same (nudged.kept notInit (Or.inl ?_))
          rw [wait]
          rcases left.wait with kept | cleared
          · rw [kept]
            exact fun event => neither (Or.inl event)
          · rw [cleared]
            decide
    apply second.step
    rcases status' with same | ⟨asleep, ready, group⟩
    · exact Or.inl same
    · refine Or.inr ⟨asleep, ready, Or.inr (Or.inr ?_)⟩
      rw [← group, posted.pgrp, pgrp, left.pgrp (fun no => no)]
  · exact fun no => absurd trivial no
  · intro _ zombie notInit
    have same : q' = q := left.before (fun no => no) zombie notInit
    have dead : steady a.status := by
      by_cases both : q'.pptr = s.cur ∧ initIgnores s
      · rw [released both.1 both.2]
        decide
      · rw [kept both, same, zombie]
        decide
    rw [← dismiss, nudged.kept notInit (Or.inr dead), ← adopt, same]

theorem Left.skip (left : Left s False p q q') (empty : q.status = .empty) : Left s True p q q' := by
  have status : q'.status = .empty := by
    rcases left.status (fun no => no.1) with same | ⟨asleep, _⟩
    · exact same.trans empty
    · rw [empty] at asleep
      rcases asleep with no | no <;> cases no
  constructor
  · exact left.pid
  · exact left.exitval
  · exact left.page
  · exact left.wait
  · exact fun no => absurd trivial no
  · exact fun _ some_entry => absurd empty some_entry
  · exact fun _ => left.other (fun no => no.1)
  · exact fun _ _ _ => status
  · exact fun _ => left.status (fun no => no.1)
  · exact fun no => absurd trivial no
  · intro _ zombie
    rw [empty] at zombie
    cases zombie

/-- What the first rounds of the loop have done. -/
structure Leaving (s : State) (n : Nat) (t : State) : Prop where
  frame : Frame s t
  me : t.me = s.me
  ignores : initIgnores t ↔ initIgnores s
  left : ∀ p, p ≠ s.cur → Left s (p < n) p (s.ptab p) (t.ptab p)

end Rounds

theorem adopted_congr (frame : Frame s t) (ignores : initIgnores t ↔ initIgnores s) (q : Entry) :
    adopted t q = adopted s q := by
  unfold adopted
  rw [frame.cur]
  simp only [ignores]

theorem dismissed_congr (pid : t.me.pid = s.me.pid) (q : Entry) :
    dismissed t q = dismissed s q := by
  unfold dismissed
  rw [pid]

theorem adopted_ignored (q : Entry) : (adopted s q).ignored = q.ignored := by
  unfold adopted
  split
  · rfl
  · rfl

theorem dismissed_ignored (q : Entry) : (dismissed s q).ignored = q.ignored := by
  unfold dismissed
  split
  · exact ((posted_ssig SIGHUP).trans (posted_ssig SIGCONT)).ignored
  · rfl

theorem round_ignored (r : Nat) :
    ((hangup (orphan s n) n).ptab r).ignored = (s.ptab r).ignored := by
  by_cases self : r = n
  · subst self
    rw [hangup_self, dismissed_ignored, orphan_self.posted.ignored, adopted_ignored]
  · rw [hangup_other self]
    exact (orphan_other self).posted.ignored

/-- The entry of the process that exits is not touched. -/
theorem round_me (notInit : s.cur ≠ 0) (running : s.me.status = .running) (other : n ≠ s.cur) :
    (orphan s n).ptab s.cur = s.me ∧ (hangup (orphan s n) n).ptab s.cur = s.me := by
  have still : steady (s.ptab s.cur).status := by
    have running' : (s.ptab s.cur).status = .running := running
    rw [running']
    decide
  have first : (orphan s n).ptab s.cur = s.me :=
    (orphan_other (Ne.symm other)).kept notInit (Or.inr still)
  exact ⟨first, (hangup_other (Ne.symm other)).trans first⟩

theorem Leaving.round (notInit : s.cur ≠ 0) (running : s.me.status = .running)
    (leaving : Leaving s n t) : Leaving s (n + 1) (leaveFamily t n) := by
  have cur := leaving.frame.cur
  by_cases skipped : (t.ptab n).status = .empty ∨ n = t.cur
  · have same : leaveFamily t n = t := if_pos skipped
    rw [same]
    refine ⟨leaving.frame, leaving.me, leaving.ignores, fun p other => ?_⟩
    have left := leaving.left p other
    by_cases self : p = n
    · subst self
      have empty' : (t.ptab p).status = .empty := by
        rcases skipped with empty | me
        · exact empty
        · exact absurd (me.trans cur) other
      have unvisited := left.iff (w := False) (by simp)
      have empty : (s.ptab p).status = .empty := by
        rcases unvisited.status (fun no => no.1) with kept | ⟨_, ready, _⟩
        · exact kept.symm.trans empty'
        · rw [empty'] at ready
          cases ready
      exact (unvisited.skip empty).iff (by simp)
    · exact left.iff (by omega)
  · have step : leaveFamily t n = hangup (orphan t n) n := if_neg skipped
    obtain ⟨some_entry, other⟩ := not_or.mp skipped
    have running' : t.me.status = .running := by
      rw [leaving.me]
      exact running
    obtain ⟨first, second⟩ := round_me (s := t) (cur ▸ notInit) running' other
    rw [step]
    constructor
    · exact leaving.frame.trans (orphan_frame.trans hangup_frame)
    · unfold State.me
      rw [(orphan_frame.trans hangup_frame).cur, second]
      exact leaving.me
    · unfold initIgnores
      rw [round_ignored]
      exact leaving.ignores
    · intro p notMe
      have left := leaving.left p notMe
      by_cases self : p = n
      · subst self
        have unvisited := left.iff (w := False) (by simp)
        have filled : (s.ptab p).status ≠ .empty := by
          intro empty
          rcases unvisited.status (fun no => no.1) with kept | ⟨asleep, _⟩
          · exact some_entry (kept.trans empty)
          · rw [empty] at asleep
            rcases asleep with no | no <;> cases no
        have me : (orphan t p).me = s.me := by
          unfold State.me
          rw [orphan_frame.cur, first]
          exact leaving.me
        have nudged := orphan_self (s := t) (p := p)
        rw [adopted_congr leaving.frame leaving.ignores] at nudged
        rw [hangup_self, dismissed_congr (congrArg Entry.pid me)]
        exact (unvisited.visit filled nudged).iff (by simp)
      · rw [hangup_other self]
        exact (left.nudge (orphan_other self)).iff (by omega)

/-- What the whole loop does. -/
theorem leaving_all (notInit : s.cur ≠ 0) (running : s.me.status = .running) :
    Leaving s PTABSIZE (Run.upTo leaveFamily PTABSIZE s) := by
  have start : Leaving s 0 s :=
    ⟨Frame.refl s, rfl, Iff.rfl, fun p _ => (Left.start s p _).iff (by simp)⟩
  exact Run.upTo_keeps (I := fun n t => Leaving s n t) start
    (fun _ _ _ leaving => leaving.round notInit running)

/-! ## The process that exits -/

theorem Left.congr {v : Prop} {q q' : Entry} (left : Left t v p q q') (cur : t.cur = s.cur)
    (pid : t.me.pid = s.me.pid) (ignores : initIgnores t ↔ initIgnores s) : Left s v p q q' where
  pid := left.pid
  exitval := left.exitval
  page := left.page
  wait := left.wait
  pgrp := left.pgrp
  child := cur ▸ left.child
  other := cur ▸ left.other
  released := fun visited mine silent =>
    left.released visited (mine.trans cur.symm) (ignores.mpr silent)
  status := by
    intro ordinary
    have woken := left.status
      (fun no => ordinary ⟨no.1, no.2.1.trans cur, ignores.mp no.2.2⟩)
    unfold Woken at woken ⊢
    rw [pid] at woken
    exact woken
  before := left.before
  after := by
    intro visited zombie notInit
    have same := left.after visited zombie notInit
    unfold adopted dismissed at same ⊢
    rw [cur, pid] at same
    simp only [ignores] at same
    exact same

/-- What a process is at its exit. -/
structure Leaves (val : Half) (s t : State) : Prop where
  cur : t.cur = s.cur
  nproc : t.nproc = s.nproc
  pfree : t.pfree = s.me.page :: s.pfree
  exiting : t.exiting = true
  others : ∀ p, p ≠ s.cur → t.udata p = s.udata p
  left : ∀ p, p ≠ s.cur → Left s (p < PTABSIZE) p (s.ptab p) (t.ptab p)
  pid : t.me.pid = s.me.pid
  pptr : t.me.pptr = s.me.pptr
  status : t.me.status = s.me.status
  page : t.me.page = s.me.page
  exitval : t.me.exitval = val
  utime : t.me.utime = (s.udata s.cur).utime + (s.udata s.cur).cutime
  stime : t.me.stime = (s.udata s.cur).stime + (s.udata s.cur).cstime

theorem leave_ne {val : Half} {r : Nat} (other : r ≠ s.cur) :
    (leave val s).ptab r = s.ptab r ∧ (leave val s).udata r = s.udata r := by
  unfold leave modify modifyUdata pagemap_free
  dsimp only
  rw [put_ne _ _ other, put_ne _ _ other, put_ne _ _ other, put_ne _ _ other, put_ne _ _ other]
  exact ⟨rfl, rfl⟩

theorem leave_me (val : Half) : (leave val s).me =
    { s.me with held := BitVec.allOnes 32, exitval := val }.setTimes
      ((s.udata s.cur).utime + (s.udata s.cur).cutime)
      ((s.udata s.cur).stime + (s.udata s.cur).cstime) := by
  unfold leave modify modifyUdata pagemap_free State.me
  dsimp only
  rw [put_same, put_same, put_same, put_same, put_same]

theorem doexit_leaves {val : Half} (notInit : s.cur ≠ 0) (running : s.me.status = .running)
    (done : doexit val s = some t) : Leaves val s t := by
  have me := leave_me (s := s) val
  have times := setTimes_read (q := { s.me with held := BitVec.allOnes 32, exitval := val })
    ((s.udata s.cur).utime + (s.udata s.cur).cutime)
    ((s.udata s.cur).stime + (s.udata s.cur).cstime)
  have running' : (leave val s).me.status = .running := by
    rw [me]
    exact running
  have leaving := leaving_all (s := leave val s) notInit running'
  have ignores : initIgnores (leave val s) ↔ initIgnores s := by
    unfold initIgnores
    rw [(leave_ne (Ne.symm notInit)).1]
  unfold doexit at done
  split at done
  · cases done
  · injection done with done
    subst done
    have same : ({ Run.upTo leaveFamily PTABSIZE (leave val s) with exiting := true } : State).me =
        (leave val s).me := leaving.me
    constructor
    · exact leaving.frame.cur
    · exact leaving.frame.nproc
    · refine leaving.frame.pfree.trans ?_
      unfold leave modify modifyUdata pagemap_free State.me
      dsimp only
      rw [put_same]
    · rfl
    · intro p other
      exact (congrFun leaving.frame.udata p).trans (leave_ne other).2
    · intro p other
      have left := leaving.left p other
      rw [(leave_ne other).1] at left
      exact left.congr rfl (by rw [me]; rfl) ignores
    · rw [same, me]; rfl
    · rw [same, me]; rfl
    · rw [same, me]; rfl
    · rw [same, me]; rfl
    · rw [same, me]; rfl
    · rw [same, me]
      exact times.1
    · rw [same, me]
      exact times.2

end Family
