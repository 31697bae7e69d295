import Fuzix.FamilyRuns

/-!
# Process numbers

The search of `ptab_alloc` tries the numbers one after the other and begins again at 20
behind `MAXPID + 1`. It meets fewer taken numbers than it makes rounds.
-/

set_option linter.unusedSectionVars false

namespace Family

open Table Run
open Sched (Status SIGHUP SIGCONT)

variable [Machine] {s t : State} {p n : Nat}

/-! ## The counter -/

theorem nextPid_pos : 1 ≤ nextPid n := by
  unfold nextPid
  split <;> omega

theorem nextPid_le : nextPid n ≤ MAXPID + 1 := by
  unfold nextPid MAXPID
  split <;> omega

/-- The number of round `k` of a search from `n`. -/
def tried (n : Nat) : Nat → Nat
  | 0 => nextPid n
  | k + 1 => nextPid (tried n k)

theorem tried_next (k : Nat) : tried (nextPid n) k = tried n (k + 1) := by
  induction k with
  | zero => rfl
  | succ k ih =>
    unfold tried
    rw [ih]

/-- The counter runs to `MAXPID + 1` and begins again at 20. -/
theorem tried_eq (small : n ≤ MAXPID + 1) {k : Nat} (few : k < 31982) :
    tried n k = if n + k ≤ MAXPID then n + k + 1 else n + k - MAXPID + 19 := by
  unfold MAXPID at *
  induction k with
  | zero =>
    unfold tried nextPid MAXPID
    split <;> split <;> omega
  | succ k ih =>
    have before := ih (by omega)
    unfold tried
    rw [before]
    unfold nextPid MAXPID
    split <;> split <;> split <;> omega

theorem tried_inj (small : n ≤ MAXPID + 1) {j k : Nat} (hj : j < 31982) (hk : k < 31982)
    (same : tried n j = tried n k) : j = k := by
  rw [tried_eq small hj, tried_eq small hk] at same
  unfold MAXPID at *
  split at same <;> split at same <;> omega

/-! ## The search -/

/-- The search from `n` begins again at 20 in one of its rounds. -/
def resets (s : State) : Nat → Nat → Prop
  | 0, _ => False
  | fuel + 1, n => MAXPID < n ∨ ¬ fresh s (nextPid n) ∧ resets s fuel (nextPid n)

instance resetsDecidable (s : State) : ∀ fuel n, Decidable (resets s fuel n)
  | 0, _ => .isFalse (fun no => no)
  | fuel + 1, n =>
    have := resetsDecidable s fuel (nextPid n)
    inferInstanceAs (Decidable (MAXPID < n ∨ ¬ fresh s (nextPid n) ∧ resets s fuel (nextPid n)))

theorem pickPid_none {fuel : Nat} (stuck : pickPid s fuel n = none) :
    ∀ k < fuel, ¬ fresh s (tried n k) := by
  induction fuel generalizing n with
  | zero =>
    intro k less
    omega
  | succ fuel ih =>
    unfold pickPid at stuck
    split at stuck
    · cases stuck
    · rename_i taken
      intro k less
      cases k with
      | zero => exact taken
      | succ k =>
        rw [← tried_next]
        exact ih stuck k (by omega)

/-- Of `PTABSIZE + 1` numbers in a row one is free. -/
theorem pickPid_some (s : State) (small : n ≤ MAXPID + 1) : ∃ pid, pickPid s (PTABSIZE + 1) n = some pid := by
  cases found : pickPid s (PTABSIZE + 1) n with
  | some pid => exact ⟨pid, rfl⟩
  | none =>
    exfalso
    have taken := pickPid_none found
    have table := Machine.tableBound
    let numbers := (Finset.range (PTABSIZE + 1)).image (tried n)
    let held := (Finset.range PTABSIZE).image (fun p => (s.ptab p).pid)
    have many : numbers.card = PTABSIZE + 1 := by
      have apart : Set.InjOn (tried n) (Finset.range (PTABSIZE + 1)) := by
        intro j hj k hk same
        have hj := Finset.mem_range.mp hj
        have hk := Finset.mem_range.mp hk
        exact tried_inj small (by omega) (by omega) same
      rw [Finset.card_image_of_injOn apart, Finset.card_range]
    have few : held.card ≤ PTABSIZE := by
      have bound := Finset.card_image_le (s := Finset.range PTABSIZE) (f := fun p => (s.ptab p).pid)
      rw [Finset.card_range] at bound
      exact bound
    obtain ⟨pid, member, free⟩ := Finset.exists_mem_notMem_of_card_lt_card
      (by omega : held.card < numbers.card)
    obtain ⟨k, round, same⟩ := Finset.mem_image.mp member
    apply taken k (Finset.mem_range.mp round)
    constructor
    · cases k with
      | zero => exact Nat.ne_of_gt nextPid_pos
      | succ k => exact Nat.ne_of_gt nextPid_pos
    · intro p bound _ equal
      apply free
      rw [← same, ← equal]
      exact Finset.mem_image.mpr ⟨p, Finset.mem_range.mpr bound, rfl⟩

theorem pickPid_range {fuel pid : Nat} (picked : pickPid s fuel n = some pid) :
    1 ≤ pid ∧ pid ≤ MAXPID + 1 := by
  induction fuel generalizing n with
  | zero => cases picked
  | succ fuel ih =>
    unfold pickPid at picked
    split at picked
    · injection picked with same
      rw [← same]
      exact ⟨nextPid_pos, nextPid_le⟩
    · exact ih picked

theorem nextPid_high (high : 20 ≤ n) : 20 ≤ nextPid n := by
  unfold nextPid
  split <;> omega

/-- Once the counter has begun again at 20, no lower number comes up. -/
theorem pickPid_high {fuel pid : Nat} (picked : pickPid s fuel n = some pid)
    (high : 20 ≤ n ∨ resets s fuel n) : 20 ≤ pid := by
  induction fuel generalizing n with
  | zero => cases picked
  | succ fuel ih =>
    have first : 20 ≤ nextPid n ∨ ¬ fresh s (nextPid n) ∧ resets s fuel (nextPid n) := by
      rcases high with above | behind | later
      · exact Or.inl (nextPid_high above)
      · left
        unfold nextPid
        rw [if_pos behind]
      · exact Or.inr later
    unfold pickPid at picked
    split at picked
    · rename_i free
      injection picked with same
      rw [← same]
      rcases first with above | ⟨taken, _⟩
      · exact above
      · exact absurd free taken
    · rcases first with above | ⟨_, again⟩
      · exact ih picked (Or.inl above)
      · exact ih picked (Or.inr again)

/-! ## Steps -/

/-- The running process stays, and no process is new. -/
structure Thins (s t : State) : Prop where
  cur : t.cur = s.cur
  nextpid : t.nextpid = s.nextpid
  older : ∀ p, (t.ptab p).status ≠ .empty →
    (s.ptab p).status ≠ .empty ∧ (t.ptab p).pid = (s.ptab p).pid
  running : s.me.status = .running → t.me.status = .running

theorem Thins.refl (s : State) : Thins s s := ⟨rfl, rfl, fun _ used => ⟨used, rfl⟩, id⟩

theorem Thins.trans {u : State} (first : Thins s t) (second : Thins t u) : Thins s u := by
  constructor
  · exact second.cur.trans first.cur
  · exact second.nextpid.trans first.nextpid
  · intro p used
    have later := second.older p used
    have earlier := first.older p later.1
    exact ⟨earlier.1, later.2.trans earlier.2⟩
  · exact fun running => second.running (first.running running)

theorem thins_posted (posted : ∀ p, Posted (s.ptab p) (t.ptab p)) (cur : t.cur = s.cur)
    (nextpid : t.nextpid = s.nextpid) : Thins s t := by
  constructor
  · exact cur
  · exact nextpid
  · intro p used
    have same := (posted p).same
    exact ⟨fun empty => used (same.empty_iff.mpr empty), same.pid⟩
  · intro running
    unfold State.me at *
    rw [cur]
    rcases (posted s.cur).status with same | ⟨asleep, _⟩
    · exact same.trans running
    · rw [running] at asleep
      rcases asleep with no | no <;> cases no

/-- Entry `p` changes, and is another one or stays as it was. -/
theorem thins_modify {f : Entry → Entry} (pid : ∀ q, (f q).pid = q.pid)
    (status : (f (s.ptab p)).status = (s.ptab p).status ∨
      (f (s.ptab p)).status = .empty ∧ p ≠ s.cur) : Thins s (modify s p f) := by
  constructor
  · rfl
  · rfl
  · intro r used
    by_cases self : r = p
    · subst self
      rw [modify_same] at *
      rcases status with same | ⟨empty, _⟩
      · exact ⟨same ▸ used, pid _⟩
      · exact absurd empty used
    · rw [modify_ne f self] at *
      exact ⟨used, rfl⟩
  · intro running
    show ((modify s p f).ptab s.cur).status = .running
    by_cases self : s.cur = p
    · rcases status with same | ⟨_, other⟩
      · rw [← self, modify_same]
        rw [← self] at same
        exact same.trans running
      · exact absurd self.symm other
    · rw [modify_ne f self]
      exact running

theorem thins_tell : Thins s (tell p s) := thins_posted (fun r => posted_tell r) rfl rfl

theorem thins_orphan (other : p ≠ s.cur) : Thins s (orphan s p) := by
  unfold orphan
  split
  · have handed : Thins s (modify s p (fun q => { q with pptr := 0 })) :=
      thins_modify (fun _ => rfl) (Or.inl rfl)
    dsimp only
    split
    · exact handed.trans (thins_modify (fun _ => rfl) (Or.inr ⟨rfl, other⟩))
    · exact handed.trans thins_tell
  · exact Thins.refl s

theorem modify_modify (f g : Entry → Entry) :
    modify (modify s p g) p f = modify s p (fun q => f (g q)) := by
  unfold modify
  simp

theorem thins_ssig (p sig : Nat) : Thins s (modify s p (ssig sig)) := by
  apply thins_posted
  · intro r
    by_cases self : r = p
    · subst self
      rw [modify_same]
      exact posted_ssig sig
    · rw [modify_ne _ self]
      exact Posted.refl _
  · rfl
  · rfl

theorem thins_hangup : Thins s (hangup s p) := by
  unfold hangup
  split
  · have left : Thins s (modify s p (fun q => { q with pgrp := 0 })) :=
      thins_modify (fun _ => rfl) (Or.inl rfl)
    have signalled := (left.trans (thins_ssig p SIGHUP)).trans (thins_ssig p SIGCONT)
    rw [modify_modify, modify_modify] at signalled
    exact signalled
  · exact Thins.refl s

theorem thins_leaveFamily : Thins s (leaveFamily s p) := by
  unfold leaveFamily
  split
  · exact Thins.refl s
  · rename_i fine
    have other : p ≠ s.cur := fun self => fine (Or.inr self)
    exact (thins_orphan other).trans thins_hangup

theorem thins_leave {val : Half} : Thins s (leave val s) := by
  have changes : Thins s (modify s s.cur (fun q =>
      (({ ({ q with held := BitVec.allOnes 32 } : Entry) with exitval := val } : Entry).setTimes
        ((leave val s).udata s.cur).utime ((leave val s).udata s.cur).stime))) :=
    thins_modify (fun _ => rfl) (Or.inl rfl)
  have table : (leave val s).ptab = (modify s s.cur (fun q =>
      (({ ({ q with held := BitVec.allOnes 32 } : Entry) with exitval := val } : Entry).setTimes
        ((leave val s).udata s.cur).utime ((leave val s).udata s.cur).stime))).ptab := by
    unfold leave modifyUdata modify pagemap_free
    simp
  exact ⟨rfl, rfl, fun p => table ▸ changes.older p, fun running => by
    have kept := changes.running running
    unfold State.me at *
    rw [table]
    exact kept⟩

theorem thins_doexit {val : Half} (done : doexit val s = some t) : Thins s t ∧ t.exiting = true := by
  unfold doexit at done
  split at done
  · cases done
  · injection done with same
    subst same
    have rounds : Thins s (upTo leaveFamily PTABSIZE (leave val s)) :=
      upTo_keeps (I := fun _ u => Thins s u) thins_leave
        (fun _ _ _ before => before.trans thins_leaveFamily)
    exact ⟨⟨rounds.cur, rounds.nextpid, rounds.older, rounds.running⟩, rfl⟩

/-! ## The counter in a step -/

theorem fork_nextpid {copied : Bool} {m : State} {found : Option Nat}
    (begun : ptab_alloc s = some (m, found)) (done : fork copied s = some t) : t.nextpid = m.nextpid := by
  unfold fork at done
  rw [begun] at done
  injection done with same
  cases found with
  | none => rw [← same]
  | some p =>
    dsimp only at same
    rw [← same]
    split
    · rfl
    · rfl

/-- Both the same numbers, and the entries but those of `A` are the same. -/
def Keeps (A : Nat → Prop) (s t : State) : Prop :=
  ∀ q, (t.ptab q).pid = (s.ptab q).pid ∧ (¬ A q → t.ptab q = s.ptab q)

theorem keeps_modify (f : Entry → Entry) (kept : ∀ q, (f q).pid = q.pid) : Keeps (· = p) s (modify s p f) := by
  intro q
  by_cases self : q = p
  · subst self
    rw [modify_same]
    exact ⟨kept _, fun other => absurd rfl other⟩
  · rw [modify_ne f self]
    exact ⟨rfl, fun _ => rfl⟩

theorem Keeps.trans {A B : Nat → Prop} {u : State} (first : Keeps A s t) (second : Keeps B t u) :
    Keeps (fun q => A q ∨ B q) s u := by
  intro q
  refine ⟨(second q).1.trans (first q).1, fun outside => ?_⟩
  have notA : ¬ A q := fun inside => outside (Or.inl inside)
  have notB : ¬ B q := fun inside => outside (Or.inr inside)
  exact ((second q).2 notB).trans ((first q).2 notA)

theorem keeps_newproc : Keeps (· = p) s (newproc p s) := by
  have first := keeps_modify (s := s) (p := p) (fun q => { q with
    status := .running
    pptr := s.cur }.setIgnored s.me.ignored) (fun _ => rfl)
  have second := first.trans (keeps_modify (p := p) (fun q => { q with
    area := put q.area 0 (BitVec.ofInt 16 MAXTICKS) }) (fun _ => rfl))
  intro q
  exact ⟨(second q).1, fun other => (second q).2 (fun either => either.elim other other)⟩

/-- After its `ptab_alloc` a fork gives no process another number. -/
theorem fork_slots {copied : Bool} {m : State} {found : Option Nat}
    (begun : ptab_alloc s = some (m, found)) (done : fork copied s = some t) :
    Keeps (fun q => q = m.cur ∨ found = some q) m t := by
  unfold fork at done
  rw [begun] at done
  injection done with same
  cases found with
  | none =>
    rw [← same]
    exact fun q => ⟨rfl, fun _ => rfl⟩
  | some p =>
    dsimp only at same
    rw [← same]
    have ready := keeps_modify (s := m) (p := m.cur) (fun q => { q with status := .ready }) (fun _ => rfl)
    split
    · have both := ready.trans (keeps_newproc (p := p))
      intro q
      refine ⟨(both q).1, fun outside => (both q).2 ?_⟩
      rintro (mine | slot)
      · exact outside (Or.inl mine)
      · exact outside (Or.inr (slot ▸ rfl))
    · have running := ready.trans
        (keeps_modify (p := m.cur) (fun q => { q with status := .running }) (fun _ => rfl))
      have undone := running.trans
        (keeps_modify (p := p) (fun q => { q with status := .empty }) (fun _ => rfl))
      intro q
      refine ⟨(undone q).1, fun outside => (undone q).2 ?_⟩
      rintro ((mine | mine) | slot)
      · exact outside (Or.inl mine)
      · exact outside (Or.inl mine)
      · exact outside (Or.inr (slot ▸ rfl))

/-- What `ptab_alloc` does to the counter. -/
theorem ptab_alloc_nextpid {m : State} {found : Option Nat} (begun : ptab_alloc s = some (m, found)) :
    (freeSlot s = none ∧ m = s) ∨
      ∃ p, freeSlot s = some p ∧ pickPid s (PTABSIZE + 1) s.nextpid = some m.nextpid ∧
        (m.ptab p).pid = m.nextpid ∧ ∀ q, q ≠ p → m.ptab q = s.ptab q := by
  unfold ptab_alloc at begun
  cases slot : freeSlot s with
  | none =>
    rw [slot] at begun
    injection begun with same
    injection same with state _
    exact Or.inl ⟨rfl, state.symm⟩
  | some p =>
    right
    rw [slot] at begun
    obtain ⟨pid, picked, result⟩ := Option.map_eq_some_iff.mp begun
    refine ⟨p, rfl, ?_⟩
    cases pages : s.pfree with
    | nil =>
      rw [pages] at result
      injection result with state _
      rw [← state]
      exact ⟨picked, congrArg Entry.pid (put_same _ _ _), fun q other => put_ne _ _ other⟩
    | cons page rest =>
      rw [pages] at result
      injection result with state _
      rw [← state]
      exact ⟨picked, congrArg Entry.pid (put_same _ _ _), fun q other => put_ne _ _ other⟩

/-- The step is a fork whose search begins again at 20. -/
def Action.resets (s : State) : Action → Prop
  | .fork _ => freeSlot s ≠ none ∧ Family.resets s (PTABSIZE + 1) s.nextpid
  | _ => False

instance Action.resetsDecidable (s : State) (a : Action) : Decidable (a.resets s) :=
  a.casesOn (motive := fun a => Decidable (a.resets s)) (fun _ => instDecidableFalse) (fun _ => instDecidableAnd)
    (fun _ => instDecidableFalse) instDecidableFalse (fun _ _ _ => instDecidableFalse)
    (fun _ _ _ => instDecidableFalse) (fun _ _ _ => instDecidableFalse) (fun _ _ => instDecidableFalse)
    (fun _ => instDecidableFalse) (fun _ => instDecidableFalse) (fun _ => instDecidableFalse)

theorem waitRound_nextpid (pid : Int) (nohang untraced : Bool) :
    (waitRound pid nohang untraced s).1.nextpid = s.nextpid := by
  unfold waitRound
  split
  · dsimp only
    split
    · rfl
    · rfl
  · split
    · rfl
    · rfl

/-- Only a fork moves the counter, and to the number that its search picks. -/
theorem apply_nextpid {a : Action} (step : a.apply s = some t) :
    (t.nextpid = s.nextpid ∧ ¬ a.resets s) ∨
      pickPid s (PTABSIZE + 1) s.nextpid = some t.nextpid ∧
        (a.resets s → Family.resets s (PTABSIZE + 1) s.nextpid) := by
  cases a with
  | fork copied =>
    obtain ⟨_, done⟩ := Option.ite_none_right_eq_some.mp step
    obtain ⟨⟨m, found⟩, begun, _⟩ := Option.map_eq_some_iff.mp done
    have counter := fork_nextpid begun done
    rcases ptab_alloc_nextpid begun with ⟨full, same⟩ | ⟨p, _, picked, _⟩
    · left
      rw [counter, same]
      exact ⟨rfl, fun begins => begins.1 full⟩
    · right
      rw [counter]
      exact ⟨picked, fun begins => begins.2⟩
  | own o =>
    obtain ⟨_, same⟩ := Option.ite_none_right_eq_some.mp step
    injection same with same
    exact Or.inl ⟨same ▸ rfl, id⟩
  | exit val =>
    obtain ⟨_, done⟩ := Option.ite_none_right_eq_some.mp step
    exact Or.inl ⟨(thins_doexit done).1.nextpid, id⟩
  | gone =>
    obtain ⟨_, same⟩ := Option.ite_none_right_eq_some.mp step
    injection same with same
    left
    refine ⟨?_, id⟩
    rw [← same]
    unfold signal_parent
    dsimp only
    split
    · rfl
    · rfl
  | waitpid pid nohang untraced =>
    obtain ⟨_, same⟩ := Option.ite_none_right_eq_some.mp step
    injection same with same
    left
    refine ⟨?_, id⟩
    rcases waitpid_round (s := s) pid nohang untraced with ⟨pid', again⟩ | childless
    · rw [← same, again]
      exact waitRound_nextpid _ _ _
    · rw [← same, childless]
  | waitAgain pid nohang untraced =>
    obtain ⟨_, same⟩ := Option.ite_none_right_eq_some.mp step
    injection same with same
    left
    refine ⟨?_, id⟩
    rw [← same]
    exact waitRound_nextpid _ _ _
  | kill pid sig allowed =>
    obtain ⟨_, same⟩ := Option.ite_none_right_eq_some.mp step
    injection same with same
    left
    refine ⟨?_, id⟩
    rw [← same]
    unfold Family.kill
    split
    · rfl
    · rfl
  | sgrpsig pgrp sig =>
    injection step with same
    exact Or.inl ⟨same ▸ rfl, id⟩
  | timer insys =>
    injection step with same
    have paid : (charge insys s).nextpid = s.nextpid := by
      unfold charge
      split
      · rfl
      · rfl
    left
    refine ⟨?_, id⟩
    rw [← same]
    unfold timer_interrupt
    dsimp only
    split
    · exact paid
    · exact paid
  | wakeup event =>
    injection step with same
    exact Or.inl ⟨same ▸ rfl, id⟩
  | switch p =>
    obtain ⟨_, same⟩ := Option.ite_none_right_eq_some.mp step
    injection same with same
    exact Or.inl ⟨same ▸ rfl, id⟩

/-! ## Runs -/

/-- What holds between any two steps. `wrapped` says that the counter has begun again. -/
structure Numbered (s : State) (wrapped : Bool) : Prop where
  counter : s.nextpid ≤ MAXPID + 1
  high : wrapped = true → 20 ≤ s.nextpid
  range : ∀ p < PTABSIZE, (s.ptab p).status ≠ .empty →
    1 ≤ (s.ptab p).pid ∧ (s.ptab p).pid ≤ MAXPID + 1
  apart : ∀ p < PTABSIZE, ∀ q < PTABSIZE, p ≠ q → (s.ptab p).status ≠ .empty →
    (s.ptab q).status ≠ .empty → (s.ptab p).pid ≠ (s.ptab q).pid
  exiting : s.exiting = true → s.me.status = .running

/-- A step, with a note whether the counter has begun again at 20 so far. -/
def watched (s : State × Bool) (a : Action) (t : State × Bool) : Prop :=
  a.apply s.1 = some t.1 ∧ t.2 = (s.2 || decide (a.resets s.1))

/-- A slot in use is one that was in use, with its number, or it has the new number. -/
theorem apply_slots {a : Action} (busy : s.exiting = true → s.me.status = .running)
    (step : a.apply s = some t) :
    (∀ p, (t.ptab p).status ≠ .empty →
      (s.ptab p).status ≠ .empty ∧ (t.ptab p).pid = (s.ptab p).pid) ∨
    ∃ r, (s.ptab r).status = .empty ∧ (t.ptab r).pid = t.nextpid ∧
      pickPid s (PTABSIZE + 1) s.nextpid = some t.nextpid ∧
      ∀ p, p ≠ r → (t.ptab p).status ≠ .empty →
        (s.ptab p).status ≠ .empty ∧ (t.ptab p).pid = (s.ptab p).pid := by
  rcases apply_cases step with quiet | ⟨val, _, _, done⟩ | ⟨_, exiting, ended⟩ |
    ⟨copied, _, fork, user, _⟩ | ⟨p, _, reaps⟩
  · left
    intro p used
    have before : (s.ptab p).status ≠ .empty := fun empty => used (quiet.empty p empty)
    exact ⟨before, (quiet.same p before).pid⟩
  · exact Or.inl (thins_doexit done).1.older
  · left
    intro p used
    have ends := signal_parent_ends (s := s)
    rw [← ended] at ends
    by_cases self : p = s.cur
    · subst self
      have pid : (t.ptab s.cur).pid = (s.ptab s.cur).pid := by
        rw [ended]
        unfold signal_parent
        dsimp only
        split
        · exact (keeps_modify _ (by exact fun _ => rfl) _).1
        · exact (keeps_modify _ (by exact fun _ => rfl) _).1.trans (posted_tell _).pid
      have running : (s.ptab s.cur).status = .running := busy exiting
      constructor
      · rw [running]
        intro no
        cases no
      · exact pid
    · have same := (ends.others p self).same
      exact ⟨fun empty => used (same.empty_iff.mpr empty), same.pid⟩
  · subst fork
    obtain ⟨_, done⟩ := Option.ite_none_right_eq_some.mp step
    obtain ⟨⟨m, found⟩, begun, _⟩ := Option.map_eq_some_iff.mp done
    have running : (s.ptab s.cur).status = .running := user.2
    have slots := fork_slots begun done
    rcases ptab_alloc_cases user begun with ⟨none', quiet, _⟩ | ⟨r, pid, page, some', alloc⟩
    · left
      have same : t = m := by
        unfold fork at done
        rw [begun, none'] at done
        injection done with same
        exact same.symm
      rw [same]
      intro p used
      have before : (s.ptab p).status ≠ .empty := fun empty => used (quiet.empty p empty)
      exact ⟨before, (quiet.same p before).pid⟩
    · right
      have slot : m.ptab r ≠ s.ptab r := by
        intro same
        have forking : (m.ptab r).status = .forking := by
          rw [alloc.ptab, put_same]
          rfl
        rw [same, alloc.slot] at forking
        cases forking
      rcases ptab_alloc_nextpid begun with ⟨_, same⟩ | ⟨r', _, picked, pid, others⟩
      · exact absurd (congrArg (fun u => u.ptab r) same) slot
      · have this : r = r' := by
          by_contra other
          exact slot (others r other)
        subst this
        rw [fork_nextpid begun done]
        refine ⟨r, alloc.slot, (slots r).1.trans pid, picked, fun p other used => ?_⟩
        refine ⟨?_, (slots p).1.trans (congrArg Entry.pid (others p other))⟩
        by_cases mine : p = s.cur
        · rw [mine, running]
          intro no
          cases no
        · have kept : t.ptab p = m.ptab p := by
            apply (slots p).2
            rintro (me | taken)
            · exact mine (me.trans alloc.cur)
            · rw [some'] at taken
              injection taken with taken
              exact other taken.symm
          rw [← others p other, ← kept]
          exact used
  · left
    intro r used
    by_cases self : r = p
    · subst self
      rw [reaps.slot] at used
      exact absurd rfl used
    · rw [reaps.others self] at *
      exact ⟨used, rfl⟩

theorem apply_busy {a : Action} (busy : s.exiting = true → s.me.status = .running)
    (step : a.apply s = some t) : t.exiting = true → t.me.status = .running := by
  intro exiting
  rcases apply_cases step with quiet | ⟨val, _, user, done⟩ | ⟨_, _, ended⟩ |
    ⟨_, p, _, user, forks⟩ | ⟨p, user, reaps⟩
  · have before : s.exiting = true := quiet.exiting ▸ exiting
    show (t.ptab t.cur).status = .running
    rw [quiet.cur before]
    exact quiet.running before (busy before)
  · exact (thins_doexit done).1.running user.2
  · rw [ended, signal_parent_ends.exiting] at exiting
    cases exiting
  · rw [forks.exiting, user.1] at exiting
    cases exiting
  · have same : t.exiting = s.exiting := by
      rw [reaps.after]
      rfl
    rw [same, user.1] at exiting
    cases exiting

theorem Numbered.step {wrapped : Bool} {a : Action} (numbered : Numbered s wrapped)
    (step : a.apply s = some t) : Numbered t (wrapped || decide (a.resets s)) := by
  constructor
  · rcases apply_nextpid step with ⟨same, _⟩ | ⟨picked, _⟩
    · rw [same]
      exact numbered.counter
    · exact (pickPid_range picked).2
  · intro wraps
    have cause := Bool.or_eq_true_iff.mp wraps
    rcases apply_nextpid step with ⟨same, quiet⟩ | ⟨picked, begins⟩
    · rcases cause with before | now
      · rw [same]
        exact numbered.high before
      · exact absurd (of_decide_eq_true now) quiet
    · apply pickPid_high picked
      rcases cause with before | now
      · exact Or.inl (numbered.high before)
      · exact Or.inr (begins (of_decide_eq_true now))
  · intro p bound used
    have older : (s.ptab p).status ≠ .empty ∧ (t.ptab p).pid = (s.ptab p).pid →
        1 ≤ (t.ptab p).pid ∧ (t.ptab p).pid ≤ MAXPID + 1 := by
      rintro ⟨before, same⟩
      rw [same]
      exact numbered.range p bound before
    rcases apply_slots numbered.exiting step with all | ⟨r, _, pid, picked, others⟩
    · exact older (all p used)
    · by_cases self : p = r
      · rw [self, pid]
        exact pickPid_range picked
      · exact older (others p self used)
  · intro p hp q hq other usedP usedQ
    rcases apply_slots numbered.exiting step with all | ⟨r, _, pid, picked, others⟩
    · have before := all p usedP
      have before' := all q usedQ
      rw [before.2, before'.2]
      exact numbered.apart p hp q hq other before.1 before'.1
    · have free := (pickPid_fresh picked).2
      by_cases self : p = r
      · have before := others q (fun same => other (self.trans same.symm)) usedQ
        rw [self, pid, before.2]
        exact Ne.symm (free q hq before.1)
      · have before := others p self usedP
        by_cases self' : q = r
        · rw [self', pid, before.2]
          exact free p hp before.1
        · have before' := others q self' usedQ
          rw [before.2, before'.2]
          exact numbered.apart p hp q hq other before.1 before'.1
  · exact apply_busy numbered.exiting step

theorem boot_numbered (page : Nat) (pfree : List Nat) : Numbered (boot page pfree) false := by
  have only : ∀ p, ((boot page pfree).ptab p).status ≠ .empty → p = 0 := by
    intro p used
    by_contra other
    apply used
    unfold boot
    dsimp only
    rw [if_neg other]
  constructor
  · show 1 ≤ 32001
    omega
  · intro no
    cases no
  · intro p _ used
    rw [only p used]
    show 1 ≤ 1 ∧ 1 ≤ 32001
    omega
  · intro p _ q _ other usedP usedQ
    exact absurd ((only p usedP).trans (only q usedQ).symm) other
  · intro no
    cases no

/-- What `ptab_alloc` makes of the slot `p` that it found. -/
structure Assigns (s : State) (wrapped : Bool) (p : Nat) (t : State) : Prop where
  low : 1 ≤ (t.ptab p).pid
  high : (t.ptab p).pid ≤ MAXPID + 1
  other : ∀ q < PTABSIZE, q ≠ p → (t.ptab q).status ≠ .empty → (t.ptab q).pid ≠ (t.ptab p).pid
  behind : wrapped = true ∨ resets s (PTABSIZE + 1) s.nextpid → 20 ≤ (t.ptab p).pid

/-- In every run the search ends, with a number that no one else has. -/
theorem pids_distinct (page : Nat) (pfree : List Nat) (as : List Action) (s : State) (wrapped : Bool)
    (run : Steps watched (boot page pfree, false) as (s, wrapped)) :
    (∀ p < PTABSIZE, ∀ q < PTABSIZE, p ≠ q → (s.ptab p).status ≠ .empty →
      (s.ptab q).status ≠ .empty → (s.ptab p).pid ≠ (s.ptab q).pid) ∧
    (∃ t found, ptab_alloc s = some (t, found)) ∧
    ∀ p t found, freeSlot s = some p → ptab_alloc s = some (t, found) → Assigns s wrapped p t := by
  have numbered : Numbered s wrapped := by
    refine run.keeps (I := fun u => Numbered u.1 u.2) ?_ (boot_numbered page pfree)
    intro u a v before step
    have after := before.step step.1
    rw [← step.2] at after
    exact after
  refine ⟨numbered.apart, ?_, ?_⟩
  · unfold ptab_alloc
    cases freeSlot s with
    | none => exact ⟨s, none, rfl⟩
    | some p =>
      obtain ⟨pid, picked⟩ := pickPid_some s numbered.counter
      dsimp only
      rw [picked]
      cases s.pfree with
      | nil => exact ⟨_, _, rfl⟩
      | cons page rest => exact ⟨_, _, rfl⟩
  · intro p t found slot begun
    rcases ptab_alloc_nextpid begun with ⟨full, _⟩ | ⟨p', slot', picked, pid, others⟩
    · rw [full] at slot
      cases slot
    · rw [slot] at slot'
      injection slot' with same
      subst same
      constructor
      · rw [pid]
        exact (pickPid_range picked).1
      · rw [pid]
        exact (pickPid_range picked).2
      · intro q bound other used
        rw [others q other] at *
        rw [pid]
        exact (pickPid_fresh picked).2 q bound used
      · intro begins
        rw [pid]
        apply pickPid_high picked
        rcases begins with before | now
        · exact Or.inl (numbered.high before)
        · exact Or.inr now

omit [Machine] in
/-- Init and its child. -/
theorem pids_distinct_fork : ∃ (_ : Machine) (s : State) (wrapped : Bool),
    Steps watched (boot 1 [2, 3], false) [.fork true] (s, wrapped) ∧
    (s.ptab 0).pid ≠ (s.ptab 1).pid ∧ (∃ t found, ptab_alloc s = some (t, found)) := by
  let m := small
  have begun : ((Action.fork true).apply (boot 1 [2, 3])).map (fun s =>
      ((s.ptab 0).status, (s.ptab 1).status)) = some (.ready, .running) := by decide +kernel
  obtain ⟨s, done, result⟩ := Option.map_eq_some_iff.mp begun
  injection result with first second
  have run : Steps watched (boot 1 [2, 3], false) [.fork true]
      (s, false || decide ((Action.fork true).resets (boot 1 [2, 3]))) :=
    Steps.snoc (Steps.nil _) ⟨done, rfl⟩
  have distinct := pids_distinct 1 [2, 3] _ s _ run
  refine ⟨small, s, _, run, distinct.1 0 (by decide) 1 (by decide) (by decide) ?_ ?_, distinct.2.1⟩
  · rw [first]
    intro no
    cases no
  · rw [second]
    intro no
    cases no

end Family
