import Fuzix.Family

/-!
# Sessions and process groups

`_setsid`, `_setpgid` and `_getsid` of syscall_level2.c, with what `ptab_alloc`, `newproc`,
`_setpgrp`, `doexit` and `_waitpid` do to the groups and sessions of the process table. A
slot keeps its fields when its process has gone. A slot that is neither empty nor a zombie
is `live` here, whatever its process waits for.
-/

set_option linter.unusedSectionVars false

namespace Session

open Table Run
open Family (nextPid)

def EPERM : Nat := 1
def ESRCH : Nat := 3

class Machine where
  PTABSIZE : Nat
  positive : 0 < PTABSIZE

export Machine (PTABSIZE)

inductive Status where
  | empty
  | live
  | zombie
  deriving DecidableEq

structure Entry where
  status : Status
  pid : Nat
  pgrp : Nat
  session : Nat
  tty : Nat
  /-- The slot of the parent; `PTABSIZE` is the null pointer. -/
  pptr : Nat
  /-- `SIGCHLD` is in `p_ignored`. -/
  ignoresChld : Bool
  deriving DecidableEq

structure State where
  ptab : Nat → Entry
  nextpid : Nat

section
variable [Machine]

def State.set (s : State) (p : Nat) (q : Entry) : State := { s with ptab := put s.ptab p q }

/-- Some entry of the table is so. -/
def State.Any (s : State) (test : Entry → Prop) : Prop := ∃ p, p < PTABSIZE ∧ test (s.ptab p)

instance (s : State) (test : Entry → Prop) [∀ q, Decidable (test q)] : Decidable (s.Any test) := by
  unfold State.Any; infer_instance

/-! ## fork -/

def freeSlot (s : State) : Option Nat :=
  (List.range PTABSIZE).find? fun p => (s.ptab p).status = Status.empty

def Taken (s : State) (n : Nat) : Prop := n = 0 ∨ s.Any fun q => q.status ≠ Status.empty ∧ q.pid = n

instance (s : State) (n : Nat) : Decidable (Taken s n) := by unfold Taken; infer_instance

def pickPid (s : State) : Nat → Nat → Option Nat
  | 0, _ => none
  | fuel + 1, n => if Taken s (nextPid n) then pickPid s fuel (nextPid n) else some (nextPid n)

/-- `memset` and the number. -/
def blank (pid : Nat) : Entry := ⟨Status.empty, pid, 0, 0, 0, PTABSIZE, false⟩

/-- `_fork` by the process in slot `c`: `mem` says that there are pages, `copied` that
`dofork` succeeds. The child inherits its group in `ptab_alloc`, and more in `newproc`. -/
def fork (s : State) (c : Nat) (mem copied : Bool) : State :=
  match freeSlot s with
  | none => s
  | some p =>
    match pickPid s (PTABSIZE + 1) s.nextpid with
    | none => s
    | some pid =>
      let s := { s with nextpid := pid }
      if mem = false then s.set p (blank pid)
      else if copied = false then s.set p { blank pid with pgrp := (s.ptab c).pgrp }
      else s.set p { blank pid with
        status := Status.live
        pgrp := (s.ptab c).pgrp
        tty := (s.ptab c).tty
        pptr := c
        ignoresChld := (s.ptab c).ignoresChld }

/-! ## The calls -/

def setsid (s : State) (c : Nat) : Except Nat Nat × State :=
  let pid := (s.ptab c).pid
  if s.Any fun q => q.pgrp = pid ∨ q.session = pid then (.error EPERM, s)
  else (.ok 0, s.set c { s.ptab c with pgrp := pid, session := pid, tty := 0 })

/-- `t` after the loop, which goes on behind an entry with the number. -/
def lastPid (s : State) (npid : Nat) : Nat → Option Nat
  | 0 => none
  | n + 1 => if (s.ptab n).pid = npid then some n else lastPid s npid n

/-- `_setpgid` for the entry `t`. -/
def enter (s : State) (c t npgid : Nat) : Except Nat Nat × State :=
  let ses := (s.ptab c).session
  let n := if npgid = 0 then (s.ptab t).pid else npgid
  if (s.ptab t).session ≠ ses then (.error EPERM, s)
  else if s.Any fun q => q.pgrp = n ∧ q.session ≠ ses then (.error EPERM, s)
  else (.ok 0, s.set t { s.ptab t with pgrp := n })

def setpgid (s : State) (c npid npgid : Nat) : Except Nat Nat × State :=
  match if npid = 0 then some c else lastPid s npid PTABSIZE with
  | none => (.error ESRCH, s)
  | some t => enter s c t npgid

def getsid (s : State) (pid : Nat) : Except Nat Nat :=
  match (List.range PTABSIZE).find? fun p => (s.ptab p).pid = pid with
  | none => .error ESRCH
  | some p => .ok (s.ptab p).session

def setpgrp (s : State) (c : Nat) : State :=
  s.set c { s.ptab c with pgrp := (s.ptab c).pid, tty := 0 }

/-! ## exit and wait -/

/-- What the loop of `doexit` does to another entry. -/
def bereave (s : State) (c p : Nat) : Entry :=
  let q := s.ptab p
  if q.status = Status.empty ∨ p = c then q
  else
    let q :=
      if q.pptr = c then
        { q with pptr := 0, status := if (s.ptab 0).ignoresChld then Status.empty else q.status }
      else q
    if q.pgrp = (s.ptab c).pid then { q with pgrp := 0 } else q

def doexit (s : State) (c : Nat) : State :=
  let s := { s with ptab := fun p => if p < PTABSIZE then bereave s c p else s.ptab p }
  let gone := if (s.ptab (s.ptab c).pptr).ignoresChld then Status.empty else Status.zombie
  s.set c { s.ptab c with status := gone }

/-- The zombie that `_waitpid` finds, if no entry before it is `reported` for an event. -/
def reap (s : State) (c : Nat) (pid : Int) (reported : Nat → Bool) : Option Nat :=
  let pid := if pid = 0 then -((s.ptab c).pgrp : Int) else pid
  (List.range PTABSIZE).find? fun p =>
    (s.ptab p).pptr = c ∧ (pid = -1 ∨ (s.ptab p).pid = pid ∨ (s.ptab p).pgrp = -pid) ∧
      ((s.ptab p).status = Status.zombie ∨ reported p = true)

def waitpid (s : State) (c : Nat) (pid : Int) (reported : Nat → Bool) : State :=
  match reap s c pid reported with
  | none => s
  | some p =>
    if (s.ptab p).status = Status.zombie then s.set p { s.ptab p with status := Status.empty } else s

/-! ## Calls in turn -/

inductive Call where
  | fork (mem copied : Bool)
  | setsid
  | setpgid (npid npgid : Nat)
  | setpgrp
  | getsid (pid : Nat)
  | exit
  | wait (pid : Int) (reported : Nat → Bool)
  | signal (ignored : Bool)

/-- A call of the process in the slot `caller`. -/
structure Action where
  caller : Nat
  call : Call

def State.step (s : State) (a : Action) : State :=
  match a.call with
  | .fork mem copied => fork s a.caller mem copied
  | .setsid => (setsid s a.caller).2
  | .setpgid npid npgid => (setpgid s a.caller npid npgid).2
  | .setpgrp => setpgrp s a.caller
  | .getsid _ => s
  | .exit => doexit s a.caller
  | .wait pid reported => waitpid s a.caller pid reported
  | .signal ignored => s.set a.caller { s.ptab a.caller with ignoresChld := ignored }

/-- The process is there to make a call, and init does not exit. -/
def Possible (s : State) (a : Action) : Prop :=
  a.caller < PTABSIZE ∧ (s.ptab a.caller).status = Status.live ∧
    (a.call = Call.exit → (s.ptab a.caller).pid ≠ 1)

/-- `complete_init` has run. -/
def boot : State :=
  ⟨fun p => if p = 0 then ⟨Status.live, 1, 1, 1, 0, 0, false⟩ else ⟨Status.empty, 0, 0, 0, 0, PTABSIZE, false⟩, 1⟩

/-! ## What the calls should do -/

/-- The process is there; zombies may be counted or not. -/
def Entry.There (zombies : Bool) (q : Entry) : Prop :=
  q.status = Status.live ∨ zombies = true ∧ q.status = Status.zombie

instance (zombies : Bool) (q : Entry) : Decidable (q.There zombies) := by
  unfold Entry.There; infer_instance

/-- The members of a group are of one session. -/
def OneSession (z : Bool) (s : State) : Prop :=
  ∀ p q, p < PTABSIZE → q < PTABSIZE → (s.ptab p).There z → (s.ptab q).There z →
    (s.ptab p).pgrp = (s.ptab q).pgrp → (s.ptab p).pgrp ≠ 0 → (s.ptab p).session = (s.ptab q).session

/-- The process that `setpgid` is asked to move. -/
def Target (z : Bool) (s : State) (c npid t : Nat) : Prop :=
  t < PTABSIZE ∧ (s.ptab t).There z ∧ if npid = 0 then t = c else (s.ptab t).pid = npid

/-- It may be moved into the group. -/
def Permitted (z : Bool) (s : State) (c t npgid : Nat) : Prop :=
  (s.ptab t).session = (s.ptab c).session ∧
    ¬ s.Any fun q => q.There z ∧ q.pgrp = (if npgid = 0 then (s.ptab t).pid else npgid) ∧
      q.session ≠ (s.ptab c).session

/-- Only processes that are there matter to a call. -/
structure Right (z : Bool) (s : State) (a : Action) : Prop where
  sessions : OneSession z (s.step a)
  setsid : a.call = Call.setsid → ((setsid s a.caller).1 = .ok 0 ↔
    ¬ s.Any fun q => q.There z ∧ (q.pgrp = (s.ptab a.caller).pid ∨ q.session = (s.ptab a.caller).pid))
  setpgid : ∀ npid npgid, a.call = Call.setpgid npid npgid →
    ((setpgid s a.caller npid npgid).1 = .error ESRCH ↔ ¬ ∃ t, Target z s a.caller npid t) ∧
    ((setpgid s a.caller npid npgid).1 = .ok 0 ↔
      ∃ t, Target z s a.caller npid t ∧ Permitted z s a.caller t npgid)
  changes : ∀ npid npgid, a.call = Call.setpgid npid npgid → ∀ p, (s.step a).ptab p ≠ s.ptab p →
    (s.ptab p).There z ∧ (s.ptab p).session = (s.ptab a.caller).session
  getsid : ∀ pid, a.call = Call.getsid pid →
    ((∃ p, p < PTABSIZE ∧ (s.ptab p).There z ∧ (s.ptab p).pid = pid ∧
        getsid s pid = .ok (s.ptab p).session) ∨
      getsid s pid = .error ESRCH ∧ ¬ s.Any fun q => q.There z ∧ q.pid = pid)

/-- No entry without its process is found in place of one with it, and groups are left
to their sessions. -/
def Clean (z : Bool) (s : State) (a : Action) : Prop :=
  match a.call with
  | .fork mem copied => mem = true → copied = true → (freeSlot s).isSome →
      (s.ptab a.caller).pgrp = 0 ∨ (s.ptab a.caller).session = 0
  | .setsid =>
      (s.Any fun q => q.pgrp = (s.ptab a.caller).pid ∨ q.session = (s.ptab a.caller).pid) →
        s.Any fun q => q.There z ∧
          (q.pgrp = (s.ptab a.caller).pid ∨ q.session = (s.ptab a.caller).pid)
  | .setpgid npid npgid =>
      (npid ≠ 0 → ∀ t, lastPid s npid PTABSIZE = some t → (s.ptab t).There z) ∧
      ∀ t, Target z s a.caller npid t → ∀ n, n = (if npgid = 0 then (s.ptab t).pid else npgid) →
        (s.Any fun q => q.pgrp = n ∧ q.session ≠ (s.ptab a.caller).session) →
          s.Any fun q => q.There z ∧ q.pgrp = n ∧ q.session ≠ (s.ptab a.caller).session
  | .setpgrp => ∀ q, q < PTABSIZE → (s.ptab q).There z → (s.ptab q).pgrp = (s.ptab a.caller).pid →
      (s.ptab q).session = (s.ptab a.caller).session
  | .getsid pid =>
      ∀ t, ((List.range PTABSIZE).find? fun p => (s.ptab p).pid = pid) = some t → (s.ptab t).There z
  | _ => True

/-! ## What keeps groups in their sessions -/

variable {z : Bool} {s t : State} {c p : Nat}

theorem Entry.There.nonempty {q : Entry} (there : q.There z) : q.status ≠ Status.empty := by
  rcases there with live | ⟨_, zombie⟩
  · rw [live]
    decide
  · rw [zombie]
    decide

theorem set_same (q : Entry) : (s.set p q).ptab p = q := put_same _ _ _

theorem set_ne (q : Entry) {r : Nat} (other : r ≠ p) : (s.set p q).ptab r = s.ptab r := put_ne _ _ other

/-- Processes may go, and groups may be left. -/
theorem OneSession.mono (one : OneSession z s) (kept : ∀ p < PTABSIZE, (t.ptab p).There z →
    (s.ptab p).There z ∧ (t.ptab p).session = (s.ptab p).session ∧
      ((t.ptab p).pgrp = (s.ptab p).pgrp ∨ (t.ptab p).pgrp = 0)) : OneSession z t := by
  intro p q hp hq thereP thereQ same member
  obtain ⟨oldP, sessionP, groupP⟩ := kept p hp thereP
  obtain ⟨oldQ, sessionQ, groupQ⟩ := kept q hq thereQ
  have groupP := groupP.resolve_right member
  have groupQ := groupQ.resolve_right (by rw [← same]; exact member)
  rw [sessionP, sessionQ]
  apply one p q hp hq oldP oldQ
  · rw [← groupP, ← groupQ]
    exact same
  · rw [← groupP]
    exact member

/-- An entry may join a group whose members are of its session. -/
theorem OneSession.set (one : OneSession z s) (p : Nat) (e : Entry)
    (fits : ∀ q < PTABSIZE, q ≠ p → (s.ptab q).There z → (s.ptab q).pgrp = e.pgrp → e.pgrp ≠ 0 →
      (s.ptab q).session = e.session) : OneSession z (s.set p e) := by
  intro a b ha hb thereA thereB same member
  by_cases hap : a = p
  · by_cases hbp : b = p
    · rw [hap, hbp]
    · rw [hap, set_same] at same member ⊢
      rw [set_ne e hbp] at same thereB ⊢
      exact (fits b hb hbp thereB same.symm member).symm
  · rw [set_ne e hap] at same member thereA ⊢
    by_cases hbp : b = p
    · rw [hbp, set_same] at same ⊢
      exact fits a ha hap thereA same (by rw [← same]; exact member)
    · rw [set_ne e hbp] at same thereB ⊢
      exact one a b ha hb thereA thereB same member

/-! ## Numbers -/

/-- No two processes have one number, not even a zombie. -/
def Unique (s : State) : Prop :=
  ∀ p q, p < PTABSIZE → q < PTABSIZE → (s.ptab p).status ≠ Status.empty →
    (s.ptab q).status ≠ Status.empty → (s.ptab p).pid = (s.ptab q).pid → p = q

theorem Unique.mono (unique : Unique s) (kept : ∀ p < PTABSIZE, (t.ptab p).status ≠ Status.empty →
    (s.ptab p).status ≠ Status.empty ∧ (t.ptab p).pid = (s.ptab p).pid) : Unique t := by
  intro p q hp hq nonemptyP nonemptyQ same
  obtain ⟨oldP, pidP⟩ := kept p hp nonemptyP
  obtain ⟨oldQ, pidQ⟩ := kept q hq nonemptyQ
  exact unique p q hp hq oldP oldQ (by rw [← pidP, ← pidQ]; exact same)

/-- The fields of one entry that the numbers do not depend on. -/
theorem Unique.set (unique : Unique s) (p : Nat) (e : Entry) (pid : e.pid = (s.ptab p).pid)
    (nonempty : e.status ≠ Status.empty → (s.ptab p).status ≠ Status.empty) : Unique (s.set p e) := by
  apply unique.mono
  intro q _ there
  by_cases own : q = p
  · rw [own, set_same] at there ⊢
    exact ⟨nonempty there, pid⟩
  · rw [set_ne e own] at there ⊢
    exact ⟨there, rfl⟩

theorem pickPid_free {fuel n pid : Nat} (picked : pickPid s fuel n = some pid) : ¬ Taken s pid := by
  induction fuel generalizing n with
  | zero => cases picked
  | succ fuel ih =>
    unfold pickPid at picked
    split at picked
    · exact ih picked
    · rename_i free
      injection picked with same
      rw [← same]
      exact free

theorem Unique.add (unique : Unique s) (e : Entry) (free : ¬ Taken s e.pid) : Unique (s.set p e) := by
  have other (q : Nat) (hq : q < PTABSIZE) (nonempty : (s.ptab q).status ≠ Status.empty) :
      (s.ptab q).pid ≠ e.pid := fun same => free (Or.inr ⟨q, hq, nonempty, same⟩)
  intro a b ha hb nonemptyA nonemptyB same
  by_cases hap : a = p
  · by_cases hbp : b = p
    · rw [hap, hbp]
    · rw [hap, set_same] at same
      rw [set_ne e hbp] at same nonemptyB
      exact absurd same.symm (other b hb nonemptyB)
  · rw [set_ne e hap] at same nonemptyA
    by_cases hbp : b = p
    · rw [hbp, set_same] at same
      exact absurd same (other a ha nonemptyA)
    · rw [set_ne e hbp] at same nonemptyB
      exact unique a b ha hb nonemptyA nonemptyB same

/-! ## Searches -/

theorem lastPid_some {npid n t : Nat} (found : lastPid s npid n = some t) : t < n ∧ (s.ptab t).pid = npid := by
  induction n with
  | zero => cases found
  | succ n ih =>
    unfold lastPid at found
    split at found
    · rename_i here
      injection found with same
      rw [← same]
      exact ⟨Nat.lt_succ_self n, here⟩
    · obtain ⟨less, pid⟩ := ih found
      exact ⟨Nat.lt_succ_of_lt less, pid⟩

theorem lastPid_none {npid n : Nat} (missing : lastPid s npid n = none) : ∀ t < n, (s.ptab t).pid ≠ npid := by
  induction n with
  | zero =>
    intro t less
    omega
  | succ n ih =>
    unfold lastPid at missing
    split at missing
    · cases missing
    · rename_i other
      intro t less
      by_cases last : t = n
      · rw [last]
        exact other
      · exact ih missing t (by omega)

theorem find_some {test : Nat → Bool} (found : (List.range PTABSIZE).find? test = some p) :
    p < PTABSIZE ∧ test p = true :=
  ⟨List.mem_range.mp (List.mem_of_find?_eq_some found), List.find?_some found⟩

theorem find_none {test : Nat → Bool} (missing : (List.range PTABSIZE).find? test = none) :
    ∀ p < PTABSIZE, ¬ test p = true := by
  intro p less
  exact List.find?_eq_none.mp missing p (List.mem_range.mpr less)

/-! ## One call -/

structure Inv (z : Bool) (s : State) : Prop where
  sessions : OneSession z s
  unique : Unique s

/-- Storing the entry of a process that has gone, or was never there. -/
theorem Inv.bury (inv : Inv z s) (e : Entry) (gone : e.status = Status.empty) : Inv z (s.set p e) := by
  have nobody : ¬ e.There z := fun there => there.nonempty gone
  constructor
  · apply inv.sessions.mono
    intro q _ there
    by_cases own : q = p
    · rw [own, set_same] at there
      exact absurd there nobody
    · rw [set_ne e own] at there ⊢
      exact ⟨there, rfl, Or.inl rfl⟩
  · apply inv.unique.mono
    intro q _ nonempty
    by_cases own : q = p
    · rw [own, set_same] at nonempty
      exact absurd gone nonempty
    · rw [set_ne e own] at nonempty ⊢
      exact ⟨nonempty, rfl⟩

/-- The counter is not looked at. -/
theorem Inv.counter (inv : Inv z s) (n : Nat) : Inv z { s with nextpid := n } := ⟨inv.sessions, inv.unique⟩

theorem fork_inv {mem copied : Bool} (inv : Inv z s) (bound : c < PTABSIZE)
    (live : (s.ptab c).status = Status.live)
    (clean : mem = true → copied = true → (freeSlot s).isSome →
      (s.ptab c).pgrp = 0 ∨ (s.ptab c).session = 0) : Inv z (fork s c mem copied) := by
  unfold fork
  cases free : freeSlot s with
  | none => exact inv
  | some p =>
    cases picked : pickPid s (PTABSIZE + 1) s.nextpid with
    | none => exact inv
    | some pid =>
      simp only
      split
      · exact (inv.counter pid).bury _ rfl
      · split
        · exact (inv.counter pid).bury _ rfl
        · rename_i pages copies
          have outside := clean (Bool.not_eq_false _ ▸ pages) (Bool.not_eq_false _ ▸ copies)
            (by rw [free]; rfl)
          constructor
          · apply (inv.counter pid).sessions.set
            intro q hq _ there same member
            have parent : (s.ptab c).pgrp ≠ 0 := member
            have zero := outside.resolve_left parent
            have one := inv.sessions q c hq bound there (Or.inl live) same (by rw [same]; exact member)
            exact one.trans zero
          · have untaken : ¬ Taken s pid := pickPid_free picked
            exact (inv.counter pid).unique.add _ untaken

theorem setpgrp_inv (inv : Inv z s) (clean : ∀ q, q < PTABSIZE → (s.ptab q).There z →
      (s.ptab q).pgrp = (s.ptab c).pid → (s.ptab q).session = (s.ptab c).session) :
    Inv z (setpgrp s c) := by
  constructor
  · apply inv.sessions.set
    intro q hq _ there same _
    exact clean q hq there same
  · exact inv.unique.set c _ rfl (fun there => there)

theorem bereave_cases (s : State) (c p : Nat) :
    (bereave s c p).pid = (s.ptab p).pid ∧ (bereave s c p).session = (s.ptab p).session ∧
      ((bereave s c p).pgrp = (s.ptab p).pgrp ∨ (bereave s c p).pgrp = 0) ∧
      ((bereave s c p).status = (s.ptab p).status ∨ (bereave s c p).status = Status.empty) := by
  unfold bereave
  by_cases apart : (s.ptab p).status = Status.empty ∨ p = c
  · rw [if_pos apart]
    exact ⟨rfl, rfl, Or.inl rfl, Or.inl rfl⟩
  · simp only [if_neg apart]
    by_cases child : (s.ptab p).pptr = c
    · simp only [if_pos child]
      cases (s.ptab 0).ignoresChld <;> by_cases member : (s.ptab p).pgrp = (s.ptab c).pid <;> simp [member]
    · simp only [if_neg child]
      by_cases member : (s.ptab p).pgrp = (s.ptab c).pid <;> simp [member]

theorem doexit_inv (inv : Inv z s) (live : (s.ptab c).status = Status.live) : Inv z (doexit s c) := by
  have others (p : Nat) (hp : p < PTABSIZE) :
      ((doexit s c).ptab p).pid = (s.ptab p).pid ∧ ((doexit s c).ptab p).session = (s.ptab p).session ∧
        (((doexit s c).ptab p).pgrp = (s.ptab p).pgrp ∨ ((doexit s c).ptab p).pgrp = 0) ∧
        (((doexit s c).ptab p).There z → (s.ptab p).There z) ∧
        (((doexit s c).ptab p).status ≠ Status.empty → (s.ptab p).status ≠ Status.empty) := by
    obtain ⟨pid, session, group, status⟩ := bereave_cases s c p
    by_cases own : p = c
    · have same : bereave s c c = s.ptab c := if_pos (Or.inr rfl)
      have bound : c < PTABSIZE := own ▸ hp
      have here : (doexit s c).ptab c = { s.ptab c with status :=
          if ((if (s.ptab c).pptr < PTABSIZE then bereave s c (s.ptab c).pptr
            else s.ptab (s.ptab c).pptr).ignoresChld) then Status.empty else Status.zombie } := by
        unfold doexit
        simp only [set_same, if_pos bound, same]
      rw [own, here]
      refine ⟨rfl, rfl, Or.inl rfl, fun _ => Or.inl live, fun _ => ?_⟩
      rw [live]
      decide
    · have here : (doexit s c).ptab p = bereave s c p := by
        unfold doexit
        rw [set_ne _ own]
        exact if_pos hp
      rw [here]
      refine ⟨pid, session, group, ?_, ?_⟩
      · intro there
        unfold Entry.There
        rw [← status.resolve_right there.nonempty]
        exact there
      · intro nonempty
        rw [← status.resolve_right nonempty]
        exact nonempty
  constructor
  · apply inv.sessions.mono
    intro p hp there
    obtain ⟨_, session, group, was, _⟩ := others p hp
    exact ⟨was there, session, group⟩
  · apply inv.unique.mono
    intro p hp nonempty
    obtain ⟨pid, _, _, _, was⟩ := others p hp
    exact ⟨was nonempty, pid⟩

theorem waitpid_inv (inv : Inv z s) (pid : Int) (reported : Nat → Bool) :
    Inv z (waitpid s c pid reported) := by
  unfold waitpid
  cases reap s c pid reported with
  | none => exact inv
  | some p =>
    simp only
    split
    · exact inv.bury _ rfl
    · exact inv

theorem setsid_cases (s : State) (c : Nat) :
    (s.Any fun q => q.pgrp = (s.ptab c).pid ∨ q.session = (s.ptab c).pid) ∧
      setsid s c = (.error EPERM, s) ∨
    (¬ s.Any fun q => q.pgrp = (s.ptab c).pid ∨ q.session = (s.ptab c).pid) ∧
      setsid s c = (.ok 0, s.set c { s.ptab c with
        pgrp := (s.ptab c).pid, session := (s.ptab c).pid, tty := 0 }) := by
  by_cases used : s.Any fun q => q.pgrp = (s.ptab c).pid ∨ q.session = (s.ptab c).pid
  · exact Or.inl ⟨used, if_pos used⟩
  · exact Or.inr ⟨used, if_neg used⟩

theorem setsid_inv (inv : Inv z s) : Inv z (setsid s c).2 := by
  rcases setsid_cases s c with ⟨_, refused⟩ | ⟨unused, done⟩
  · rw [refused]
    exact inv
  · rw [done]
    constructor
    · apply inv.sessions.set
      intro q hq _ _ same _
      exact absurd ⟨q, hq, Or.inl same⟩ unused
    · exact inv.unique.set c _ rfl (fun there => there)

theorem setsid_succeeds (clean : (s.Any fun q => q.pgrp = (s.ptab c).pid ∨ q.session = (s.ptab c).pid) →
      s.Any fun q => q.There z ∧ (q.pgrp = (s.ptab c).pid ∨ q.session = (s.ptab c).pid)) :
    (setsid s c).1 = .ok 0 ↔
      ¬ s.Any fun q => q.There z ∧ (q.pgrp = (s.ptab c).pid ∨ q.session = (s.ptab c).pid) := by
  rcases setsid_cases s c with ⟨used, refused⟩ | ⟨unused, done⟩
  · rw [refused]
    constructor
    · intro wrong
      cases wrong
    · intro free
      exact absurd (clean used) free
  · rw [done]
    constructor
    · rintro _ ⟨q, hq, _, same⟩
      exact unused ⟨q, hq, same⟩
    · intro _
      rfl

/-- The first entry with the number is that of the process, if any is. -/
theorem getsid_answers {pid : Nat} (clean : ∀ t,
      ((List.range PTABSIZE).find? fun p => (s.ptab p).pid = pid) = some t → (s.ptab t).There z) :
    (∃ p, p < PTABSIZE ∧ (s.ptab p).There z ∧ (s.ptab p).pid = pid ∧
        getsid s pid = .ok (s.ptab p).session) ∨
      getsid s pid = .error ESRCH ∧ ¬ s.Any fun q => q.There z ∧ q.pid = pid := by
  unfold getsid
  cases found : (List.range PTABSIZE).find? fun p => (s.ptab p).pid = pid with
  | none =>
    right
    refine ⟨rfl, ?_⟩
    rintro ⟨p, hp, _, same⟩
    exact find_none found p hp (decide_eq_true same)
  | some p =>
    left
    obtain ⟨hp, same⟩ := find_some found
    exact ⟨p, hp, clean p found, of_decide_eq_true same, rfl⟩

theorem enter_cases (s : State) (c t npgid : Nat) :
    (enter s c t npgid = (.error EPERM, s) ∧
      ((s.ptab t).session ≠ (s.ptab c).session ∨
        s.Any fun q => q.pgrp = (if npgid = 0 then (s.ptab t).pid else npgid) ∧
          q.session ≠ (s.ptab c).session)) ∨
    (enter s c t npgid = (.ok 0, s.set t { s.ptab t with
        pgrp := if npgid = 0 then (s.ptab t).pid else npgid }) ∧
      (s.ptab t).session = (s.ptab c).session ∧
        ¬ s.Any fun q => q.pgrp = (if npgid = 0 then (s.ptab t).pid else npgid) ∧
          q.session ≠ (s.ptab c).session) := by
  unfold enter
  by_cases foreign : (s.ptab t).session ≠ (s.ptab c).session
  · left
    exact ⟨if_pos foreign, Or.inl foreign⟩
  · simp only [if_neg foreign]
    by_cases used : s.Any fun q => q.pgrp = (if npgid = 0 then (s.ptab t).pid else npgid) ∧
      q.session ≠ (s.ptab c).session
    · left
      exact ⟨if_pos used, Or.inr used⟩
    · right
      exact ⟨if_neg used, not_not.mp foreign, used⟩

/-- The loop finds the process that is meant, or there is none. -/
theorem target_found {npid : Nat} (npgid : Nat) (inv : Inv z s) (bound : c < PTABSIZE)
    (live : (s.ptab c).status = Status.live)
    (clean : npid ≠ 0 → ∀ t, lastPid s npid PTABSIZE = some t → (s.ptab t).There z) :
    (setpgid s c npid npgid = (.error ESRCH, s) ∧ ¬ ∃ t, Target z s c npid t) ∨
    ∃ t, setpgid s c npid npgid = enter s c t npgid ∧ Target z s c npid t ∧
      ∀ u, Target z s c npid u → u = t := by
  unfold setpgid
  by_cases self : npid = 0
  · right
    refine ⟨c, by simp only [if_pos self], ⟨bound, Or.inl live, ?_⟩, ?_⟩
    · rw [if_pos self]
    · rintro u ⟨_, _, meant⟩
      rw [if_pos self] at meant
      exact meant
  · simp only [if_neg self]
    cases found : lastPid s npid PTABSIZE with
    | none =>
      left
      refine ⟨rfl, ?_⟩
      rintro ⟨t, ht, _, meant⟩
      rw [if_neg self] at meant
      exact lastPid_none found t ht meant
    | some t =>
      right
      obtain ⟨ht, pid⟩ := lastPid_some found
      have there := clean self t found
      refine ⟨t, rfl, ⟨ht, there, ?_⟩, ?_⟩
      · rw [if_neg self]
        exact pid
      · rintro u ⟨hu, thereU, meant⟩
        rw [if_neg self] at meant
        exact inv.unique u t hu ht thereU.nonempty there.nonempty (meant.trans pid.symm)

theorem setpgid_inv {npid npgid : Nat} (inv : Inv z s) : Inv z (setpgid s c npid npgid).2 := by
  unfold setpgid
  split
  · exact inv
  · rename_i t _
    rcases enter_cases s c t npgid with ⟨refused, _⟩ | ⟨done, session, unused⟩
    · rw [refused]
      exact inv
    · rw [done]
      constructor
      · apply inv.sessions.set
        intro q hq _ _ same _
        by_contra foreign
        apply unused
        refine ⟨q, hq, same, ?_⟩
        rw [← session]
        exact foreign
      · exact inv.unique.set t _ rfl (fun there => there)

theorem setpgid_answers {npid npgid : Nat} (inv : Inv z s) (bound : c < PTABSIZE)
    (live : (s.ptab c).status = Status.live)
    (clean : npid ≠ 0 → ∀ t, lastPid s npid PTABSIZE = some t → (s.ptab t).There z)
    (groups : ∀ t, Target z s c npid t → ∀ n, n = (if npgid = 0 then (s.ptab t).pid else npgid) →
        (s.Any fun q => q.pgrp = n ∧ q.session ≠ (s.ptab c).session) →
          s.Any fun q => q.There z ∧ q.pgrp = n ∧ q.session ≠ (s.ptab c).session) :
    ((setpgid s c npid npgid).1 = .error ESRCH ↔ ¬ ∃ t, Target z s c npid t) ∧
    ((setpgid s c npid npgid).1 = .ok 0 ↔ ∃ t, Target z s c npid t ∧ Permitted z s c t npgid) ∧
    ∀ p, (setpgid s c npid npgid).2.ptab p ≠ s.ptab p →
      (s.ptab p).There z ∧ (s.ptab p).session = (s.ptab c).session := by
  rcases target_found npgid inv bound live clean with ⟨result, nobody⟩ | ⟨t, result, target, only⟩
  · rw [result]
    refine ⟨⟨fun _ => nobody, fun _ => rfl⟩, ⟨?_, ?_⟩, ?_⟩
    · intro wrong
      cases wrong
    · rintro ⟨t, target, _⟩
      exact absurd ⟨t, target⟩ nobody
    · intro p changed
      exact absurd rfl changed
  · rw [result]
    rcases enter_cases s c t npgid with ⟨refused, because⟩ | ⟨done, session, unused⟩
    · rw [refused]
      refine ⟨⟨?_, ?_⟩, ⟨?_, ?_⟩, ?_⟩
      · intro wrong
        cases wrong
      · intro nobody
        exact absurd ⟨t, target⟩ nobody
      · intro wrong
        cases wrong
      · rintro ⟨u, targetU, session, unused⟩
        rw [only u targetU] at session unused
        rcases because with foreign | used
        · exact absurd session foreign
        · exact absurd (groups t target _ rfl used) unused
      · intro p changed
        exact absurd rfl changed
    · rw [done]
      refine ⟨⟨?_, ?_⟩, ⟨?_, ?_⟩, ?_⟩
      · intro wrong
        cases wrong
      · intro nobody
        exact absurd ⟨t, target⟩ nobody
      · intro _
        refine ⟨t, target, session, ?_⟩
        rintro ⟨q, hq, _, member, foreign⟩
        exact unused ⟨q, hq, member, foreign⟩
      · intro _
        rfl
      · intro p changed
        by_cases own : p = t
        · rw [own]
          exact ⟨target.2.1, session⟩
        · exact absurd (set_ne _ own) changed

theorem signal_inv (inv : Inv z s) (ignored : Bool) :
    Inv z (s.set c { s.ptab c with ignoresChld := ignored }) := by
  constructor
  · apply inv.sessions.mono
    intro p _ there
    by_cases own : p = c
    · rw [own, set_same] at there ⊢
      exact ⟨there, rfl, Or.inl rfl⟩
    · rw [set_ne _ own] at there ⊢
      exact ⟨there, rfl, Or.inl rfl⟩
  · exact inv.unique.set c _ rfl (fun there => there)

theorem step_inv {a : Action} (inv : Inv z s) (possible : Possible s a) (clean : Clean z s a) :
    Inv z (s.step a) := by
  obtain ⟨c, call⟩ := a
  obtain ⟨bound, live, _⟩ := possible
  cases call with
  | fork mem copied => exact fork_inv inv bound live clean
  | setsid => exact setsid_inv inv
  | setpgid npid npgid => exact setpgid_inv inv
  | setpgrp => exact setpgrp_inv inv clean
  | getsid pid => exact inv
  | exit => exact doexit_inv inv live
  | wait pid reported => exact waitpid_inv inv pid reported
  | signal ignored => exact signal_inv inv ignored

theorem right_of_clean {a : Action} (inv : Inv z s) (possible : Possible s a) (clean : Clean z s a) :
    Right z s a := by
  obtain ⟨c, call⟩ := a
  have sessions := (step_inv inv possible clean).sessions
  obtain ⟨bound, live, _⟩ := possible
  constructor
  · exact sessions
  · rintro rfl
    exact setsid_succeeds clean
  · rintro npid npgid rfl
    obtain ⟨missing, done, _⟩ := setpgid_answers inv bound live clean.1 clean.2
    exact ⟨missing, done⟩
  · rintro npid npgid rfl
    exact (setpgid_answers inv bound live clean.1 clean.2).2.2
  · rintro pid rfl
    exact getsid_answers clean

/-! ## Every run -/

/-- One process is in order by itself. -/
theorem alone_inv (alone : ∀ p, p ≠ 0 → (s.ptab p).status = Status.empty) : Inv z s := by
  have only (p : Nat) (nonempty : (s.ptab p).status ≠ Status.empty) : p = 0 := by
    by_contra other
    exact nonempty (alone p other)
  constructor
  · intro p q _ _ thereP thereQ _ _
    rw [only p thereP.nonempty, only q thereQ.nonempty]
  · intro p q _ _ nonemptyP nonemptyQ _
    rw [only p nonemptyP, only q nonemptyQ]

theorem boot_inv (z : Bool) : Inv z boot := by
  apply alone_inv
  intro p other
  simp [boot, other]

end

/-! ## The first fork -/

instance small : Machine := ⟨2, by decide⟩

/-- Init before it is given a group and a session. -/
def unset : State := { boot with ptab := fun p => { boot.ptab p with pgrp := 0, session := 0 } }

end Session
