import Fuzix.FamilyRuns

/-!
# Whom waitpid waits for

`_waitpid` with the check of its pointer, the signal that `chksigs` finds, and its rounds
over the process table, against the child that the caller names.
-/

namespace Waitpid

open Table Run Family
open Sched (Status)

def EFAULT : Nat := 14

/-- `badloc` says that `statloc` is no good address. -/
structure Args where
  pid : Int
  nohang : Bool
  untraced : Bool
  badloc : Bool

/-- The child that is asked for: one by its number, any, or a member of a group. -/
inductive Want where
  | child (n : Nat)
  | any
  | group (g : Nat)

/-- What the argument means to a caller in the group `g`. -/
def want (g : Nat) (pid : Int) : Want :=
  if 0 < pid then .child pid.toNat
  else if pid = -1 then .any
  else if pid = 0 then .group g
  else .group (-pid).toNat

def Want.admits : Want → Entry → Prop
  | .child n, q => q.pid = n
  | .any, _ => True
  | .group g, q => q.pgrp = g

instance (w : Want) (q : Entry) : Decidable (w.admits q) := by
  cases w <;> unfold Want.admits <;> infer_instance

section
variable [Machine]

/-! ## The call -/

/-- `if (pid == 0) pid = -udata.u_ptab->p_pgrp;` -/
def target (g : Nat) (pid : Int) : Int := if pid = 0 then -(g : Int) else pid

/-- A round of the loop: `cursig` says that `chksigs` found a signal to handle. -/
def round (g : Nat) (a : Args) (cursig : Bool) (s : State) : State × Answer :=
  if cursig then (s, .error EINTR) else waitRound (target g a.pid) a.nohang a.untraced s

/-- Some other entry has the caller for its parent. -/
def parental (s : State) : Prop :=
  ∃ p, p < PTABSIZE ∧ (s.ptab p).status ≠ .empty ∧ (s.ptab p).pptr = s.cur ∧ p ≠ s.cur

instance (s : State) : Decidable (parental s) :=
  decidable_of_iff (∃ p < PTABSIZE, (s.ptab p).status ≠ .empty ∧ (s.ptab p).pptr = s.cur ∧ p ≠ s.cur)
    Iff.rfl

/-- `_waitpid` up to the end of its first round. -/
def waitpid (a : Args) (cursig : Bool) (s : State) : State × Answer :=
  if a.badloc then (s, .error EFAULT)
  else if parental s then round s.me.pgrp a cursig s
  else (s, .error ECHILD)

/-- Without a signal and with a good pointer this is the call of the process families. -/
theorem waitpid_family (a : Args) (s : State) (good : a.badloc = false) :
    waitpid a false s = Family.waitpid a.pid a.nohang a.untraced s := by
  have same : ((List.range PTABSIZE).any fun p =>
      decide ((s.ptab p).status ≠ .empty ∧ (s.ptab p).pptr = s.cur ∧ p ≠ s.cur)) = true ↔ parental s := by
    simp only [List.any_eq_true, List.mem_range, decide_eq_true_eq]
    exact Iff.rfl
  unfold waitpid Family.waitpid round target
  by_cases kin : parental s
  · simp only [good, kin, same.mpr kin, if_true]
    rfl
  · have none : ¬ _ = true := fun some => kin (same.mp some)
    simp only [good, kin, none, if_false]
    rfl

/-! ## What is asked of it -/

/-- A live child of the caller that matches. -/
structure Matches (w : Want) (s : State) (p : Nat) : Prop where
  bound : p < PTABSIZE
  live : (s.ptab p).status ≠ .empty
  other : p ≠ s.cur
  child : (s.ptab p).pptr = s.cur
  admits : w.admits (s.ptab p)

/-- The child has something to report. -/
def changed (untraced : Bool) (q : Entry) : Prop :=
  q.status = .zombie ∨ untraced = true ∧ q.status = .stopped ∧ q.event ≠ 0

/-- The table without the zombie `p`. -/
def reaped (s : State) (p : Nat) : Nat → Entry := put s.ptab p { s.ptab p with status := .empty }

/-- The stop of `p` is reported. -/
def noted (s : State) (p : Nat) : Nat → Entry := put s.ptab p { s.ptab p with event := 0 }

/-- A zombie or a stop that is reported is that of a matching child, whose number is the
answer. The caller sleeps only for a matching child, and only if none has changed. -/
def Right (w : Want) (a : Args) (cursig : Bool) (s t : State) : Answer → Prop
  | .child n val => ∃ p, Matches w s p ∧ (s.ptab p).status = .zombie ∧
      n = (s.ptab p).pid ∧ val = (s.ptab p).exitval ∧ t.ptab = reaped s p
  | .stopped n => a.untraced = true ∧ ∃ p, Matches w s p ∧ (s.ptab p).status = .stopped ∧
      (s.ptab p).event ≠ 0 ∧ n = (s.ptab p).pid ∧ t.ptab = noted s p
  | .error e => t = s ∧ (e = EFAULT ∧ a.badloc = true ∨ e = ECHILD ∧ ¬ (∃ p, Matches w s p) ∨
      e = EINTR ∧ (∃ p, Matches w s p) ∧
        (cursig = true ∨ a.nohang = true ∧ ∀ p, Matches w s p → ¬ changed a.untraced (s.ptab p)))
  | .asleep => (∃ p, Matches w s p) ∧ a.nohang = false ∧
      (∀ p, Matches w s p → ¬ changed a.untraced (s.ptab p)) ∧
      t = modify s s.cur (psleep (ptabEvent s.cur))

/-! ## When it does it -/

/-- The test that ends the search through the table. -/
def takes (g : Nat) (a : Args) (s : State) (p : Nat) : Prop :=
  p < PTABSIZE ∧ wanted s (target g a.pid) p ∧
    ((s.ptab p).status = .zombie ∨ (s.ptab p).event ≠ 0 ∧ a.untraced = true)

/-- What the search is to end at: a matching zombie, or a matching stopped child whose
number happens to be the word that tells of the stop. -/
def proper (w : Want) (s : State) (p : Nat) : Prop :=
  p ≠ s.cur ∧ w.admits (s.ptab p) ∧ ((s.ptab p).status = .zombie ∨
    (s.ptab p).status = .stopped ∧ (s.ptab p).event * 256 + WSTOPPED = (s.ptab p).pid)

/-- There is a matching child, and the first entry that ends the search is a proper one. -/
def CleanRound (g : Nat) (a : Args) (cursig : Bool) (s : State) : Prop :=
  (∃ p, Matches (want g a.pid) s p) ∧
    (cursig = true ∨ ∀ p, takes g a s p → (∀ r < p, ¬ takes g a s r) → proper (want g a.pid) s p)

def Clean (a : Args) (cursig : Bool) (s : State) : Prop :=
  a.badloc = true ∨ ¬ parental s ∨ CleanRound s.me.pgrp a cursig s

/-! ## The search -/

end

end Waitpid
