import Fuzix.FamilyPids

/-!
# kill

`_kill` compares every entry of the process table with the number, the emptied ones
too, and an entry keeps its numbers when it is emptied. The comparison is made in the
width of an `int`.
-/

set_option linter.unusedSectionVars false

namespace Kill

open Table Family
open Sched (Status NSIGS SIGCONT)

def EPERM : Nat := 1
def ESRCH : Nat := 3
def EINVAL : Nat := 22

/-- How the kernel was built. -/
structure Port where
  int32 : Bool
  level2 : Bool

/-- What `can_signal` reads besides the table: the users and the sessions of the entries
and the effective user of the caller. -/
structure Owners where
  uid : Nat → Half
  session : Nat → Half
  euid : Half

/-- The cast `(int16_t)`. -/
def int16 (n : Int) : Int := n.bmod 65536

variable [Machine]

def can_signal (c : Port) (o : Owners) (s : State) (p sig : Nat) : Bool :=
  c.level2 && sig == SIGCONT && o.session s.cur == o.session p || o.uid s.cur == o.uid p ||
    o.euid == 0

/-- `-p->p_pgrp == pid || p->p_pid == pid`, where an `int` of 16 bits makes both sides
unsigned. -/
def matched (c : Port) (pid : Int) (q : Entry) : Bool :=
  if c.int32 then -(q.pgrp : Int) == pid || (q.pid : Int) == pid
  else -(q.pgrp : Int) % 65536 == pid % 65536 || (q.pid : Int) % 65536 == pid % 65536

/-- The state of the loop, with the entries that `ssig` was called for. -/
structure Scan where
  ptab : Nat → Entry
  posted : List Nat
  f : Bool
  s : Bool

def Scan.signal (r : Scan) (p sig : Nat) : Scan :=
  if sig = 0 then { r with f := true, s := true }
  else { r with
    ptab := put r.ptab p (ssig sig (r.ptab p))
    posted := r.posted ++ [p]
    f := true
    s := true }

/-- The loop over the table. -/
def scan (c : Port) (o : Owners) (s : State) (pid : Int) (sig : Nat) : List Nat → Scan → Scan
  | [], r => r
  | p :: ps, r =>
    if matched c pid (r.ptab p) then
      if can_signal c o s p sig then
        if 0 < pid then r.signal p sig else scan c o s pid sig ps (r.signal p sig)
      else scan c o s pid sig ps { r with f := true }
    else scan c o s pid sig ps r

/-- What `_kill` answers. -/
inductive Reply where
  | zero
  | error (err : Nat)
deriving DecidableEq

structure Killed where
  reply : Reply
  posted : List Nat
  ptab : Nat → Entry

/-- The number that the loop compares with. -/
def sought (s : State) (pid : Int) : Int :=
  if int16 pid = 0 then int16 (-(s.me.pgrp : Int)) else int16 pid

def _kill (c : Port) (o : Owners) (s : State) (pid sig : Int) : Killed :=
  if int16 sig < 0 ∨ (NSIGS : Int) ≤ int16 sig then ⟨.error EINVAL, [], s.ptab⟩
  else
    let r := scan c o s (sought s pid) (int16 sig).toNat (List.range PTABSIZE)
      ⟨s.ptab, [], false, false⟩
    ⟨if r.s then .zero else if r.f then .error EPERM else .error ESRCH, r.posted, r.ptab⟩

/-! ## What kill is for -/

/-- The number names the process in the slot. -/
def Named (s : State) (pid : Int) (p : Nat) : Prop :=
  p < PTABSIZE ∧ (s.ptab p).status ≠ .empty ∧
    if 0 < int16 pid then ((s.ptab p).pid : Int) = int16 pid
    else if int16 pid = 0 then (s.ptab p).pgrp = s.me.pgrp
    else ((s.ptab p).pgrp : Int) = -int16 pid

instance (s : State) (pid : Int) (p : Nat) : Decidable (Named s pid p) := by
  unfold Named; infer_instance

/-- It names the process, and the caller may send it the signal. -/
def Target (c : Port) (o : Owners) (s : State) (pid sig : Int) (p : Nat) : Prop :=
  Named s pid p ∧ can_signal c o s p (int16 sig).toNat = true

def Valid (sig : Int) : Prop := 0 ≤ int16 sig ∧ int16 sig < NSIGS

structure Right (c : Port) (o : Owners) (s : State) (pid sig : Int) (k : Killed) : Prop where
  refused : ¬ Valid sig → k = ⟨.error EINVAL, [], s.ptab⟩
  zero : Valid sig → (k.reply = .zero ↔ ∃ p, Target c o s pid sig p)
  perm : Valid sig → (k.reply = .error EPERM ↔
    (∃ p, Named s pid p) ∧ ∀ p, ¬ Target c o s pid sig p)
  srch : Valid sig → (k.reply = .error ESRCH ↔ ∀ p, ¬ Named s pid p)
  posts : Valid sig → ∀ p, (s.ptab p).status ≠ .empty →
    (p ∈ k.posted ↔ int16 sig ≠ 0 ∧ Target c o s pid sig p)
  reached : Valid sig → int16 sig ≠ 0 → ∀ p, Target c o s pid sig p →
    k.ptab p = ssig (int16 sig).toNat (s.ptab p)
  spared : Valid sig → ∀ p, int16 sig = 0 ∨ ¬ Target c o s pid sig p → k.ptab p = s.ptab p

/-- What `ptab_alloc` keeps of the numbers, and the width of `p_pgrp`. -/
structure Tidy (s : State) : Prop where
  cur : s.cur < PTABSIZE
  running : s.me.status ≠ .empty
  range : ∀ p < PTABSIZE, (s.ptab p).status ≠ .empty → 1 ≤ (s.ptab p).pid ∧ (s.ptab p).pid < 32768
  apart : ∀ p < PTABSIZE, ∀ q < PTABSIZE, (s.ptab p).status ≠ .empty →
    (s.ptab q).status ≠ .empty → (s.ptab p).pid = (s.ptab q).pid → p = q
  pgrp : ∀ p < PTABSIZE, (s.ptab p).pgrp < 65536

theorem tidy_iff {s : State} : (s.cur < PTABSIZE ∧ s.me.status ≠ .empty ∧
    (∀ p < PTABSIZE, (s.ptab p).status ≠ .empty → 1 ≤ (s.ptab p).pid ∧ (s.ptab p).pid < 32768) ∧
    (∀ p < PTABSIZE, ∀ q < PTABSIZE, (s.ptab p).status ≠ .empty →
      (s.ptab q).status ≠ .empty → (s.ptab p).pid = (s.ptab q).pid → p = q) ∧
    ∀ p < PTABSIZE, (s.ptab p).pgrp < 65536) ↔ Tidy s := by
  constructor
  · rintro ⟨cur, running, range, apart, pgrp⟩
    exact ⟨cur, running, range, apart, pgrp⟩
  · intro tidy
    exact ⟨tidy.cur, tidy.running, tidy.range, tidy.apart, tidy.pgrp⟩

set_option synthInstance.maxSize 512 in
instance tidyDecidable (s : State) : Decidable (Tidy s) := decidable_of_iff _ tidy_iff

theorem Tidy.of_numbered {s : State} {wrapped : Bool} (numbered : Numbered s wrapped)
    (cur : s.cur < PTABSIZE) (user : s.user) (pgrp : ∀ p < PTABSIZE, (s.ptab p).pgrp < 65536) : Tidy s := by
  constructor
  · exact cur
  · rw [user.2]
    intro no
    cases no
  · intro p bound used
    have range := numbered.range p bound used
    unfold MAXPID at range
    omega
  · intro p bound q bound' used used' same
    by_contra other
    exact numbered.apart p bound q bound' other used used' same
  · exact pgrp

/-! ## When it reaches them -/

/-- The comparison holds for the slot. -/
def Met (c : Port) (s : State) (pid : Int) (p : Nat) : Prop :=
  p < PTABSIZE ∧ matched c (sought s pid) (s.ptab p) = true

/-- It holds without a process of that name. -/
def Odd (c : Port) (s : State) (pid : Int) (p : Nat) : Prop := Met c s pid p ∧ ¬ Named s pid p

structure Clear (c : Port) (o : Owners) (s : State) (pid sig : Int) : Prop where
  barred : (∀ p, ¬ Target c o s pid sig p) → ∀ x, Odd c s pid x →
    can_signal c o s x (int16 sig).toNat = false
  absent : (∀ p, ¬ Named s pid p) → ∀ x, ¬ Odd c s pid x
  first : int16 sig ≠ 0 → 0 < sought s pid → ∀ p, Target c o s pid sig p →
    ∀ x, Met c s pid x → can_signal c o s x (int16 sig).toNat = true → p ≤ x
  met : ∀ p, Target c o s pid sig p → Met c s pid p ∨
    int16 sig = 0 ∧ ∃ x, Met c s pid x ∧ can_signal c o s x (int16 sig).toNat = true

/-! ## The numbers -/

section Numbers
variable {c : Port} {o : Owners} {s : State} {pid sig n : Int} {p : Nat}

theorem int16_range (n : Int) : -32768 ≤ int16 n ∧ int16 n < 32768 := by
  unfold int16 Int.bmod
  dsimp only
  split <;> omega

theorem int16_mod (n : Int) : int16 n % 65536 = n % 65536 := by
  unfold int16 Int.bmod
  dsimp only
  split <;> omega

theorem matched_iff : matched c n (s.ptab p) = true ↔
    if c.int32 then -((s.ptab p).pgrp : Int) = n ∨ ((s.ptab p).pid : Int) = n
    else -((s.ptab p).pgrp : Int) % 65536 = n % 65536 ∨ ((s.ptab p).pid : Int) % 65536 = n % 65536 := by
  unfold matched
  split
  · simp
  · simp

/-- With a number that names a group, no process of another group is met. -/
theorem named_of_met (tidy : Tidy s) (group : sought s pid ≤ 0) (used : (s.ptab p).status ≠ .empty)
    (met : Met c s pid p) : Named s pid p := by
  have range := tidy.range p met.1 used
  have mine := tidy.pgrp s.cur tidy.cur
  have its := tidy.pgrp p met.1
  have hit := matched_iff.mp met.2
  have low := int16_range pid
  have low' := int16_range (-(s.me.pgrp : Int))
  have same := int16_mod (-(s.me.pgrp : Int))
  unfold sought at *
  refine ⟨met.1, used, ?_⟩
  change s.me.pgrp < 65536 at mine
  split at group
  · rename_i own
    rw [if_neg (by omega), if_pos own]
    rw [if_pos own] at hit
    split at hit <;> omega
  · rename_i other
    rw [if_neg (by omega), if_neg other]
    rw [if_neg other] at hit
    split at hit <;> omega

/-- A process that the number itself names is met. -/
theorem met_of_named (given : int16 pid ≠ 0) (named : Named s pid p) :
    Met c s pid p := by
  obtain ⟨bound, _, number⟩ := named
  refine ⟨bound, matched_iff.mpr ?_⟩
  have same : sought s pid = int16 pid := if_neg given
  rw [same]
  split at number
  · split
    · exact Or.inr number
    · exact Or.inr (by rw [number])
  · split
    · exact Or.inl (by omega)
    · exact Or.inl (by omega)

theorem sought_group (small : s.me.pgrp < 32768) (group : int16 pid ≤ 0) : sought s pid ≤ 0 := by
  unfold sought
  split
  · have low := int16_range (-(s.me.pgrp : Int))
    have same := int16_mod (-(s.me.pgrp : Int))
    omega
  · exact group

/-- Without groups from 32768 on, the entries in the way are emptied ones. -/
theorem odd_empty (tidy : Tidy s) (small : ∀ p < PTABSIZE, (s.ptab p).pgrp < 32768)
    (odd : Odd c s pid p) : (s.ptab p).status = .empty := by
  by_contra used
  apply odd.2
  by_cases group : sought s pid ≤ 0
  · exact named_of_met tidy group used odd.1
  · have one : 0 < int16 pid := by
      by_contra low
      exact group (sought_group (small s.cur tidy.cur) (by omega))
    have same : sought s pid = int16 pid := if_neg (by omega)
    have low := small p odd.1.1
    have range := tidy.range p odd.1.1 used
    have high := int16_range pid
    have hit := matched_iff.mp odd.1.2
    rw [same] at hit
    refine ⟨odd.1.1, used, ?_⟩
    rw [if_pos one]
    split at hit <;> omega

/-- Without such a group the caller's own one is met too. -/
theorem met_of_small (small : s.me.pgrp ≤ 32768) (named : Named s pid p) : Met c s pid p := by
  by_cases own : int16 pid = 0
  · obtain ⟨bound, _, number⟩ := named
    rw [if_neg (by omega), if_pos own] at number
    refine ⟨bound, matched_iff.mpr ?_⟩
    have same : sought s pid = int16 (-(s.me.pgrp : Int)) := if_pos own
    have low := int16_range (-(s.me.pgrp : Int))
    have mod := int16_mod (-(s.me.pgrp : Int))
    rw [same, number]
    split
    · exact Or.inl (by omega)
    · exact Or.inl mod.symm
  · exact met_of_named own named

/-- The caller is one of its group, and may signal itself. -/
theorem self_target (tidy : Tidy s) (own : int16 pid = 0) : Target c o s pid sig s.cur := by
  constructor
  · refine ⟨tidy.cur, tidy.running, ?_⟩
    rw [if_neg (by omega), if_pos own]
    rfl
  · unfold can_signal
    simp

end Numbers

/-! ## The loop -/

section Loop
variable {c : Port} {o : Owners} {s : State} {n : Int} {sig : Nat}

/-- The entries that are met and may be signalled. -/
def hits (c : Port) (o : Owners) (s : State) (n : Int) (sig : Nat) (ps : List Nat) : List Nat :=
  ps.filter (fun p => matched c n (s.ptab p) && can_signal c o s p sig)

/-- Those of them that the loop comes to. -/
def chosen (c : Port) (o : Owners) (s : State) (n : Int) (sig : Nat) (ps : List Nat) : List Nat :=
  if 0 < n then (hits c o s n sig ps).take 1 else hits c o s n sig ps

/-- What a loop over `ps` makes of `r`. -/
structure Scanned (c : Port) (o : Owners) (s : State) (n : Int) (sig : Nat) (ps : List Nat)
    (r r' : Scan) : Prop where
  posted : r'.posted = r.posted ++ if sig = 0 then [] else chosen c o s n sig ps
  reached : sig ≠ 0 → ∀ p ∈ chosen c o s n sig ps, r'.ptab p = ssig sig (r.ptab p)
  spared : ∀ p, sig = 0 ∨ p ∉ chosen c o s n sig ps → r'.ptab p = r.ptab p
  found : r'.f = (r.f || ps.any (fun p => matched c n (s.ptab p)))
  signalled : r'.s = (r.s || !(hits c o s n sig ps).isEmpty)

/-- The loop has not come to the entries `ps`. -/
def Ahead (s : State) (r : Scan) (ps : List Nat) : Prop := ∀ p ∈ ps, r.ptab p = s.ptab p

variable {r r' : Scan} {p : Nat} {ps : List Nat}

theorem signal_f : (r.signal p sig).f = true := by
  unfold Scan.signal
  split <;> rfl

theorem signal_s : (r.signal p sig).s = true := by
  unfold Scan.signal
  split <;> rfl

theorem signal_posted : (r.signal p sig).posted = r.posted ++ if sig = 0 then [] else [p] := by
  unfold Scan.signal
  split
  · simp
  · rfl

theorem signal_same (some : sig ≠ 0) : (r.signal p sig).ptab p = ssig sig (r.ptab p) := by
  unfold Scan.signal
  rw [if_neg some]
  exact put_same _ _ _

theorem signal_ne {q : Nat} (other : sig = 0 ∨ q ≠ p) : (r.signal p sig).ptab q = r.ptab q := by
  unfold Scan.signal
  split
  · rfl
  · rename_i some
    rcases other with none | other
    · exact absurd none some
    · exact put_ne _ _ other

theorem hits_subset {q : Nat} (member : q ∈ chosen c o s n sig ps) : q ∈ ps := by
  have hit : q ∈ hits c o s n sig ps := by
    unfold chosen at member
    split at member
    · exact List.mem_of_mem_take member
    · exact member
  exact (List.mem_filter.mp hit).1

theorem Scanned.nil : Scanned c o s n sig [] r r := by
  constructor <;> simp [chosen, hits]

/-- An entry that is not signalled. -/
theorem Scanned.skip {r₁ : Scan} (same : hits c o s n sig (p :: ps) = hits c o s n sig ps)
    (went : r₁ = { r with f := r.f || matched c n (s.ptab p) }) (rest : Scanned c o s n sig ps r₁ r') :
    Scanned c o s n sig (p :: ps) r r' := by
  have same' : chosen c o s n sig (p :: ps) = chosen c o s n sig ps := by
    simp [chosen, same]
  subst went
  constructor
  · rw [same']
    exact rest.posted
  · rw [same']
    exact rest.reached
  · rw [same']
    exact rest.spared
  · simp [rest.found, Bool.or_assoc]
  · rw [same]
    exact rest.signalled

/-- An entry that is not met. -/
theorem Scanned.pass (met : ¬ matched c n (s.ptab p) = true) (rest : Scanned c o s n sig ps r r') :
    Scanned c o s n sig (p :: ps) r r' := by
  apply Scanned.skip _ _ rest
  · simp [hits, met]
  · simp [met]

/-- An entry that is met and that the caller may not signal. -/
theorem Scanned.bar (met : matched c n (s.ptab p) = true) (allowed : ¬ can_signal c o s p sig = true)
    (rest : Scanned c o s n sig ps { r with f := true } r') : Scanned c o s n sig (p :: ps) r r' := by
  apply Scanned.skip _ _ rest
  · simp [hits, allowed]
  · simp [met]

/-- The loop for one process ends at the first entry that it signals. -/
theorem Scanned.stop (one : 0 < n) (met : matched c n (s.ptab p) = true)
    (allowed : can_signal c o s p sig = true) : Scanned c o s n sig (p :: ps) r (r.signal p sig) := by
  have first : chosen c o s n sig (p :: ps) = [p] := by
    simp [chosen, hits, one, met, allowed]
  constructor
  · rw [first]
    exact signal_posted
  · rw [first]
    intro some q member
    rw [List.mem_singleton.mp member]
    exact signal_same some
  · rw [first]
    intro q other
    exact signal_ne (other.imp id (fun outside same => outside (List.mem_singleton.mpr same)))
  · simp [signal_f, met]
  · simp [signal_s, hits, met, allowed]

/-- The loop for a group goes on. -/
theorem Scanned.go (group : ¬ 0 < n) (fresh : p ∉ ps) (met : matched c n (s.ptab p) = true)
    (allowed : can_signal c o s p sig = true) (rest : Scanned c o s n sig ps (r.signal p sig) r') :
    Scanned c o s n sig (p :: ps) r r' := by
  have first : chosen c o s n sig (p :: ps) = p :: chosen c o s n sig ps := by
    simp [chosen, hits, group, met, allowed]
  constructor
  · rw [first, rest.posted, signal_posted]
    split
    · simp
    · simp
  · rw [first]
    intro some q member
    rcases List.mem_cons.mp member with same | later
    · have behind : p ∉ chosen c o s n sig ps := fun inside => fresh (hits_subset inside)
      rw [same, rest.spared p (Or.inr behind)]
      exact signal_same some
    · have other : q ≠ p := fun same => fresh (same ▸ hits_subset later)
      rw [rest.reached some q later, signal_ne (Or.inr other)]
  · rw [first]
    intro q outside
    have later : sig = 0 ∨ q ∉ chosen c o s n sig ps :=
      outside.imp id (fun no inside => no (List.mem_cons_of_mem p inside))
    have other : sig = 0 ∨ q ≠ p := outside.imp id (fun no same => no (same ▸ List.mem_cons_self))
    rw [rest.spared q later, signal_ne other]
  · simp [rest.found, signal_f, met]
  · simp [rest.signalled, signal_s, hits, met, allowed]

theorem scan_spec (nodup : ps.Nodup) (ahead : Ahead s r ps) :
    Scanned c o s n sig ps r (scan c o s n sig ps r) := by
  induction ps generalizing r with
  | nil => exact Scanned.nil
  | cons p ps ih =>
    have fresh := (List.nodup_cons.mp nodup).1
    have rest := (List.nodup_cons.mp nodup).2
    have here : r.ptab p = s.ptab p := ahead p List.mem_cons_self
    have later : Ahead s r ps := fun q member => ahead q (List.mem_cons_of_mem p member)
    unfold scan
    rw [here]
    by_cases met : matched c n (s.ptab p) = true
    · rw [if_pos met]
      by_cases allowed : can_signal c o s p sig = true
      · rw [if_pos allowed]
        by_cases one : 0 < n
        · rw [if_pos one]
          exact Scanned.stop one met allowed
        · rw [if_neg one]
          apply Scanned.go one fresh met allowed
          apply ih rest
          intro q member
          have other : q ≠ p := fun same => fresh (same ▸ member)
          rw [signal_ne (Or.inr other)]
          exact later q member
      · rw [if_neg allowed]
        exact Scanned.bar met allowed (ih rest later)
    · rw [if_neg met]
      exact Scanned.pass met (ih rest later)

end Loop

/-! ## The call -/

section Call
variable {c : Port} {o : Owners} {s : State} {pid sig : Int} {p : Nat}

/-- The entry is met and the caller may signal it. -/
def Hit (c : Port) (o : Owners) (s : State) (pid sig : Int) (p : Nat) : Prop :=
  Met c s pid p ∧ can_signal c o s p (int16 sig).toNat = true

theorem mem_hits : p ∈ hits c o s (sought s pid) (int16 sig).toNat (List.range PTABSIZE) ↔
    Hit c o s pid sig p := by
  unfold hits Hit Met
  simp [and_assoc]

theorem mem_take_one {l : List Nat} (sorted : l.Pairwise (· < ·)) :
    p ∈ l.take 1 ↔ p ∈ l ∧ ∀ x ∈ l, p ≤ x := by
  cases l with
  | nil => simp
  | cons a l =>
    have above := (List.pairwise_cons.mp sorted).1
    constructor
    · intro member
      have same : p = a := by simpa using member
      subst same
      refine ⟨List.mem_cons_self, fun x member => ?_⟩
      rcases List.mem_cons.mp member with same | later
      · exact Nat.le_of_eq same.symm
      · exact Nat.le_of_lt (above x later)
    · rintro ⟨member, least⟩
      have low := least a List.mem_cons_self
      rcases List.mem_cons.mp member with same | later
      · simp [same]
      · have high := above p later
        omega

/-- What `_kill` does with a signal that there is. -/
structure Answered (c : Port) (o : Owners) (s : State) (pid sig : Int) (k : Killed) : Prop where
  zero : k.reply = .zero ↔ ∃ p, Hit c o s pid sig p
  perm : k.reply = .error EPERM ↔ (∃ p, Met c s pid p) ∧ ∀ p, ¬ Hit c o s pid sig p
  srch : k.reply = .error ESRCH ↔ ∀ p, ¬ Met c s pid p
  posts : ∀ p, p ∈ k.posted ↔ int16 sig ≠ 0 ∧ Hit c o s pid sig p ∧
    (0 < sought s pid → ∀ x, Hit c o s pid sig x → p ≤ x)
  reached : ∀ p ∈ k.posted, k.ptab p = ssig (int16 sig).toNat (s.ptab p)
  spared : ∀ p, p ∉ k.posted → k.ptab p = s.ptab p

theorem mem_chosen : p ∈ chosen c o s (sought s pid) (int16 sig).toNat (List.range PTABSIZE) ↔
    Hit c o s pid sig p ∧ (0 < sought s pid → ∀ x, Hit c o s pid sig x → p ≤ x) := by
  have sorted : (hits c o s (sought s pid) (int16 sig).toNat (List.range PTABSIZE)).Pairwise (· < ·) :=
    List.Pairwise.filter _ List.pairwise_lt_range
  unfold chosen
  split
  · rename_i one
    rw [mem_take_one sorted, mem_hits]
    simp only [mem_hits, one, forall_const]
  · rename_i group
    rw [mem_hits]
    exact ⟨fun hit => ⟨hit, fun one => absurd one group⟩, fun both => both.1⟩

theorem reply_iff (f s : Bool) :
    ((if s then Reply.zero else if f then .error EPERM else .error ESRCH) = .zero ↔ s = true) ∧
    ((if s then Reply.zero else if f then .error EPERM else .error ESRCH) = .error EPERM ↔
      f = true ∧ ¬ s = true) ∧
    ((if s then Reply.zero else if f then .error EPERM else .error ESRCH) = .error ESRCH ↔
      ¬ s = true ∧ ¬ f = true) := by
  cases s <;> cases f <;> simp [EPERM, ESRCH]

theorem kill_answered (valid : Valid sig) : Answered c o s pid sig (_kill c o s pid sig) := by
  have known : ¬ (int16 sig < 0 ∨ (NSIGS : Int) ≤ int16 sig) := by
    have := valid.1
    have := valid.2
    omega
  have done := @scan_spec _ c o s (sought s pid) (int16 sig).toNat ⟨s.ptab, [], false, false⟩
    (List.range PTABSIZE) List.nodup_range
    (fun _ _ => rfl)
  have none : (int16 sig).toNat = 0 ↔ int16 sig = 0 := by
    have := valid.1
    omega
  have found : (scan c o s (sought s pid) (int16 sig).toNat (List.range PTABSIZE)
      ⟨s.ptab, [], false, false⟩).f = true ↔ ∃ p, Met c s pid p := by
    rw [done.found]
    unfold Met
    simp
  have signalled : (scan c o s (sought s pid) (int16 sig).toNat (List.range PTABSIZE)
      ⟨s.ptab, [], false, false⟩).s = true ↔ ∃ p, Hit c o s pid sig p := by
    rw [done.signalled]
    simp only [Bool.false_or, Bool.not_eq_true', List.isEmpty_eq_false_iff_exists_mem, mem_hits]
  have posted : ∀ p, p ∈ (scan c o s (sought s pid) (int16 sig).toNat (List.range PTABSIZE)
      ⟨s.ptab, [], false, false⟩).posted ↔ int16 sig ≠ 0 ∧ p ∈ chosen c o s (sought s pid)
        (int16 sig).toNat (List.range PTABSIZE) := by
    intro p
    rw [done.posted]
    by_cases zero : int16 sig = 0
    · simp [zero]
    · simp [none, zero]
  unfold _kill
  rw [if_neg known]
  dsimp only
  constructor
  · rw [← signalled]
    exact (reply_iff _ _).1
  · rw [← found, ← not_exists, ← signalled]
    exact (reply_iff _ _).2.1
  · rw [← not_exists, ← found, (reply_iff _ _).2.2]
    constructor
    · exact fun both => both.2
    · intro unmet
      refine ⟨fun hit => unmet ?_, unmet⟩
      obtain ⟨p, met, _⟩ := signalled.mp hit
      exact found.mpr ⟨p, met⟩
  · intro p
    exact (posted p).trans (and_congr_right (fun _ => mem_chosen))
  · intro p member
    have taken := (posted p).mp member
    exact done.reached (fun no => taken.1 (none.mp no)) p taken.2
  · intro p outside
    apply done.spared
    by_cases zero : int16 sig = 0
    · exact Or.inl (none.mpr zero)
    · exact Or.inr (fun inside => outside ((posted p).mpr ⟨zero, inside⟩))

/-- With a wide `int` the loop comes to the entries of `targets`. -/
theorem chosen_targets (wide : c.int32 = true) (small : s.me.pgrp ≤ 32768) :
    chosen c o s (sought s pid) (int16 sig).toNat (List.range PTABSIZE) =
      targets s (int16 pid) (fun p => can_signal c o s p (int16 sig).toNat) := by
  have number : sought s pid = if int16 pid = 0 then -(s.me.pgrp : Int) else int16 pid := by
    unfold sought
    have low := int16_range (-(s.me.pgrp : Int))
    have mod := int16_mod (-(s.me.pgrp : Int))
    split
    · omega
    · rfl
  unfold chosen targets hits
  rw [number]
  simp [matched, wide, Bool.beq_eq_decide_eq]

/-- The processes of a run see the table that `_kill` leaves. -/
theorem kill_family (wide : c.int32 = true) (small : s.me.pgrp ≤ 32768) (valid : Valid sig) :
    (_kill c o s pid sig).ptab = (Family.kill (int16 pid) (int16 sig).toNat
      (fun p => can_signal c o s p (int16 sig).toNat) s).ptab := by
  have answered := @kill_answered _ c o s pid sig valid
  have posted : ∀ p, p ∈ (_kill c o s pid sig).posted ↔ int16 sig ≠ 0 ∧
      p ∈ targets s (int16 pid) (fun p => can_signal c o s p (int16 sig).toNat) := by
    intro p
    rw [answered.posts, ← chosen_targets wide small, mem_chosen]
  have none : (int16 sig).toNat = 0 ↔ int16 sig = 0 := by
    have := valid.1
    omega
  funext p
  by_cases inside : p ∈ (_kill c o s pid sig).posted
  · have both := (posted p).mp inside
    have bound : p < PTABSIZE := ((answered.posts p).mp inside).2.1.1.1
    rw [answered.reached p inside]
    unfold Family.kill eachProc
    rw [if_neg (fun no => both.1 (none.mp no))]
    dsimp only
    rw [if_pos bound, if_pos both.2]
  · rw [answered.spared p inside]
    unfold Family.kill eachProc
    split
    · rfl
    · rename_i some
      have outside : p ∉ targets s (int16 pid) (fun p => can_signal c o s p (int16 sig).toNat) :=
        fun member => inside ((posted p).mpr ⟨fun no => some (none.mpr no), member⟩)
      dsimp only
      rw [if_neg outside]
      split <;> rfl

/-- `ssig` leaves an emptied entry as it is. -/
theorem ssig_empty {q : Entry} {g : Nat} (empty : q.status = .empty) : ssig g q = q := by
  unfold ssig
  exact if_pos empty

/-- The processes that are met, when `_kill` reaches its targets. -/
theorem posts_clear (tidy : Tidy s) (clear : Clear c o s pid sig) (used : (s.ptab p).status ≠ .empty) :
    (int16 sig ≠ 0 ∧ Hit c o s pid sig p ∧ (0 < sought s pid → ∀ x, Hit c o s pid sig x → p ≤ x)) ↔
      int16 sig ≠ 0 ∧ Target c o s pid sig p := by
  constructor
  · rintro ⟨some, hit, least⟩
    refine ⟨some, ?_⟩
    by_cases one : 0 < sought s pid
    · by_contra other
      have odd : Odd c s pid p := ⟨hit.1, fun named => other ⟨named, hit.2⟩⟩
      by_cases any : ∃ a, Target c o s pid sig a
      · obtain ⟨a, target⟩ := any
        have met : Met c s pid a := by
          rcases clear.met a target with met | ⟨none, _⟩
          · exact met
          · exact absurd none some
        have low := clear.first some one a target p hit.1 hit.2
        have high := least one a ⟨met, target.2⟩
        have same : a = p := by omega
        exact other (same ▸ target)
      · have barred := clear.barred (fun a target => any ⟨a, target⟩) p odd
        rw [hit.2] at barred
        cases barred
    · exact ⟨named_of_met tidy (by omega) used hit.1, hit.2⟩
  · rintro ⟨some, target⟩
    have met : Met c s pid p := by
      rcases clear.met p target with met | ⟨none, _⟩
      · exact met
      · exact absurd none some
    exact ⟨some, ⟨met, target.2⟩, fun one x hit => clear.first some one p target x hit.1 hit.2⟩

theorem hits_clear (clear : Clear c o s pid sig) :
    (∃ p, Hit c o s pid sig p) ↔ ∃ p, Target c o s pid sig p := by
  constructor
  · rintro ⟨p, hit⟩
    by_contra no
    have named : ¬ Named s pid p := fun named => no ⟨p, named, hit.2⟩
    have barred := clear.barred (fun a target => no ⟨a, target⟩) p ⟨hit.1, named⟩
    rw [hit.2] at barred
    cases barred
  · rintro ⟨p, target⟩
    rcases clear.met p target with met | ⟨_, x, hit⟩
    · exact ⟨p, met, target.2⟩
    · exact ⟨x, hit⟩

/-- Someone is met if someone is named. -/
theorem mets_clear (tidy : Tidy s) (clear : Clear c o s pid sig) :
    (∃ p, Met c s pid p) ↔ ∃ p, Named s pid p := by
  constructor
  · rintro ⟨p, met⟩
    by_contra no
    have odd : Odd c s pid p := ⟨met, fun named => no ⟨p, named⟩⟩
    exact clear.absent (fun a named => no ⟨a, named⟩) p odd
  · rintro ⟨p, named⟩
    by_cases own : int16 pid = 0
    · obtain ⟨x, hit⟩ := (hits_clear clear).mpr ⟨s.cur, self_target tidy own⟩
      exact ⟨x, hit.1⟩
    · exact ⟨p, met_of_named own named⟩

theorem right_of_clear (tidy : Tidy s) (clear : Valid sig → Clear c o s pid sig) :
    Right c o s pid sig (_kill c o s pid sig) := by
  constructor
  · intro invalid
    unfold _kill
    rw [if_pos]
    unfold Valid at invalid
    omega
  · intro valid
    rw [(kill_answered valid).zero, hits_clear (clear valid)]
  · intro valid
    rw [(kill_answered valid).perm, mets_clear tidy (clear valid), ← not_exists,
      hits_clear (clear valid), not_exists]
  · intro valid
    rw [(kill_answered valid).srch, ← not_exists, mets_clear tidy (clear valid), not_exists]
  · intro valid p used
    rw [(kill_answered valid).posts]
    exact posts_clear tidy (clear valid) used
  · intro valid some p target
    apply (kill_answered valid).reached
    rw [(kill_answered valid).posts, posts_clear tidy (clear valid) target.1.2.1]
    exact ⟨some, target⟩
  · intro valid p other
    by_cases posted : p ∈ (_kill c o s pid sig).posted
    · rw [(kill_answered valid).reached p posted]
      apply ssig_empty
      by_contra used
      have both := (posts_clear tidy (clear valid) used).mp (((kill_answered valid).posts p).mp posted)
      rcases other with none | other
      · exact both.1 none
      · exact other both.2
    · exact (kill_answered valid).spared p posted

theorem clear_of_right (valid : Valid sig) (right : Right c o s pid sig (_kill c o s pid sig)) :
    Clear c o s pid sig := by
  have answered := @kill_answered _ c o s pid sig valid
  have some_hit : (∃ p, Hit c o s pid sig p) ↔ ∃ p, Target c o s pid sig p :=
    answered.zero.symm.trans (right.zero valid)
  have posts : int16 sig ≠ 0 → ∀ p, Target c o s pid sig p → Hit c o s pid sig p ∧
      (0 < sought s pid → ∀ x, Hit c o s pid sig x → p ≤ x) := by
    intro some p target
    have posted := (right.posts valid p target.1.2.1).mpr ⟨some, target⟩
    exact ((answered.posts p).mp posted).2
  constructor
  · intro none x odd
    by_contra allowed
    obtain ⟨p, target⟩ := some_hit.mp ⟨x, odd.1, by simpa using allowed⟩
    exact none p target
  · intro none x odd
    have unmet := answered.srch.mp ((right.srch valid).mpr none)
    exact unmet x odd.1
  · intro some one p target x met allowed
    exact (posts some p target).2 one x ⟨met, allowed⟩
  · intro p target
    by_cases zero : int16 sig = 0
    · exact Or.inr ⟨zero, some_hit.mpr ⟨p, target⟩⟩
    · exact Or.inl (posts zero p target).1.1

/-- `_kill` reaches exactly its targets if no entry that is met without a process of that
name is in the way. -/
theorem kill_exact (c : Port) (o : Owners) (s : State) (pid sig : Int) (tidy : Tidy s) :
    Right c o s pid sig (_kill c o s pid sig) ↔ (Valid sig → Clear c o s pid sig) := by
  constructor
  · exact fun right valid => clear_of_right valid right
  · exact right_of_clear tidy

end Call

omit [Machine]

/-- The run of a child that exits and is waited for. -/
def reaping : List Action := [.fork true, .exit 0, .gone, .switch 0, .waitpid (-1) false false]

/-- Everything belongs to the super-user. -/
def root : Owners := ⟨fun _ => 0, fun _ => 0, 0⟩

theorem kill_family_init : ∃ _ : Machine, (_kill ⟨true, false⟩ root (boot 1 [2, 3]) 1 15).ptab =
    (Family.kill (int16 1) (int16 15).toNat (fun p => can_signal ⟨true, false⟩ root (boot 1 [2, 3]) p 15)
      (boot 1 [2, 3])).ptab :=
  ⟨small, @kill_family small _ _ _ _ _ rfl (by decide) ⟨by decide, by decide⟩⟩

/-- A child sends a signal to init. -/
theorem kill_exact_init : ∃ (_ : Machine) (s : State), Tidy s ∧
    Right ⟨false, false⟩ root s 1 15 (_kill ⟨false, false⟩ root s 1 15) := by
  let m := small
  have run : ((Action.fork true).apply (boot 1 [2, 3])).map (fun s =>
      (decide (Tidy s), decide (Named s 1 0), decide (∀ p < PTABSIZE, Named s 1 p → p = 0),
        decide (s.me.pgrp ≤ 32768))) = some (true, true, true, true) := by decide +kernel
  obtain ⟨s, _, result⟩ := Option.map_eq_some_iff.mp run
  injection result with fine rest
  injection rest with named rest
  injection rest with only low
  have fine := of_decide_eq_true fine
  have named := of_decide_eq_true named
  have only := of_decide_eq_true only
  have target : Target ⟨false, false⟩ root s 1 15 0 := ⟨named, rfl⟩
  have clear : Clear ⟨false, false⟩ root s 1 15 := by
    constructor
    · exact fun no => absurd target (no 0)
    · exact fun no => absurd named (no 0)
    · intro _ _ p first x _ _
      rw [only p first.1.1 first.1]
      exact Nat.zero_le x
    · exact fun p first => Or.inl (met_of_small (of_decide_eq_true low) first.1)
  exact ⟨small, s, fine, (kill_exact _ _ s 1 15 fine).mpr (fun _ => clear)⟩

/-- A child has been waited for, and a signal for it is still accepted. -/
theorem kill_reaped : ∃ (_ : Machine) (c : Port) (o : Owners) (s : State),
    Run.Steps (fun s a t => Action.apply s a = some t) (boot 1 [2, 3]) reaping s ∧ Tidy s ∧
    (_kill c o s 2 15).reply = .zero ∧ (∀ p, ¬ Named s 2 p) ∧
    ¬ Right c o s 2 15 (_kill c o s 2 15) := by
  let m := small
  have run : (Run.perform Action.apply (fun _ _ => True) reaping (boot 1 [2, 3])).map (fun s =>
      (decide (Tidy s), (_kill ⟨false, false⟩ root s 2 15).reply,
        decide (∀ p < PTABSIZE, ¬ Named s 2 p))) = some (true, .zero, true) := by decide +kernel
  obtain ⟨s, ran, result⟩ := Option.map_eq_some_iff.mp run
  injection result with fine rest
  injection rest with zero nobody
  have none : ∀ p, ¬ Named s 2 p := fun p named => of_decide_eq_true nobody p named.1 named
  refine ⟨small, ⟨false, false⟩, root, s, (Run.perform_steps ran).mono fun _ _ _ step => step.2,
    of_decide_eq_true fine, zero, none, fun right => ?_⟩
  obtain ⟨p, target⟩ := (right.zero ⟨by decide, by decide⟩).mp zero
  exact none p target.1

end Kill
