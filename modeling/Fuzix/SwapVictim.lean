import Fuzix.BankRuns

/-!
# Who is swapped out

`swapvictim` scans the process table once. It remembers the last ready process and the one
that has waited longest, and never looks at what the latter is.
-/

namespace Bank16k

open Table

variable [Machine] {s : State} {p : Option Nat} {c k n : Nat}

/-! ## The scan -/

/-- The process of round `k`. -/
def scan (s : State) (k : Nat) : Nat := (s.nextp + k) % PTABSIZE

def Readies (s : State) (c : Nat) : Prop := ¬ (s.ptab c).noPage ∧ (s.ptab c).status = .ready

/-- The status is above that of a ready process: the process waits, or it is in a fork, or
dead. -/
def Waits (s : State) (c : Nat) : Prop :=
  ¬ (s.ptab c).noPage ∧ Status.code .ready < Status.code (s.ptab c).status

/-- How long ago the process began to wait, in 16 bits. -/
def age (s : State) (c : Nat) : Nat := (s.waitno + 65536 - (s.ptab c).waitno) % 65536

instance (s : State) (c : Nat) : Decidable (Readies s c) := by unfold Readies; infer_instance

instance (s : State) (c : Nat) : Decidable (Waits s c) := by unfold Waits; infer_instance

/-- Round `k` is the last of `n` with a ready process. -/
def LastReady (s : State) (n k : Nat) : Prop :=
  k < n ∧ Readies s (scan s k) ∧ ∀ j, k < j → j < n → ¬ Readies s (scan s j)

/-- The process of round `k` is the oldest of those that wait, and the last one of its age. -/
def Oldest (s : State) (n k : Nat) : Prop :=
  k < n ∧ Waits s (scan s k) ∧ ∀ j < n, Waits s (scan s j) →
    age s (scan s j) ≤ age s (scan s k) ∧ (k < j → age s (scan s j) < age s (scan s k))

theorem LastReady.unique {j : Nat} (first : LastReady s n j) (second : LastReady s n k) : j = k := by
  rcases Nat.lt_trichotomy j k with less | same | more
  · exact absurd second.2.1 (first.2.2 k less second.1)
  · exact same
  · exact absurd first.2.1 (second.2.2 j more first.1)

theorem Oldest.unique {j : Nat} (first : Oldest s n j) (second : Oldest s n k) : j = k := by
  have one := first.2.2 k second.1 second.2.1
  have two := second.2.2 j first.1 first.2.1
  rcases Nat.lt_trichotomy j k with less | same | more
  · have younger := one.2 less
    omega
  · exact same
  · have younger := two.2 more
    omega

/-- The status of `p` lets a process that waits be the victim. -/
def Allows (s : State) (p : Option Nat) : Prop := statusOf s p ≤ Status.code .forking

instance (s : State) (p : Option Nat) : Decidable (Allows s p) := by unfold Allows; infer_instance

/-- What the loop has found in the first `n` rounds. -/
structure Found (s : State) (p : Option Nat) (n : Nat) (found : Option Nat × Option Nat × Nat) : Prop where
  noReady : found.1 = none → ∀ k < n, ¬ Readies s (scan s k)
  ready : ∀ c, found.1 = some c → ∃ k, LastReady s n k ∧ scan s k = c
  barred : ¬ Allows s p → found.2.1 = none
  noWaiter : Allows s p → found.2.1 = none → found.2.2 = 0 ∧ ∀ k < n, ¬ Waits s (scan s k)
  waiter : ∀ c, found.2.1 = some c → ∃ k, Oldest s n k ∧ scan s k = c ∧ found.2.2 = age s c

theorem LastReady.later (last : LastReady s n k) (other : ¬ Readies s (scan s n)) : LastReady s (n + 1) k := by
  refine ⟨by have := last.1; omega, last.2.1, fun j above below => ?_⟩
  by_cases top : j = n
  · rw [top]
    exact other
  · exact last.2.2 j above (by omega)

theorem lastReady_new (here : Readies s (scan s n)) : LastReady s (n + 1) n :=
  ⟨Nat.lt_succ_self n, here, fun j above below => by omega⟩

/-- A round finds a process that does not wait, or a younger one. -/
theorem Oldest.later (old : Oldest s n k)
    (other : Waits s (scan s n) → age s (scan s n) < age s (scan s k)) : Oldest s (n + 1) k := by
  refine ⟨by have := old.1; omega, old.2.1, fun j below waits => ?_⟩
  by_cases top : j = n
  · rw [top] at waits
    have younger := other waits
    rw [top]
    exact ⟨by omega, fun _ => younger⟩
  · exact old.2.2 j (by omega) waits

theorem oldest_new (here : Waits s (scan s n))
    (before : ∀ j < n, Waits s (scan s j) → age s (scan s j) ≤ age s (scan s n)) : Oldest s (n + 1) n := by
  refine ⟨Nat.lt_succ_self n, here, fun j below waits => ?_⟩
  by_cases top : j = n
  · rw [top]
    exact ⟨Nat.le_refl _, fun no => by omega⟩
  · exact ⟨before j (by omega) waits, fun no => by omega⟩

theorem look_found {found : Option Nat × Option Nat × Nat} (before : Found s p n found) :
    Found s p (n + 1) (look s p found (scan s n)) := by
  obtain ⟨r, f, sc⟩ := found
  have ready_part : ∀ r', (r' = if Readies s (scan s n) then some (scan s n) else r) →
      (r' = none → ∀ k < n + 1, ¬ Readies s (scan s k)) ∧
        ∀ c, r' = some c → ∃ k, LastReady s (n + 1) k ∧ scan s k = c := by
    intro r' same
    by_cases here : Readies s (scan s n)
    · rw [if_pos here] at same
      subst same
      constructor
      · intro no
        cases no
      intro c equal
      injection equal with equal
      exact ⟨n, lastReady_new here, equal⟩
    · rw [if_neg here] at same
      subst same
      constructor
      · intro none k below
        by_cases top : k = n
        · rw [top]
          exact here
        · exact before.noReady none k (by omega)
      · intro c equal
        obtain ⟨k, last, there⟩ := before.ready c equal
        exact ⟨k, last.later here, there⟩
  have keeps : (Waits s (scan s n) → Allows s p → age s (scan s n) < sc) →
      (Allows s p → f = none → sc = 0 ∧ ∀ k < n + 1, ¬ Waits s (scan s k)) ∧
        ∀ c, f = some c → ∃ k, Oldest s (n + 1) k ∧ scan s k = c ∧ sc = age s c := by
    intro younger
    constructor
    · intro allowed none
      obtain ⟨zero, nobody⟩ := before.noWaiter allowed none
      refine ⟨zero, fun k below waits => ?_⟩
      by_cases top : k = n
      · rw [top] at waits
        have less := younger waits allowed
        have zero : sc = 0 := zero
        omega
      · exact nobody k (by omega) waits
    · intro c equal
      obtain ⟨k, old, there, clock⟩ := before.waiter c equal
      have allowed : Allows s p := by
        by_contra barred
        have no := before.barred barred
        rw [show f = some c from equal] at no
        cases no
      have clock : sc = age s c := clock
      refine ⟨k, old.later fun waits => ?_, there, clock⟩
      have less := younger waits allowed
      rw [there]
      omega
  unfold look
  dsimp only
  by_cases noPage : (s.ptab (scan s n)).noPage
  · have notReady : ¬ Readies s (scan s n) := fun ready => ready.1 noPage
    have quiet : ¬ Waits s (scan s n) := fun waits => waits.1 noPage
    have readies := ready_part r (if_neg notReady).symm
    have waiters := keeps fun waits => absurd waits quiet
    rw [if_pos noPage]
    exact ⟨readies.1, readies.2, before.barred, waiters.1, waiters.2⟩
  · have readies := ready_part (if (s.ptab (scan s n)).status = .ready then some (scan s n) else r) (by
      by_cases here : (s.ptab (scan s n)).status = .ready
      · rw [if_pos here, if_pos ⟨noPage, here⟩]
      · rw [if_neg here, if_neg fun ready => here ready.2])
    rw [if_neg noPage]
    split
    · rename_i taken
      obtain ⟨above, allowed, older⟩ := taken
      have here : Waits s (scan s n) := ⟨noPage, above⟩
      refine ⟨readies.1, readies.2, fun barred => absurd allowed barred, fun _ no => (by cases no), ?_⟩
      intro c equal
      injection equal with equal
      refine ⟨n, oldest_new here fun j below waits => ?_, equal, equal ▸ rfl⟩
      cases held : f with
      | none => exact absurd waits ((before.noWaiter allowed held).2 j below)
      | some w =>
        obtain ⟨k, old, there, clock⟩ := before.waiter w held
        have most := (old.2.2 j below waits).1
        have clock : sc = age s w := clock
        have older : sc ≤ age s (scan s n) := older
        rw [there] at most
        omega
    · rename_i passed
      have waiters := keeps fun waits allowed => by
        by_contra no
        exact passed ⟨waits.2, allowed, Nat.le_of_not_lt no⟩
      exact ⟨readies.1, readies.2, before.barred, waiters.1, waiters.2⟩

/-- What the loop has found at its end. -/
theorem scan_found (s : State) (p : Option Nat) (n : Nat) :
    Found s p n (((List.range n).map (scan s)).foldl (look s p) (none, none, 0)) := by
  induction n with
  | zero =>
    exact ⟨fun _ k no => absurd no (Nat.not_lt_zero k), fun c no => (by cases no), fun _ => rfl,
      fun _ _ => ⟨rfl, fun k no => absurd no (Nat.not_lt_zero k)⟩, fun c no => (by cases no)⟩
  | succ n ih =>
    rw [List.range_succ, List.map_append, List.foldl_append]
    exact look_found ih

theorem scan_lt (some : k < PTABSIZE) : scan s k < PTABSIZE := Nat.mod_lt _ (by omega)

/-! ## Which victims are sound -/

/-- The pages of the process are in memory, and it is ready, asleep or stopped. -/
def Eligible (s : State) (c : Nat) : Prop :=
  c < PTABSIZE ∧ ¬ (s.ptab c).noPage ∧
    ((s.ptab c).status = .ready ∨ (s.ptab c).status = .sleep ∨ (s.ptab c).status = .stopped)

def Wanted (s : State) (notself : Bool) (c : Nat) : Prop := Eligible s c ∧ (notself = true → c ≠ s.cur)

/-- The loop reads the status of `p`. -/
def Reads (s : State) : Prop := ∃ k < PTABSIZE, Waits s (scan s k)

structure Safe (s : State) (p : Option Nat) (notself : Bool) : Prop where
  pointer : Reads s → p ≠ none
  victim : ∀ c, swapvictim s p notself = some c → Wanted s notself c
  nobody : swapvictim s p notself = none → ∀ c, ¬ Wanted s notself c

/-- The oldest process that waits is asleep or stopped, and it may be taken. -/
def FitWaiter (s : State) (p : Option Nat) (notself : Bool) : Prop :=
  p ≠ none ∧ Allows s p ∧ ∃ k, Oldest s PTABSIZE k ∧ Wanted s notself (scan s k)

/-- Nobody waits, or the status of `p` hides them, and what is taken instead is right. -/
def FitReady (s : State) (p : Option Nat) (notself : Bool) : Prop :=
  (¬ Reads s ∨ p ≠ none ∧ ¬ Allows s p) ∧
    if notself then
      (∃ k, LastReady s PTABSIZE k ∧ scan s k ≠ s.cur) ∨
        (∀ k < PTABSIZE, ¬ Readies s (scan s k)) ∧ ∀ c, ¬ Wanted s true c
    else Eligible s s.cur

theorem swapvictim_eq (s : State) (p : Option Nat) (notself : Bool) :
    ∃ found, Found s p PTABSIZE found ∧ swapvictim s p notself = match found.2.1 with
      | some f => some f
      | none => if notself then found.1 else some s.cur :=
  ⟨_, scan_found s p PTABSIZE, rfl⟩

/-- `swapvictim` is right in just these states. -/
theorem victim_safe_iff (s : State) (p : Option Nat) (notself : Bool) :
    Safe s p notself ↔ FitWaiter s p notself ∨ FitReady s p notself := by
  obtain ⟨⟨r, f, sc⟩, found, result⟩ := swapvictim_eq s p notself
  dsimp only at result
  constructor
  · intro safe
    cases waiter : f with
    | some w =>
      left
      obtain ⟨k, old, there, _⟩ := found.waiter w waiter
      rw [waiter] at result
      have reads : Reads s := ⟨k, old.1, old.2.1⟩
      have allowed : Allows s p := by
        by_contra barred
        have no := found.barred barred
        rw [show f = some w from waiter] at no
        cases no
      exact ⟨safe.pointer reads, allowed, k, old, there ▸ safe.victim w result⟩
    | none =>
      right
      rw [waiter] at result
      refine ⟨?_, ?_⟩
      · by_cases reads : Reads s
        · right
          refine ⟨safe.pointer reads, fun allowed => ?_⟩
          obtain ⟨k, below, waits⟩ := reads
          exact (found.noWaiter allowed waiter).2 k below waits
        · exact Or.inl reads
      · cases notself with
        | false => exact (safe.victim s.cur result).1
        | true =>
          cases ready : r with
          | some c =>
            obtain ⟨k, last, there⟩ := found.ready c ready
            rw [ready] at result
            have wanted := safe.victim c result
            exact Or.inl ⟨k, last, there ▸ wanted.2 rfl⟩
          | none =>
            rw [ready] at result
            exact Or.inr ⟨found.noReady ready, safe.nobody result⟩
  · rintro (⟨there, allowed, k, old, wanted⟩ | ⟨hidden, right⟩)
    · cases waiter : f with
      | none => exact absurd old.2.1 ((found.noWaiter allowed waiter).2 k old.1)
      | some w =>
        obtain ⟨j, old', same, _⟩ := found.waiter w waiter
        rw [waiter] at result
        have equal : w = scan s k := by rw [← same, old'.unique old]
        constructor
        · exact fun _ => there
        · intro c taken
          rw [result] at taken
          injection taken with taken
          rw [← taken, equal]
          exact wanted
        · intro none
          rw [result] at none
          cases none
    · have idle : f = none := by
        cases waiter : f with
        | none => rfl
        | some w =>
          obtain ⟨k, old, _, _⟩ := found.waiter w waiter
          rcases hidden with unread | ⟨_, barred⟩
          · exact absurd ⟨k, old.1, old.2.1⟩ unread
          · have no := found.barred barred
            rw [show f = some w from waiter] at no
            cases no
      rw [idle] at result
      have pointer : Reads s → p ≠ none := by
        intro reads
        rcases hidden with unread | ⟨there, _⟩
        · exact absurd reads unread
        · exact there
      cases notself with
      | false =>
        refine ⟨pointer, fun c taken => ?_, fun nobody => ?_⟩
        · rw [result] at taken
          injection taken with taken
          exact ⟨taken ▸ right, fun no => (by cases no)⟩
        · rw [result] at nobody
          cases nobody
      | true =>
        have result : swapvictim s p true = r := result
        rcases right with ⟨k, last, other⟩ | ⟨noReady, nobody⟩
        · cases ready : r with
          | none => exact absurd last.2.1 (found.noReady ready k last.1)
          | some c =>
            obtain ⟨j, last', there⟩ := found.ready c ready
            have equal : c = scan s k := by rw [← there, last'.unique last]
            rw [ready] at result
            refine ⟨pointer, fun c' taken => ?_, fun nobody => ?_⟩
            · rw [result] at taken
              injection taken with taken
              rw [← taken, equal]
              exact ⟨⟨scan_lt last.1, last.2.1.1, Or.inl last.2.1.2⟩, fun _ => other⟩
            · rw [result] at nobody
              cases nobody
        · refine ⟨pointer, fun c taken => ?_, fun _ => nobody⟩
          rw [result] at taken
          obtain ⟨k, last, _⟩ := found.ready c taken
          exact absurd last.2.1 (noReady k last.1)

/-- Init runs, its child 1 is dead, and its child 2 is asleep. -/
def mourning : State :=
  { off with
    waitno := 5
    ptab := fun p => { blank 0 with
      status := if p = 0 then .running else if p = 1 then .zombie else if p = 2 then .sleep else .empty
      waitno := if p = 2 then 3 else 0
      page := fun _ => p + 1 } }

omit [Machine] in
/-- The child that is dead is taken. -/
theorem victim_dead : ∃ (_ : Machine), swapvictim mourning (some 0) true = some 1 ∧
    (mourning.ptab 1).status = .zombie ∧ Eligible mourning 2 ∧ ¬ Safe mourning (some 0) true := by
  let m := coco3
  have taken : swapvictim mourning (some 0) true = some 1 := by decide +kernel
  refine ⟨m, taken, rfl, ⟨by decide, by decide, Or.inr (Or.inl rfl)⟩, fun safe => ?_⟩
  rcases (safe.victim 1 taken).1.2.2 with no | no | no
  · cases no
  · cases no
  · cases no

end Bank16k
