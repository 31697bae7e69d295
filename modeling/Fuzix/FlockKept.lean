import Fuzix.Flock
import Fuzix.OpenFiles

/-!
# What the lock counts rest on

`Kept s X` is the state in the middle of a call: `X` is an entry that the call holds a
reference to and no descriptor names. An entry that is being opened is named by nothing,
and its `O_FLOCK` bit is whatever its last user left there.
-/

set_option linter.unusedSectionVars false

namespace Flock

open Table Holding
open Fuzix (Build Access ITABSIZE OFTSIZE UFTSIZE PTABSIZE NO_FILE slots slots_put slots_le
  one_le_slots)

section Counts
variable [Cpu]

/-- The descriptors of one process that name entry `k`. -/
def Proc.names (q : Proc) (k : Nat) : Nat := if q.live then slots q.files k else 0

def names (s : State) (k : Nat) : Nat := total PTABSIZE (fun p => (s.ptab p).names k)

def owed (X : Option Nat) (k : Nat) : Nat := if X = some k then 1 else 0

def Oft.uses (o : Oft) (i : Nat) : Nat := if o.refs ≠ 0 ∧ o.inode = some i then 1 else 0

/-- The entries in use that name inode `i`. -/
def entries (s : State) (i : Nat) : Nat := total OFTSIZE (fun k => (s.oftab k).uses i)

/-- The locks on inode `i`, entry by entry. -/
def holding (s : State) (i k : Nat) : Option Kind :=
  if (s.oftab k).inode = some i then s.told k else none

def openFile (s : State) (k : Nat) : Prop :=
  (∃ i, i < ITABSIZE ∧ (s.oftab k).inode = some i) ∧
    (s.oftab k).access.flock = (s.told k).isSome

/-- What a sleeping process `p` relies on. -/
def Waits (s : State) (p : Nat) : Call → Prop
  | .user => True
  | .opening uindex k flag =>
    uindex < UFTSIZE ∧ k < OFTSIZE ∧ ¬ badFlag flag ∧ (s.ptab p).files uindex = NO_FILE ∧
      (s.oftab k).refs = 1 ∧ ∃ i, i < ITABSIZE ∧ (s.oftab k).inode = some i
  | .flock i o _ _ _ =>
    (∃ fd, fd < UFTSIZE ∧ (s.ptab p).files fd = o) ∧ o < OFTSIZE ∧ i < ITABSIZE ∧
      (s.oftab o).inode = some i

/-- Process `p` is opening entry `k`. -/
def opens (s : State) (p k : Nat) : Prop :=
  p < PTABSIZE ∧ (s.ptab p).live = true ∧ ∃ u f, (s.ptab p).call = .opening u k f

structure Kept (s : State) (X : Option Nat) : Prop where
  calm : s.panicked = false
  locks : ∀ i, i < ITABSIZE → Encodes CFMAX CFLEX OFTSIZE (holding s i) (s.itab i).flock
  refs : ∀ i, i < ITABSIZE → entries s i ≤ (s.itab i).refs ∧ (s.itab i).refs < 256
  count : ∀ k, k < OFTSIZE → names s k + owed X k ≠ 0 →
    (s.oftab k).refs = names s k + owed X k ∧ openFile s k
  idle : ∀ k, k < OFTSIZE → names s k + owed X k = 0 → s.told k = none
  range : ∀ k, k < OFTSIZE → ∀ i, (s.oftab k).inode = some i → i < ITABSIZE
  files : ∀ p, p < PTABSIZE → (s.ptab p).live = true → ∀ fd, fd < UFTSIZE →
    (s.ptab p).files fd = NO_FILE ∨ (s.ptab p).files fd < OFTSIZE
  waits : ∀ p, p < PTABSIZE → (s.ptab p).live = true → Waits s p (s.ptab p).call
  booked : ∀ p k, opens s p k → names s k + owed X k = 0 ∧ ∀ q, opens s q k → q = p

/-! ## Counting -/

theorem names_change {s t : State} {p : Nat} (hp : p < PTABSIZE)
    (same : ∀ q, q < PTABSIZE → q ≠ p → t.ptab q = s.ptab q) (k : Nat) :
    names t k + (s.ptab p).names k = names s k + (t.ptab p).names k :=
  total_change (f := fun q => (s.ptab q).names k) (g := fun q => (t.ptab q).names k) hp
    fun q hq other => congrArg (Proc.names · k) (same q hq other)

theorem names_le (s : State) (k : Nat) : names s k ≤ PTABSIZE * UFTSIZE := by
  refine total_le fun p _ => ?_
  unfold Proc.names
  split
  · exact slots_le _ _
  · exact Nat.zero_le _

theorem one_le_names {s : State} {p fd : Nat} (hp : p < PTABSIZE)
    (live : (s.ptab p).live = true) (hfd : fd < UFTSIZE) :
    1 ≤ names s ((s.ptab p).files fd) := by
  have mine : 1 ≤ (s.ptab p).names ((s.ptab p).files fd) := by
    rw [Proc.names, if_pos live]
    exact one_le_slots hfd
  have le := le_total (f := fun q => (s.ptab q).names ((s.ptab p).files fd)) hp
  exact Nat.le_trans mine le

theorem entries_change {s t : State} {k : Nat} (hk : k < OFTSIZE)
    (same : ∀ j, j < OFTSIZE → j ≠ k → t.oftab j = s.oftab j) (i : Nat) :
    entries t i + (s.oftab k).uses i = entries s i + (t.oftab k).uses i :=
  total_change (f := fun j => (s.oftab j).uses i) (g := fun j => (t.oftab j).uses i) hk
    fun j hj other => congrArg (Oft.uses · i) (same j hj other)

theorem Oft.uses_le (o : Oft) (i : Nat) : o.uses i ≤ 1 := by
  unfold Oft.uses
  split <;> omega

theorem one_le_entries {s : State} {k i : Nat} (hk : k < OFTSIZE) (used : (s.oftab k).refs ≠ 0)
    (named : (s.oftab k).inode = some i) : 1 ≤ entries s i := by
  have mine : (s.oftab k).uses i = 1 := if_pos ⟨used, named⟩
  have le := le_total (f := fun j => (s.oftab j).uses i) hk
  exact mine ▸ le

theorem bound (s : State) (X : Option Nat) (k : Nat) : names s k + owed X k < 256 := by
  have named := names_le s k
  have owes : owed X k ≤ 1 := by unfold owed; split <;> omega
  have fits := Build.oftRefsBound
  omega

@[simp] theorem owed_none (k : Nat) : owed none k = 0 := rfl

@[simp] theorem owed_same (k : Nat) : owed (some k) k = 1 := if_pos rfl

theorem owed_other {j k : Nat} (other : j ≠ k) : owed (some k) j = 0 := by
  unfold owed
  rw [if_neg]
  intro same
  injection same with same
  exact other same.symm

/-! ## Changes that the counts do not see -/

section Frame
variable {s t : State} {X : Option Nat} {p : Nat} {c : Call}

def Call.entry : Call → Option Nat
  | .user => none
  | .opening _ k _ => some k
  | .flock _ o _ _ _ => some o

theorem Waits.keep (w : Waits s p c) (files : (t.ptab p).files = (s.ptab p).files)
    (inode : ∀ k, c.entry = some k → (t.oftab k).inode = (s.oftab k).inode)
    (refs : ∀ u k f, c = .opening u k f → (t.oftab k).refs = (s.oftab k).refs) :
    Waits t p c := by
  cases c with
  | user => trivial
  | opening u k f =>
    obtain ⟨hu, hk, fair, free, one, i, hi, named⟩ := w
    exact ⟨hu, hk, fair, by rw [files]; exact free, by rw [refs u k f rfl]; exact one,
      i, hi, by rw [inode k rfl]; exact named⟩
  | flock i o lockop lock self =>
    obtain ⟨⟨fd, hfd, mine⟩, ho, hi, named⟩ := w
    exact ⟨⟨fd, hfd, by rw [files]; exact mine⟩, ho, hi, by rw [inode o rfl]; exact named⟩

theorem names_congr (same : ∀ q, q < PTABSIZE → (t.ptab q).live = (s.ptab q).live ∧
    (t.ptab q).files = (s.ptab q).files) (k : Nat) : names t k = names s k := by
  apply total_congr
  intro q hq
  obtain ⟨live, files⟩ := same q hq
  unfold Proc.names
  rw [live, files]

/-- A process changes, but not its descriptors. It does not start to open a file. -/
theorem Kept.proc (h : Kept s X) {f : Proc → Proc}
    (live : (f (s.ptab p)).live = (s.ptab p).live)
    (files : (f (s.ptab p)).files = (s.ptab p).files)
    (call : (f (s.ptab p)).call = (s.ptab p).call ∨
      (∀ u k g, (f (s.ptab p)).call ≠ .opening u k g) ∧ Waits s p (f (s.ptab p)).call) :
    Kept (modifyProc s p f) X := by
  have same : ∀ q, ((modifyProc s p f).ptab q).live = (s.ptab q).live ∧
      ((modifyProc s p f).ptab q).files = (s.ptab q).files := by
    intro q
    show (put s.ptab p _ q).live = _ ∧ (put s.ptab p _ q).files = _
    by_cases me : q = p
    · subst me
      rw [put_same]
      exact ⟨live, files⟩
    · rw [put_ne _ _ me]
      exact ⟨rfl, rfl⟩
  have counts : ∀ k, names (modifyProc s p f) k = names s k :=
    names_congr fun q _ => same q
  have opened : ∀ q k, opens (modifyProc s p f) q k → opens s q k := by
    intro q k ⟨hq, alive, u, g, now⟩
    rw [(same q).1] at alive
    refine ⟨hq, alive, u, g, ?_⟩
    change (put s.ptab p _ q).call = _ at now
    by_cases me : q = p
    · subst me
      rw [put_same] at now
      rcases call with kept | ⟨shut, _⟩
      · rw [← kept]
        exact now
      · exact (shut u k g now).elim
    · rw [put_ne _ _ me] at now
      exact now
  refine ⟨h.calm, h.locks, h.refs, fun k hk => ?_, fun k hk => ?_, h.range,
    fun q hq alive => ?_, fun q hq alive => ?_, fun q k opening => ?_⟩
  · rw [counts]
    exact h.count k hk
  · rw [counts]
    exact h.idle k hk
  · rw [(same q).1] at alive
    rw [(same q).2]
    exact h.files q hq alive
  · rw [(same q).1] at alive
    have before : Waits s q ((modifyProc s p f).ptab q).call := by
      show Waits s q (put s.ptab p _ q).call
      by_cases me : q = p
      · subst me
        rw [put_same]
        rcases call with kept | ⟨_, waits⟩
        · rw [kept]
          exact h.waits q hq alive
        · exact waits
      · rw [put_ne _ _ me]
        exact h.waits q hq alive
    exact before.keep (same q).2 (fun _ _ => rfl) fun _ _ _ _ => rfl
  · rw [counts]
    obtain ⟨unnamed, alone⟩ := h.booked q k (opened q k opening)
    exact ⟨unnamed, fun r other => alone r (opened r k other)⟩

theorem Kept.fail (h : Kept s X) (p e : Nat) : Kept (fail s p e) X :=
  h.proc rfl rfl (Or.inl rfl)

theorem Kept.reply (h : Kept s X) (p v : Nat) : Kept (reply s p v) X :=
  h.proc rfl rfl (Or.inl rfl)

theorem Kept.wake (h : Kept s X) (p : Nat) : Kept (setCall s p .user) X := by
  refine h.proc rfl rfl (Or.inr ⟨?_, trivial⟩)
  intro u k g no
  cases no

theorem Kept.statics (h : Kept s X) (lock self : Nat) :
    Kept { s with lock := lock, self := self } X :=
  ⟨h.calm, h.locks, h.refs, h.count, h.idle, h.range, h.files,
    fun q hq alive => (h.waits q hq alive).keep rfl (fun _ _ => rfl) fun _ _ _ _ => rfl, h.booked⟩

/-! ## Inodes -/

/-- An inode changes its count of references or its other flags. -/
theorem Kept.inode (h : Kept s X) {i : Nat} {f : Cinode → Cinode}
    (flock : (f (s.itab i)).flock = (s.itab i).flock)
    (bounds : i < ITABSIZE → entries s i ≤ (f (s.itab i)).refs ∧ (f (s.itab i)).refs < 256) :
    Kept (modifyInode s i f) X := by
  refine ⟨h.calm, fun j hj => ?_, fun j hj => ?_, h.count, h.idle, h.range, h.files,
    fun q hq alive => (h.waits q hq alive).keep rfl (fun _ _ => rfl) fun _ _ _ _ => rfl, h.booked⟩
  · show Encodes CFMAX CFLEX OFTSIZE (holding s j) (put s.itab i _ j).flock
    by_cases here : j = i
    · subst here
      rw [put_same, flock]
      exact h.locks j hj
    · rw [put_ne _ _ here]
      exact h.locks j hj
  · show entries s j ≤ (put s.itab i _ j).refs ∧ (put s.itab i _ j).refs < 256
    by_cases here : j = i
    · subst here
      rw [put_same]
      exact bounds hj
    · rw [put_ne _ _ here]
      exact h.refs j hj

theorem Kept.iRef (h : Kept s X) {i : Nat} (room : (s.itab i).refs < 255) :
    Kept (iRef s i) X := by
  refine h.inode rfl fun hi => ?_
  have bounds := h.refs i hi
  show entries s i ≤ ((s.itab i).refs + 1) % 256 ∧ ((s.itab i).refs + 1) % 256 < 256
  omega

/-- A reference that is not an entry's is given back. -/
theorem Kept.iDeref (h : Kept s X) {i : Nat} (spare : entries s i < (s.itab i).refs)
    (hi : i < ITABSIZE) : Kept (iDeref s i) X := by
  unfold Flock.iDeref
  rw [if_neg (by omega)]
  refine h.inode rfl fun _ => ?_
  have bounds := h.refs i hi
  show entries s i ≤ (s.itab i).refs - 1 ∧ (s.itab i).refs - 1 < 256
  omega

/-- Nothing holds a lock on an inode without references. -/
theorem Kept.free (h : Kept s X) {i : Nat} (hi : i < ITABSIZE) (unused : (s.itab i).refs = 0)
    {k : Nat} (hk : k < OFTSIZE) : holding s i k = none := by
  unfold holding
  split
  · rename_i named
    by_cases zero : names s k + owed X k = 0
    · exact h.idle k hk zero
    · have used := (h.count k hk zero).1
      have le := one_le_entries hk (by omega) named
      have bound := (h.refs i hi).1
      omega
  · rfl

theorem Kept.iOpen (h : Kept s X) {i : Nat} {fresh : Bool} (rdonly : Bool) (hi : i < ITABSIZE)
    (unused : fresh = true → (s.itab i).refs = 0)
    (room : fresh = false → (s.itab i).refs < 255) : Kept (iOpen s i fresh rdonly) X := by
  unfold Flock.iOpen
  cases fresh with
  | false => exact h.iRef (room rfl)
  | true =>
    have idle : ∀ k, k < OFTSIZE → holding s i k = none := fun k hk => h.free hi (unused rfl) hk
    have bounds := h.refs i hi
    rw [unused rfl] at bounds
    refine ⟨h.calm, fun j hj => ?_, fun j hj => ?_, h.count, h.idle, h.range, h.files,
      fun q hq alive => (h.waits q hq alive).keep rfl (fun _ _ => rfl) fun _ _ _ _ => rfl,
      h.booked⟩
    · show Encodes CFMAX CFLEX OFTSIZE (holding s j) (put s.itab i _ j).flock
      by_cases here : j = i
      · subst here
        rw [put_same]
        exact free_of_none idle
      · rw [put_ne _ _ here]
        exact h.locks j hj
    · show entries s j ≤ (put s.itab i _ j).refs ∧ (put s.itab i _ j).refs < 256
      by_cases here : j = i
      · subst here
        rw [put_same]
        show entries s j ≤ 1 ∧ 1 < 256
        omega
      · rw [put_ne _ _ here]
        exact h.refs j hj

/-! ## An entry is booked -/

/-- An entry in use that no descriptor names, and that nobody is opening yet. -/
structure Booked (s : State) (k : Nat) : Prop where
  entry : k < OFTSIZE
  one : (s.oftab k).refs = 1
  unnamed : names s k = 0
  alone : ∀ p, ¬ opens s p k

theorem find_range {n : Nat} {P : Nat → Prop} [DecidablePred P] {j : Nat}
    (found : (List.range n).find? (fun j => P j) = some j) : j < n ∧ P j := by
  have holds := List.find?_some found
  have member := List.mem_of_find?_eq_some found
  exact ⟨List.mem_range.mp member, of_decide_eq_true holds⟩

/-- No call stands at an entry without names that the process is not opening. -/
theorem stands_elsewhere {q k : Nat} (waits : Waits s q (s.ptab q).call) (hq : q < PTABSIZE)
    (alive : (s.ptab q).live = true) (unnamed : names s k = 0) (alone : ¬ opens s q k) :
    (s.ptab q).call.entry ≠ some k := by
  intro stands
  cases call : (s.ptab q).call with
  | user =>
    rw [call] at stands
    cases stands
  | opening u e g =>
    rw [call] at stands
    injection stands with same
    subst same
    exact alone ⟨hq, alive, u, g, call⟩
  | flock i o lockop lock self =>
    rw [call] at stands waits
    injection stands with same
    subst same
    obtain ⟨⟨fd, hfd, mine⟩, _⟩ := waits
    have positive := one_le_names (s := s) hq alive hfd
    rw [mine] at positive
    omega

/-- Entry `k` changes and its count of references stays what it was, or `k` was free. -/
theorem Kept.entry (h : Kept s none) {k : Nat} {f : Oft → Oft} (hk : k < OFTSIZE)
    (unnamed : names s k = 0) (alone : ∀ p, ¬ opens s p k)
    (range : ∀ i, (f (s.oftab k)).inode = some i → i < ITABSIZE ∧
      entries s i + (f (s.oftab k)).uses i ≤ (s.itab i).refs + (s.oftab k).uses i) :
    Kept (modifyOft s k f) none := by
  have other : ∀ j, j ≠ k → (modifyOft s k f).oftab j = s.oftab j := fun j away => put_ne _ _ away
  have idle : s.told k = none := h.idle k hk unnamed
  have same : ∀ i, holding (modifyOft s k f) i = holding s i := by
    intro i
    funext j
    unfold holding
    by_cases here : j = k
    · subst here
      show (if _ then s.told j else none) = _
      rw [idle, ite_self, ite_self]
    · rw [other j here]
      rfl
  refine ⟨h.calm, fun i hi => ?_, fun i hi => ?_, fun j hj named => ?_, h.idle,
    fun j hj i named => ?_, h.files, fun q hq alive => ?_, h.booked⟩
  · rw [same]
    exact h.locks i hi
  · have change := entries_change (t := modifyOft s k f) hk (fun j _ away => other j away) i
    rw [show (modifyOft s k f).oftab k = f (s.oftab k) from put_same _ _ _] at change
    have bounds := h.refs i hi
    show _ ≤ (s.itab i).refs ∧ (s.itab i).refs < 256
    by_cases here : (f (s.oftab k)).inode = some i
    · have fits := (range i here).2
      omega
    · have none : (f (s.oftab k)).uses i = 0 := if_neg fun no => here no.2
      omega
  · have away : j ≠ k := by
      intro here
      subst here
      exact named (by rw [owed_none]; exact unnamed)
    have before := h.count j hj named
    show (put s.oftab k _ j).refs = _ ∧ openFile (modifyOft s k f) j
    unfold openFile
    rw [put_ne _ _ away, other j away]
    exact before
  · by_cases here : j = k
    · subst here
      rw [show (modifyOft s j f).oftab j = f (s.oftab j) from put_same _ _ _] at named
      exact (range i named).1
    · rw [other j here] at named
      exact h.range j hj i named
  · have before := h.waits q hq alive
    have away : ∀ j, (s.ptab q).call.entry = some j → j ≠ k := by
      rintro j stands rfl
      exact stands_elsewhere before hq alive unnamed (alone q) stands
    refine before.keep rfl (fun j stands => ?_) fun u j g call => ?_
    · rw [other j (away j stands)]
    · rw [other j (away j (by rw [call]; rfl))]

theorem Kept.takeEntry (h : Kept s none) {k : Nat} (picked : freeEntry s = some k) :
    Kept (takeEntry s k) none ∧ Booked (takeEntry s k) k ∧ s.told k = none := by
  obtain ⟨hk, unused⟩ := find_range (P := fun k => (s.oftab k).refs = 0) picked
  have unnamed : names s k = 0 := by
    by_contra named
    have count := (h.count k hk (by simpa using named)).1
    rw [owed_none] at count
    omega
  have alone : ∀ p, ¬ opens s p k := by
    intro p ⟨hp, alive, u, g, call⟩
    have waits := h.waits p hp alive
    rw [call] at waits
    obtain ⟨_, _, _, _, one, _⟩ := waits
    omega
  refine ⟨h.entry hk unnamed alone fun i no => ?_, ⟨hk, ?_, unnamed, alone⟩, h.idle k hk unnamed⟩
  · cases no
  · show (put s.oftab k _ k).refs = 1
    rw [put_same]

theorem Kept.setEntry (h : Kept s none) {k i : Nat} (b : Booked s k) (hi : i < ITABSIZE)
    (spare : entries s i < (s.itab i).refs) :
    Kept (setEntry s k i) none ∧ Booked (setEntry s k i) k := by
  refine ⟨h.entry b.entry b.unnamed b.alone fun j named => ?_, ⟨b.entry, ?_, b.unnamed, b.alone⟩⟩
  · injection named with same
    subst same
    exact ⟨hi, Nat.le_trans (Nat.add_le_add_left (Oft.uses_le _ i) _) (by omega)⟩
  · show (put s.oftab k _ k).refs = 1
    rw [put_same]
    exact b.one

/-! ## An open entry changes -/

/-- Entry `k` of inode `i` changes, with its lock and with the inode, and no process does. -/
theorem Kept.rebuild {X Y : Option Nat} (h : Kept s X) {k i : Nat} (hk : k < OFTSIZE)
    (was : (s.oftab k).inode = some i) (calm : t.panicked = false) (desks : t.ptab = s.ptab)
    (rest : ∀ j, j ≠ k → t.oftab j = s.oftab j ∧ t.told j = s.told j ∧ owed Y j = owed X j)
    (inodes : ∀ j, j ≠ i → t.itab j = s.itab j) (used : names s k + owed X k ≠ 0)
    (locks : Encodes CFMAX CFLEX OFTSIZE (holding t i) (t.itab i).flock)
    (refs : entries s i + (t.oftab k).uses i ≤ (t.itab i).refs + (s.oftab k).uses i ∧
      (t.itab i).refs < 256)
    (now : (t.oftab k).inode = some i ∨ (t.oftab k).inode = none ∧ names s k = 0)
    (count : names s k + owed Y k ≠ 0 → (t.oftab k).refs = names s k + owed Y k ∧ openFile t k)
    (idle : names s k + owed Y k = 0 → t.told k = none) : Kept t Y := by
  have counts : ∀ j, names t j = names s j := fun j => by unfold names; rw [desks]
  have change := entries_change hk (fun j _ away => (rest j away).1)
  have hi := h.range k hk i was
  have opened : ∀ p j, opens t p j → opens s p j := by
    intro p j opening
    unfold opens at opening
    rw [desks] at opening
    exact opening
  have shut : ∀ p, ¬ opens s p k := fun p opening => used (h.booked p k opening).1
  refine ⟨calm, fun j hj => ?_, fun j hj => ?_, fun j hj named => ?_, fun j hj unnamed => ?_,
    fun j hj v named => ?_, ?_, fun q hq alive => ?_, fun q j opening => ?_⟩
  · by_cases here : j = i
    · rw [here]
      exact locks
    · rw [inodes j here]
      refine (h.locks j hj).congr fun e _ => ?_
      unfold holding
      by_cases me : e = k
      · rw [me, was, if_neg (c := some i = some j) (fun no => here (by injection no with no; exact no.symm))]
        rcases now with same | ⟨gone, _⟩
        · rw [same, if_neg (fun no => here (by injection no with no; exact no.symm))]
        · rw [gone, if_neg (fun no => by cases no)]
      · rw [(rest e me).1, (rest e me).2.1]
  · by_cases here : j = i
    · rw [here]
      have total := change i
      omega
    · rw [inodes j here]
      have total := change j
      have old : (s.oftab k).uses j = 0 := if_neg fun no => by
        rw [was] at no
        injection no.2 with same
        exact here same.symm
      have new : (t.oftab k).uses j = 0 := if_neg fun no => by
        rcases now with same | ⟨gone, _⟩
        · rw [same] at no
          injection no.2 with same
          exact here same.symm
        · rw [gone] at no
          cases no.2
      have bounds := h.refs j hj
      omega
  · rw [counts] at named ⊢
    by_cases me : j = k
    · rw [me] at named ⊢
      exact count named
    · obtain ⟨entry, told, same⟩ := rest j me
      rw [same] at named ⊢
      unfold openFile
      rw [entry, told]
      exact h.count j hj named
  · rw [counts] at unnamed
    by_cases me : j = k
    · rw [me] at unnamed ⊢
      exact idle unnamed
    · obtain ⟨_, told, same⟩ := rest j me
      rw [same] at unnamed
      rw [told]
      exact h.idle j hj unnamed
  · by_cases me : j = k
    · rw [me] at named
      rcases now with same | ⟨gone, _⟩
      · rw [same] at named
        injection named with named
        exact named ▸ hi
      · rw [gone] at named
        cases named
    · rw [(rest j me).1] at named
      exact h.range j hj v named
  · rw [desks]
    exact h.files
  · rw [desks] at alive ⊢
    have before := h.waits q hq alive
    refine before.keep (by rw [desks]) (fun j stands => ?_) fun u j g call => ?_
    · by_cases me : j = k
      · subst me
        rcases now with same | ⟨_, unnamed⟩
        · rw [same, was]
        · exact absurd stands (stands_elsewhere before hq alive unnamed (shut q))
      · rw [(rest j me).1]
    · have me : j ≠ k := by
        intro me
        subst me
        exact shut q ⟨hq, alive, u, g, call⟩
      rw [(rest j me).1]
  · rw [counts]
    have before := h.booked q j (opened q j opening)
    have me : j ≠ k := fun me => shut q (me ▸ opened q j opening)
    rw [(rest j me).2.2]
    exact ⟨before.1, fun r other => before.2 r (opened r j other)⟩

/-! ## A reference to an entry is dropped -/

theorem oftDeref_more {k : Nat} (many : 1 < (s.oftab k).refs) (small : (s.oftab k).refs < 256) :
    oftDeref s k = modifyOft s k (fun o => { o with refs := o.refs - 1 }) := by
  have less : ((s.oftab k).refs + 255) % 256 = (s.oftab k).refs - 1 := by omega
  unfold oftDeref
  rw [less]
  dsimp only
  generalize drop : modifyOft s k (fun o => { o with refs := (s.oftab k).refs - 1 }) = u
  have same : modifyOft s k (fun o => { o with refs := o.refs - 1 }) = u := drop
  rw [same]
  cases named : (u.oftab k).inode with
  | none => rfl
  | some i => exact if_neg (by omega)

theorem oftDeref_unset {k : Nat} (one : (s.oftab k).refs = 1) (unset : (s.oftab k).inode = none) :
    oftDeref s k = modifyOft s k (fun o => { o with refs := 0 }) := by
  have same : ((modifyOft s k (fun o => { o with refs := 0 })).oftab k).inode = none := by
    show (put s.oftab k _ k).inode = none
    rw [put_same]
    exact unset
  unfold oftDeref
  rw [one]
  dsimp only
  rw [same]

theorem deflock_held {u : State} {k i : Nat} (named : (u.oftab k).inode = some i)
    (flag : (u.oftab k).access.flock = true) : deflock u k = modifyInode u i Cinode.lower := by
  unfold deflock
  rw [named]
  exact if_pos flag

theorem deflock_free {u : State} {k i : Nat} (named : (u.oftab k).inode = some i)
    (flag : (u.oftab k).access.flock = false) : deflock u k = u := by
  unfold deflock
  rw [named]
  exact if_neg (by rw [flag]; exact Bool.false_ne_true)

theorem iDeref_held {u : State} {i : Nat} (held : (u.itab i).refs ≠ 0) :
    iDeref u i = modifyInode u i (fun c => { c with refs := c.refs - 1 }) :=
  if_neg held

@[simp] theorem lower_refs (c : Cinode) : c.lower.refs = c.refs := by
  unfold Cinode.lower
  split
  · rfl
  split <;> rfl

/-- Entry `k` is free, it has no lock, and `c` is stored into the inode. -/
def freed (s : State) (k i : Nat) (c : Cinode) : State := { s with
  itab := put s.itab i c
  oftab := put s.oftab k ⟨0, none, (s.oftab k).access⟩
  told := put s.told k none }

section Freed
variable (s) {j k i : Nat} (c : Cinode)

@[simp] theorem freed_inode : (freed s k i c).itab i = c := put_same _ _ _

theorem freed_inodes (away : j ≠ i) : (freed s k i c).itab j = s.itab j := put_ne _ _ away

@[simp] theorem freed_entry : (freed s k i c).oftab k = ⟨0, none, (s.oftab k).access⟩ :=
  put_same _ _ _

theorem freed_entries (away : j ≠ k) : (freed s k i c).oftab j = s.oftab j := put_ne _ _ away

@[simp] theorem freed_told : (freed s k i c).told k = none := put_same _ _ _

theorem freed_others (away : j ≠ k) : (freed s k i c).told j = s.told j := put_ne _ _ away

end Freed

/-- The last reference: the lock and the inode are let go. -/
theorem oftDeref_last {k i : Nat} (one : (s.oftab k).refs = 1)
    (named : (s.oftab k).inode = some i) (held : (s.itab i).refs ≠ 0) :
    ∃ c : Cinode, c.refs = (s.itab i).refs - 1 ∧
      c.flock = (if (s.oftab k).access.flock then (s.itab i).lower.flock else (s.itab i).flock) ∧
      oftDeref s k = freed s k i c := by
  have start : oftDeref s k = setTold (modifyOft (iDeref (deflock
      (modifyOft s k (fun o => { o with refs := 0 })) k) i) k
      (fun o => { o with inode := none })) k none := by
    unfold oftDeref
    rw [one]
    dsimp only
    generalize drop : modifyOft s k (fun o => { o with refs := (1 + 255) % 256 }) = u
    have same : (u.oftab k).inode = some i := by
      rw [← drop]
      show (put s.oftab k _ k).inode = some i
      rw [put_same]
      exact named
    rw [same]
    dsimp only
    rw [if_pos rfl, ← drop]
  rw [start]
  generalize drop : modifyOft s k (fun o => { o with refs := 0 }) = u
  have entry : u.oftab k = { s.oftab k with refs := 0 } := by
    rw [← drop]
    exact put_same _ _ _
  have inodes : u.itab = s.itab := by rw [← drop]; rfl
  by_cases flag : (s.oftab k).access.flock = true
  · have lowered : ((modifyInode u i Cinode.lower).itab i).refs ≠ 0 := by
      show (put u.itab i _ i).refs ≠ 0
      rw [put_same, lower_refs, inodes]
      exact held
    rw [deflock_held (by rw [entry]; exact named) (by rw [entry]; exact flag),
      iDeref_held lowered, if_pos flag, ← drop]
    refine ⟨{ (s.itab i).lower with refs := (s.itab i).refs - 1 }, rfl, rfl, ?_⟩
    unfold modifyOft modifyInode setTold freed
    dsimp only
    rw [put_put, put_put, put_same, put_same, lower_refs]
  · rw [deflock_free (by rw [entry]; exact named) (by rw [entry]; simpa using flag),
      iDeref_held (by rw [inodes]; exact held), if_neg flag, ← drop]
    refine ⟨{ s.itab i with refs := (s.itab i).refs - 1 }, rfl, rfl, ?_⟩
    unfold modifyOft modifyInode setTold freed
    dsimp only
    rw [put_put, put_same]

end Frame

end Counts

end Flock
