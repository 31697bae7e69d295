import Fuzix.Lib.Total
import Fuzix.Steady

/-!
# The open file table

Every entry counts the descriptors that name it, and every inode the entries
open for reading and for writing. `OftAcc s X` is the accounting in the middle of
a call: `X` lists the references to entries that the call holds itself. An entry
booked by a process that waits in `d_open` is named by no descriptor yet.
-/

set_option linter.unusedSectionVars false

namespace Fuzix

open Wp Table Words

variable [Build]

/-! ## Who names an entry -/

/-- The descriptors of one table that name entry `k`. -/
def slots (files : Nat → Nat) (k : Nat) : Nat :=
  total UFTSIZE (fun j => if files j = k then 1 else 0)

def Desk.names (q : Desk) (k : Nat) : Nat :=
  if q.status = .live then slots q.files k else 0

def Desk.booking (q : Desk) : Option (Nat × Nat) :=
  match q.status, q.wait with
  | .live, some (.opening uindex k _) => some (uindex, k)
  | _, _ => none

/-- The descriptor of a transfer that waits for a pipe. -/
def Desk.transfer (q : Desk) : Option Nat :=
  match q.status, q.wait with
  | .live, some (.reading fd _ _) => some fd
  | .live, some (.writing fd _ _ _) => some fd
  | _, _ => none

def Desk.books (q : Desk) (k : Nat) : Nat :=
  match q.booking with
  | some (_, k') => if k' = k then 1 else 0
  | none => 0

def Kernel.desk (s : Kernel) (p : Nat) : Desk := (s.ptab p).desk

def named (s : Kernel) (k : Nat) : Nat := total PTABSIZE (fun p => (s.desk p).names k)

def booked (s : Kernel) (k : Nat) : Nat := total PTABSIZE (fun p => (s.desk p).books k)

def accounting (s : Kernel) (k : Nat) : Nat := if s.acctFh = some k then 1 else 0

/-- The descriptors and the accounting file. -/
def holders (s : Kernel) (k : Nat) : Nat := named s k + accounting s k

/-- Entry `k` is open on inode `i` in a mode other than `shut`. -/
def uses (s : Kernel) (shut i k : Nat) : Nat :=
  if holders s k ≠ 0 ∧ (s.oftab k).inode = some i ∧ (s.oftab k).access.accmode ≠ shut
  then 1 else 0

def readersOf (s : Kernel) (i : Nat) : Nat := total OFTSIZE (uses s O_WRONLY i)

def writersOf (s : Kernel) (i : Nat) : Nat := total OFTSIZE (uses s O_RDONLY i)

structure OftAcc (s : Kernel) (X : List Nat) : Prop where
  refs : ∀ k, k < OFTSIZE → (s.oftab k).refs = holders s k + booked s k + X.count k
  files : ∀ p, p < PTABSIZE → (s.desk p).status = .live → ∀ j, j < UFTSIZE →
    (s.desk p).files j = NO_FILE ∨ (s.desk p).files j < OFTSIZE
  acct : ∀ k, s.acctFh = some k → k < OFTSIZE
  bookings : ∀ p u k, p < PTABSIZE → (s.desk p).booking = some (u, k) →
    u < UFTSIZE ∧ k < OFTSIZE ∧ (s.desk p).files u = NO_FILE ∧ (s.oftab k).refs = 1 ∧
      (s.oftab k).inode ≠ none
  moving : ∀ p fd, p < PTABSIZE → (s.desk p).transfer = some fd →
    fd < UFTSIZE ∧ (s.desk p).files fd ≠ NO_FILE
  idle : ∀ k, k < OFTSIZE → (s.oftab k).refs = 0 → (s.oftab k).inode = none
  used : ∀ k, k < OFTSIZE → holders s k ≠ 0 → (s.oftab k).inode ≠ none
  readers : ∀ i, (s.itab i).readers = readersOf s i
  writers : ∀ i, (s.itab i).writers = writersOf s i

/-- The process whose call is being run. -/
structure Running (s : Kernel) : Prop where
  cur : s.cur < PTABSIZE
  live : (s.desk s.cur).status = .live
  awake : (s.desk s.cur).wait = none

/-! ## The accounting depends on nothing else -/

section Frame
variable {s t : Kernel} {X : List Nat}

theorem FilesKept.named (h : FilesKept s t) (k : Nat) : named t k = named s k := by
  simp only [Fuzix.named, Kernel.desk, h.ptab]

theorem FilesKept.booked (h : FilesKept s t) (k : Nat) : booked t k = booked s k := by
  simp only [Fuzix.booked, Kernel.desk, h.ptab]

theorem FilesKept.holders (h : FilesKept s t) (k : Nat) : holders t k = holders s k := by
  simp only [Fuzix.holders, accounting, h.named, h.acctFh]

theorem FilesKept.uses (h : FilesKept s t) (shut i : Nat) : uses t shut i = uses s shut i := by
  funext k
  simp only [Fuzix.uses, h.holders, h.oftab]

theorem FilesKept.desk (h : FilesKept s t) (p : Nat) : t.desk p = s.desk p := h.ptab p

theorem FilesKept.acc (h : FilesKept s t) (a : OftAcc s X) : OftAcc t X where
  refs := fun k hk => by rw [h.oftab, h.holders, h.booked]; exact a.refs k hk
  files := fun p hp => by rw [h.desk]; exact a.files p hp
  acct := fun k => by rw [h.acctFh]; exact a.acct k
  bookings := fun p u k hp => by rw [h.desk, h.oftab]; exact a.bookings p u k hp
  moving := fun p fd hp => by rw [h.desk]; exact a.moving p fd hp
  idle := fun k hk => by rw [h.oftab]; exact a.idle k hk
  used := fun k hk => by rw [h.oftab, h.holders]; exact a.used k hk
  readers := fun i => by
    rw [readersOf, h.uses]
    exact (congrArg Prod.fst (h.itab i)).trans (a.readers i)
  writers := fun i => by
    rw [writersOf, h.uses]
    exact (congrArg Prod.snd (h.itab i)).trans (a.writers i)

theorem FilesKept.running (h : FilesKept s t) (r : Running s) : Running t where
  cur := h.cur ▸ r.cur
  live := by rw [h.cur, h.desk]; exact r.live
  awake := by rw [h.cur, h.desk]; exact r.awake

end Frame

/-! ## Counting -/

theorem slots_put (files : Nat → Nat) {fd : Nat} (hfd : fd < UFTSIZE) (v k : Nat) :
    slots (put files fd v) k + (if files fd = k then 1 else 0) =
      slots files k + (if v = k then 1 else 0) := by
  have change := total_change (n := UFTSIZE) (k := fd)
    (f := fun j => if files j = k then 1 else 0)
    (g := fun j => if put files fd v j = k then 1 else 0) hfd
    (fun j _ other => by simp [other])
  simpa [slots] using change

theorem slots_le (files : Nat → Nat) (k : Nat) : slots files k ≤ UFTSIZE := by
  have bound := total_le (n := UFTSIZE) (m := 1) (f := fun j => if files j = k then 1 else 0)
    (fun j _ => by split <;> omega)
  simpa [slots] using bound

theorem one_le_slots {files : Nat → Nat} {fd : Nat} (hfd : fd < UFTSIZE) :
    1 ≤ slots files (files fd) := by
  have le := le_total (f := fun j => if files j = files fd then 1 else 0) hfd
  simpa [slots] using le

section Counts
variable {s t : Kernel} {X : List Nat}

/-- A change of one process changes the counts by what it named. -/
theorem named_change {p : Nat} (hp : p < PTABSIZE)
    (same : ∀ q, q < PTABSIZE → q ≠ p → t.desk q = s.desk q) (k : Nat) :
    named t k + (s.desk p).names k = named s k + (t.desk p).names k :=
  total_change (f := fun q => (s.desk q).names k) (g := fun q => (t.desk q).names k) hp
    (fun q hq other => congrArg (Desk.names · k) (same q hq other))

theorem booked_change {p : Nat} (hp : p < PTABSIZE)
    (same : ∀ q, q < PTABSIZE → q ≠ p → t.desk q = s.desk q) (k : Nat) :
    booked t k + (s.desk p).books k = booked s k + (t.desk p).books k :=
  total_change (f := fun q => (s.desk q).books k) (g := fun q => (t.desk q).books k) hp
    (fun q hq other => congrArg (Desk.books · k) (same q hq other))

theorem names_le (q : Desk) (k : Nat) : q.names k ≤ UFTSIZE := by
  unfold Desk.names
  split
  · exact slots_le _ _
  · exact Nat.zero_le _

theorem books_le (q : Desk) (k : Nat) : q.books k ≤ 1 := by
  unfold Desk.books
  split
  · split <;> omega
  · omega

theorem holders_le (s : Kernel) (k : Nat) : holders s k ≤ PTABSIZE * UFTSIZE + 1 := by
  have names : named s k ≤ PTABSIZE * UFTSIZE := total_le (fun p _ => names_le _ k)
  have acct : accounting s k ≤ 1 := by unfold accounting; split <;> omega
  unfold holders
  omega

theorem booked_le (s : Kernel) (k : Nat) : booked s k ≤ PTABSIZE := by
  have books : booked s k ≤ PTABSIZE * 1 := total_le (fun p _ => books_le _ k)
  omega

/-- A descriptor of a live process keeps its entry in use. -/
theorem one_le_named {p fd : Nat} (hp : p < PTABSIZE) (live : (s.desk p).status = .live)
    (hfd : fd < UFTSIZE) : 1 ≤ named s ((s.desk p).files fd) := by
  have mine : 1 ≤ (s.desk p).names ((s.desk p).files fd) := by
    rw [Desk.names, if_pos live]
    exact one_le_slots hfd
  have le := le_total (f := fun p' => (s.desk p').names ((s.desk p).files fd)) hp
  exact Nat.le_trans mine le

theorem one_le_booked {p u k : Nat} (hp : p < PTABSIZE)
    (h : (s.desk p).booking = some (u, k)) : 1 ≤ booked s k := by
  have mine : (s.desk p).books k = 1 := by simp [Desk.books, h]
  have le := le_total (f := fun p' => (s.desk p').books k) hp
  exact mine ▸ le

theorem exists_booking {k : Nat} (h : booked s k ≠ 0) :
    ∃ p u, p < PTABSIZE ∧ (s.desk p).booking = some (u, k) := by
  by_contra none
  apply h
  have zero : ∀ p, p < PTABSIZE → (s.desk p).books k = 0 := by
    intro p hp
    unfold Desk.books
    split
    · rename_i u k' found
      split
      · rename_i same
        exact absurd ⟨p, u, hp, same ▸ found⟩ none
      · rfl
    · rfl
  have total := total_congr (n := PTABSIZE) (f := fun p => (s.desk p).books k)
    (g := fun _ => 0) zero
  simpa [booked] using total

/-- A booked entry has no other reference. -/
theorem OftAcc.booked_alone (a : OftAcc s X) {k : Nat} (h : booked s k ≠ 0) :
    k < OFTSIZE ∧ (s.oftab k).refs = 1 ∧ holders s k = 0 ∧ X.count k = 0 := by
  obtain ⟨p, u, hp, found⟩ := exists_booking h
  obtain ⟨-, hk, -, one, -⟩ := a.bookings p u k hp found
  have sum := a.refs k hk
  exact ⟨hk, one, by omega, by omega⟩

end Counts

/-! ## Changes of one entry -/

section Entries
variable {s : Kernel} {X Y : List Nat}

/-- Readers and writers see the mode of the entries in use only. -/
theorem uses_entry {k : Nat} {o : Oft}
    (kept : holders s k ≠ 0 → o.inode = (s.oftab k).inode ∧
      o.access.accmode = (s.oftab k).access.accmode) (shut i : Nat) :
    uses { s with oftab := put s.oftab k o } shut i = uses s shut i := by
  funext j
  have same : holders { s with oftab := put s.oftab k o } j = holders s j := rfl
  by_cases here : j = k
  · subst here
    by_cases free : holders s j = 0
    · simp [uses, same, free]
    · simp [uses, same, kept free]
  · simp [uses, same, here]

theorem OftAcc.entry (a : OftAcc s X) {k : Nat} {o : Oft}
    (refs : k < OFTSIZE → o.refs = holders s k + booked s k + Y.count k)
    (others : ∀ j, j ≠ k → Y.count j = X.count j)
    (booking : booked s k ≠ 0 → o.refs = 1 ∧ o.inode ≠ none)
    (idle : k < OFTSIZE → o.refs = 0 → o.inode = none)
    (kept : holders s k ≠ 0 → o.inode = (s.oftab k).inode ∧
      o.access.accmode = (s.oftab k).access.accmode) :
    OftAcc { s with oftab := put s.oftab k o } Y where
  refs := fun j hj => by
    show (put s.oftab k o j).refs = holders s j + booked s j + Y.count j
    by_cases here : j = k
    · subst here
      rw [put_same]
      exact refs hj
    · rw [put_ne s.oftab o here, others j here]
      exact a.refs j hj
  files := a.files
  acct := a.acct
  bookings := fun p u j hp found => by
    obtain ⟨hu, hj, free, one, set⟩ := a.bookings p u j hp found
    refine ⟨hu, hj, free, ?_⟩
    show (put s.oftab k o j).refs = 1 ∧ (put s.oftab k o j).inode ≠ none
    by_cases here : j = k
    · subst here
      have one_le := one_le_booked (s := s) hp found
      rw [put_same]
      exact booking (by omega)
    · rw [put_ne s.oftab o here]
      exact ⟨one, set⟩
  moving := a.moving
  idle := fun j hj => by
    show (put s.oftab k o j).refs = 0 → (put s.oftab k o j).inode = none
    by_cases here : j = k
    · subst here
      rw [put_same]
      exact idle hj
    · rw [put_ne s.oftab o here]
      exact a.idle j hj
  used := fun j hj inUse => by
    have before := a.used j hj inUse
    show (put s.oftab k o j).inode ≠ none
    by_cases here : j = k
    · subst here
      rw [put_same, (kept inUse).1]
      exact before
    · rw [put_ne s.oftab o here]
      exact before
  readers := fun i => by
    rw [readersOf, uses_entry kept]
    exact a.readers i
  writers := fun i => by
    rw [writersOf, uses_entry kept]
    exact a.writers i

/-- The position of an entry and its flags are not counted. -/
theorem OftAcc.entries (a : OftAcc s X) {f : Nat → Oft}
    (same : ∀ k, (f k).refs = (s.oftab k).refs ∧ (f k).inode = (s.oftab k).inode ∧
      (f k).access.accmode = (s.oftab k).access.accmode) : OftAcc { s with oftab := f } X := by
  have uses_eq : ∀ shut i, uses { s with oftab := f } shut i = uses s shut i := by
    intro shut i
    funext k
    show (if holders s k ≠ 0 ∧ (f k).inode = some i ∧ (f k).access.accmode ≠ shut
      then 1 else 0) = uses s shut i k
    rw [(same k).2.1, (same k).2.2, uses]
  constructor
  · intro k hk
    exact (same k).1.trans (a.refs k hk)
  · exact a.files
  · exact a.acct
  · intro p u k hp found
    show u < UFTSIZE ∧ k < OFTSIZE ∧ (s.desk p).files u = NO_FILE ∧ (f k).refs = 1 ∧
      (f k).inode ≠ none
    rw [(same k).1, (same k).2.1]
    exact a.bookings p u k hp found
  · exact a.moving
  · intro k hk
    show (f k).refs = 0 → (f k).inode = none
    rw [(same k).1, (same k).2.1]
    exact a.idle k hk
  · intro k hk inUse
    show (f k).inode ≠ none
    rw [(same k).2.1]
    exact a.used k hk inUse
  · intro i
    rw [readersOf, uses_eq]
    exact a.readers i
  · intro i
    rw [writersOf, uses_eq]
    exact a.writers i

theorem OftAcc.touch (a : OftAcc s X) (k : Nat) {o : Oft}
    (refs : o.refs = (s.oftab k).refs) (inode : o.inode = (s.oftab k).inode)
    (mode : o.access.accmode = (s.oftab k).access.accmode) :
    OftAcc { s with oftab := put s.oftab k o } X :=
  a.entries fun j => by
    by_cases here : j = k
    · subst here
      rw [put_same]
      exact ⟨refs, inode, mode⟩
    · rw [put_ne _ _ here]
      exact ⟨rfl, rfl, rfl⟩

/-- `oft_alloc` takes an idle entry. -/
theorem OftAcc.reserve (a : OftAcc s X) {k : Nat} (hk : k < OFTSIZE)
    (free : (s.oftab k).refs = 0) {o : Oft} (refs : o.refs = 1) :
    OftAcc { s with oftab := put s.oftab k o } (k :: X) := by
  have sum := a.refs k hk
  refine a.entry (fun _ => ?_) (fun j other => ?_) (fun h => ?_) (fun _ h => ?_) (fun h => ?_)
  · rw [List.count_cons_self]
    omega
  · rw [List.count_cons_of_ne (Ne.symm other)]
  · omega
  · omega
  · omega

/-- An entry that only the call knows gets its inode. -/
theorem OftAcc.fill (a : OftAcc s X) {k : Nat} (hk : k < OFTSIZE)
    (mine : (s.oftab k).refs = 1) (held : k ∈ X) {o : Oft} (refs : o.refs = 1) :
    OftAcc { s with oftab := put s.oftab k o } X := by
  have sum := a.refs k hk
  have count := List.count_pos_iff.mpr held
  exact a.entry (fun _ => by omega) (fun _ _ => rfl) (fun h => by omega) (fun _ h => by omega)
    (fun h => by omega)

/-- One more reference to an entry in use. -/
theorem OftAcc.share (a : OftAcc s X) {k : Nat} (hk : k < OFTSIZE) (inUse : holders s k ≠ 0)
    {o : Oft} (refs : o.refs = (s.oftab k).refs + 1) (inode : o.inode = (s.oftab k).inode)
    (mode : o.access.accmode = (s.oftab k).access.accmode) :
    OftAcc { s with oftab := put s.oftab k o } (k :: X) := by
  have sum := a.refs k hk
  refine a.entry (fun _ => ?_) (fun j other => ?_) (fun h => ?_) (fun _ h => ?_)
    (fun _ => ⟨inode, mode⟩)
  · rw [List.count_cons_self]
    omega
  · rw [List.count_cons_of_ne (Ne.symm other)]
  · exact absurd (a.booked_alone h).2.2.1 inUse
  · omega

/-- A reference of the call goes; the last one takes the inode with it. -/
theorem OftAcc.drop {k : Nat} (a : OftAcc s (k :: X)) (hk : k < OFTSIZE) {o : Oft}
    (refs : o.refs = (s.oftab k).refs - 1)
    (inode : o.inode = if o.refs = 0 then none else (s.oftab k).inode)
    (mode : o.access.accmode = (s.oftab k).access.accmode) :
    OftAcc { s with oftab := put s.oftab k o } X := by
  have sum := a.refs k hk
  rw [List.count_cons_self] at sum
  refine a.entry (fun _ => ?_) (fun j other => ?_) (fun h => ?_) (fun _ h => ?_) (fun h => ?_)
  · omega
  · rw [List.count_cons_of_ne (Ne.symm other)]
  · have alone := (a.booked_alone h).2.2.2
    rw [List.count_cons_self] at alone
    omega
  · rw [inode, if_pos h]
  · rw [inode, if_neg (by omega)]
    exact ⟨rfl, mode⟩

end Entries

/-! ## Changes of one descriptor -/

/-- `t` is `s` with the free descriptor `u` of process `p` naming entry `k`. -/
structure Installed (s t : Kernel) (p u k : Nat) : Prop where
  proc : p < PTABSIZE
  live : (s.desk p).status = .live
  awake : (s.desk p).wait = none
  slot : u < UFTSIZE
  free : (s.desk p).files u = NO_FILE
  entry : k < OFTSIZE
  oftab : t.oftab = s.oftab
  acctFh : t.acctFh = s.acctFh
  mine : t.desk p = { s.desk p with files := put (s.desk p).files u k }
  others : ∀ q, q ≠ p → t.desk q = s.desk q

/-- An entry that comes into use counts for its inode. -/
def newUse (s : Kernel) (shut i k : Nat) : Nat :=
  if holders s k = 0 ∧ (s.oftab k).inode = some i ∧ (s.oftab k).access.accmode ≠ shut
  then 1 else 0

theorem oftsize_lt_noFile : OFTSIZE < NO_FILE :=
  Nat.lt_trans Build.oftBound (by decide)

section Installed
variable {s t : Kernel} {X : List Nat} {p u k : Nat}

theorem Installed.named (h : Installed s t p u k) {j : Nat} (hj : j < OFTSIZE) :
    named t j = named s j + (if k = j then 1 else 0) := by
  have change := named_change h.proc (fun q _ other => h.others q other) j
  have put := slots_put (s.desk p).files h.slot k j
  have before : (s.desk p).names j = slots (s.desk p).files j := by
    rw [Desk.names, if_pos h.live]
  have after : (t.desk p).names j = slots (Table.put (s.desk p).files u k) j := by
    rw [h.mine, Desk.names, if_pos h.live]
  have other : ¬ (s.desk p).files u = j := by
    have := oftsize_lt_noFile
    rw [h.free]
    omega
  rw [if_neg other] at put
  omega

theorem Installed.booking (h : Installed s t p u k) (q : Nat) :
    (t.desk q).booking = (s.desk q).booking := by
  by_cases here : q = p
  · subst here
    rw [h.mine]
    rfl
  · rw [h.others q here]

theorem Installed.transfer (h : Installed s t p u k) (q : Nat) :
    (t.desk q).transfer = (s.desk q).transfer := by
  by_cases here : q = p
  · subst here
    rw [h.mine]
    rfl
  · rw [h.others q here]

theorem Installed.booked (h : Installed s t p u k) (j : Nat) : booked t j = booked s j := by
  have same : ∀ q, (t.desk q).books j = (s.desk q).books j := fun q => by
    rw [Desk.books, h.booking, Desk.books]
  simp only [Fuzix.booked, same]

theorem Installed.idle_desk (h : Installed s t p u k) :
    (s.desk p).booking = none ∧ (s.desk p).transfer = none := by
  constructor
  · simp [Desk.booking, h.awake]
  · simp [Desk.transfer, h.awake]

theorem Installed.holders (h : Installed s t p u k) {j : Nat} (hj : j < OFTSIZE) :
    holders t j = holders s j + (if k = j then 1 else 0) := by
  have named := h.named hj
  have acct : accounting t j = accounting s j := by rw [accounting, h.acctFh, accounting]
  simp only [Fuzix.holders, named, acct]
  omega

/-- Only entry `k` can change its use. -/
theorem Installed.total_uses (h : Installed s t p u k) (shut i : Nat) :
    total OFTSIZE (uses t shut i) = total OFTSIZE (uses s shut i) + newUse s shut i k := by
  have change := total_change (f := uses s shut i) (g := uses t shut i) h.entry
    (fun j hj other => by simp [uses, h.holders hj, h.oftab, Ne.symm other])
  have after : uses t shut i k =
      if (s.oftab k).inode = some i ∧ (s.oftab k).access.accmode ≠ shut then 1 else 0 := by
    simp [uses, h.holders h.entry, h.oftab]
  have both : uses t shut i k = uses s shut i k + newUse s shut i k := by
    rw [after, uses, newUse]
    by_cases inUse : Fuzix.holders s k = 0
    · simp [inUse]
    · simp [inUse]
  omega

/-- The call hands its reference to a descriptor. -/
theorem OftAcc.install (a : OftAcc s (k :: X)) (h : Installed s t p u k)
    (set : (s.oftab k).inode ≠ none)
    (readers : ∀ i, (t.itab i).readers = (s.itab i).readers + newUse s O_WRONLY i k)
    (writers : ∀ i, (t.itab i).writers = (s.itab i).writers + newUse s O_RDONLY i k) :
    OftAcc t X where
  refs := fun j hj => by
    have before := a.refs j hj
    rw [h.oftab, h.holders hj, h.booked]
    by_cases here : k = j
    · subst here
      rw [List.count_cons_self] at before
      rw [if_pos rfl]
      omega
    · rw [List.count_cons_of_ne here] at before
      rw [if_neg here]
      omega
  files := fun q hq live j hj => by
    by_cases here : q = p
    · subst here
      rw [h.mine]
      by_cases slot : j = u
      · subst slot
        simpa only [put_same] using Or.inr h.entry
      · simpa only [put_ne _ _ slot] using a.files q hq h.live j hj
    · rw [h.others q here] at live ⊢
      exact a.files q hq live j hj
  acct := fun j => by
    rw [h.acctFh]
    exact a.acct j
  bookings := fun q v j hq found => by
    rw [h.booking] at found
    rw [h.oftab]
    have other : q ≠ p := by
      rintro rfl
      rw [h.idle_desk.1] at found
      cases found
    rw [h.others q other]
    exact a.bookings q v j hq found
  moving := fun q fd hq found => by
    rw [h.transfer] at found
    have other : q ≠ p := by
      rintro rfl
      rw [h.idle_desk.2] at found
      cases found
    rw [h.others q other]
    exact a.moving q fd hq found
  idle := fun j hj => by
    rw [h.oftab]
    exact a.idle j hj
  used := fun j hj inUse => by
    rw [h.oftab]
    by_cases here : k = j
    · exact here ▸ set
    · rw [h.holders hj, if_neg here] at inUse
      exact a.used j hj inUse
  readers := fun i => by
    rw [readers, readersOf, h.total_uses, a.readers i, readersOf]
  writers := fun i => by
    rw [writers, writersOf, h.total_uses, a.writers i, writersOf]

/-- A descriptor is closed and the call keeps its reference. -/
theorem OftAcc.uninstall (a : OftAcc t X) (h : Installed s t p u k)
    (readers : ∀ i, (t.itab i).readers = (s.itab i).readers + newUse s O_WRONLY i k)
    (writers : ∀ i, (t.itab i).writers = (s.itab i).writers + newUse s O_RDONLY i k) :
    OftAcc s (k :: X) where
  refs := fun j hj => by
    have after := a.refs j hj
    rw [h.oftab, h.holders hj, h.booked] at after
    by_cases here : k = j
    · subst here
      rw [List.count_cons_self]
      rw [if_pos rfl] at after
      omega
    · rw [List.count_cons_of_ne here]
      rw [if_neg here] at after
      omega
  files := fun q hq live j hj => by
    by_cases here : q = p
    · subst here
      have after := a.files q hq (by rw [h.mine]; exact live) j hj
      rw [h.mine] at after
      by_cases slot : j = u
      · subst slot
        exact Or.inl h.free
      · simpa only [put_ne _ _ slot] using after
    · have after := a.files q hq (by rw [h.others q here]; exact live) j hj
      rw [h.others q here] at after
      exact after
  acct := fun j => by
    rw [← h.acctFh]
    exact a.acct j
  bookings := fun q v j hq found => by
    have other : q ≠ p := by
      rintro rfl
      rw [h.idle_desk.1] at found
      cases found
    have after := a.bookings q v j hq (by rw [h.booking]; exact found)
    rw [h.oftab, h.others q other] at after
    exact after
  moving := fun q fd hq found => by
    have other : q ≠ p := by
      rintro rfl
      rw [h.idle_desk.2] at found
      cases found
    have after := a.moving q fd hq (by rw [h.transfer]; exact found)
    rw [h.others q other] at after
    exact after
  idle := fun j hj => by
    rw [← h.oftab]
    exact a.idle j hj
  used := fun j hj inUse => by
    rw [← h.oftab]
    refine a.used j hj ?_
    rw [h.holders hj]
    omega
  readers := fun i => by
    have after := a.readers i
    rw [readers, readersOf, h.total_uses] at after
    rw [readersOf]
    omega
  writers := fun i => by
    have after := a.writers i
    rw [writers, writersOf, h.total_uses] at after
    rw [writersOf]
    omega

end Installed

/-! ## Changes of processes -/

section Reseat
variable {s t : Kernel} {X : List Nat} {p u k : Nat}

theorem Desk.booking_live {q : Desk} (h : q.booking = some (u, k)) : q.status = .live := by
  unfold Desk.booking at h
  split at h
  · assumption
  · cases h

/-- Processes change, but nobody names or books anything else. -/
theorem OftAcc.reseat (a : OftAcc s X) (oftab : t.oftab = s.oftab)
    (acctFh : t.acctFh = s.acctFh) (itab : t.itab = s.itab)
    (names : ∀ q, q < PTABSIZE → ∀ k, k < OFTSIZE → (t.desk q).names k = (s.desk q).names k)
    (files : ∀ q, q < PTABSIZE → (t.desk q).status = .live →
      (s.desk q).status = .live ∧ (t.desk q).files = (s.desk q).files)
    (booking : ∀ q, q < PTABSIZE → (t.desk q).booking = (s.desk q).booking)
    (moving : ∀ q fd, q < PTABSIZE → (t.desk q).transfer = some fd →
      fd < UFTSIZE ∧ (t.desk q).files fd ≠ NO_FILE) : OftAcc t X := by
  have booked_eq : ∀ j, booked t j = booked s j := fun j =>
    total_congr fun q hq => by rw [Desk.books, booking q hq, Desk.books]
  have holders_eq : ∀ j, j < OFTSIZE → holders t j = holders s j := fun j hj => by
    have named_eq : named t j = named s j := total_congr fun q hq => names q hq j hj
    rw [holders, named_eq, accounting, acctFh, holders, accounting]
  have uses_eq : ∀ shut i, total OFTSIZE (uses t shut i) = total OFTSIZE (uses s shut i) :=
    fun shut i => total_congr fun j hj => by rw [uses, holders_eq j hj, oftab, uses]
  constructor
  · intro j hj
    rw [oftab, holders_eq j hj, booked_eq]
    exact a.refs j hj
  · intro q hq live
    obtain ⟨before, same⟩ := files q hq live
    rw [same]
    exact a.files q hq before
  · rw [acctFh]
    exact a.acct
  · intro q v j hq found
    have same := (files q hq (Desk.booking_live found)).2
    rw [booking q hq] at found
    rw [same, oftab]
    exact a.bookings q v j hq found
  · exact moving
  · rw [oftab]
    exact a.idle
  · intro j hj inUse
    rw [holders_eq j hj] at inUse
    rw [oftab]
    exact a.used j hj inUse
  · intro i
    rw [itab, readersOf, uses_eq]
    exact a.readers i
  · intro i
    rw [itab, writersOf, uses_eq]
    exact a.writers i

/-- `t` is `s` with process `p` waiting in `d_open` for the entry `k`. -/
structure Booked (s t : Kernel) (p u k : Nat) : Prop where
  proc : p < PTABSIZE
  before : (s.desk p).booking = none
  after : (t.desk p).booking = some (u, k)
  still : (t.desk p).transfer = none ∧ (s.desk p).transfer = none
  live : (s.desk p).status = .live
  files : (t.desk p).files = (s.desk p).files
  oftab : t.oftab = s.oftab
  acctFh : t.acctFh = s.acctFh
  itab : t.itab = s.itab
  others : ∀ q, q ≠ p → t.desk q = s.desk q

theorem Booked.names (h : Booked s t p u k) (q : Nat) : (t.desk q).names = (s.desk q).names := by
  by_cases here : q = p
  · subst here
    have live := Desk.booking_live h.after
    funext j
    rw [Desk.names, if_pos live, h.files, Desk.names, if_pos h.live]
  · rw [h.others q here]

theorem Booked.holders (h : Booked s t p u k) (j : Nat) : holders t j = holders s j := by
  have named_eq : named t j = named s j := total_congr fun q _ => congrFun (h.names q) j
  rw [Fuzix.holders, named_eq, accounting, h.acctFh, Fuzix.holders, accounting]

theorem Booked.uses (h : Booked s t p u k) (shut i : Nat) : uses t shut i = uses s shut i := by
  funext j
  rw [Fuzix.uses, h.holders, h.oftab, Fuzix.uses]

theorem Booked.booked (h : Booked s t p u k) (j : Nat) :
    booked t j = booked s j + (if k = j then 1 else 0) := by
  have change := booked_change h.proc (fun q _ other => h.others q other) j
  have before : (s.desk p).books j = 0 := by rw [Desk.books, h.before]
  have after : (t.desk p).books j = if k = j then 1 else 0 := by rw [Desk.books, h.after]
  omega

theorem OftAcc.book (a : OftAcc s (k :: X)) (h : Booked s t p u k) (hu : u < UFTSIZE)
    (hk : k < OFTSIZE) (free : (s.desk p).files u = NO_FILE) (one : (s.oftab k).refs = 1)
    (set : (s.oftab k).inode ≠ none) : OftAcc t X where
  refs := fun j hj => by
    have before := a.refs j hj
    rw [h.oftab, h.holders, h.booked]
    by_cases here : k = j
    · subst here
      rw [List.count_cons_self] at before
      rw [if_pos rfl]
      omega
    · rw [List.count_cons_of_ne here] at before
      rw [if_neg here]
      omega
  files := fun q hq live => by
    by_cases here : q = p
    · subst here
      rw [h.files]
      exact a.files q hq h.live
    · rw [h.others q here] at live ⊢
      exact a.files q hq live
  acct := by
    rw [h.acctFh]
    exact a.acct
  bookings := fun q v j hq found => by
    by_cases here : q = p
    · subst here
      rw [h.after] at found
      cases found
      rw [h.oftab, h.files]
      exact ⟨hu, hk, free, one, set⟩
    · rw [h.others q here] at found ⊢
      rw [h.oftab]
      exact a.bookings q v j hq found
  moving := fun q fd hq found => by
    have other : q ≠ p := by
      rintro rfl
      rw [h.still.1] at found
      cases found
    rw [h.others q other] at found ⊢
    exact a.moving q fd hq found
  idle := by
    rw [h.oftab]
    exact a.idle
  used := fun j hj inUse => by
    rw [h.holders] at inUse
    rw [h.oftab]
    exact a.used j hj inUse
  readers := fun i => by
    rw [h.itab, readersOf, h.uses]
    exact a.readers i
  writers := fun i => by
    rw [h.itab, writersOf, h.uses]
    exact a.writers i

/-- The process goes on, and its call has the reference it had booked. -/
theorem OftAcc.unbook (a : OftAcc t X) (h : Booked s t p u k) : OftAcc s (k :: X) where
  refs := fun j hj => by
    have after := a.refs j hj
    rw [h.oftab, h.holders, h.booked] at after
    by_cases here : k = j
    · subst here
      rw [List.count_cons_self]
      rw [if_pos rfl] at after
      omega
    · rw [List.count_cons_of_ne here]
      rw [if_neg here] at after
      omega
  files := fun q hq live => by
    by_cases here : q = p
    · subst here
      rw [← h.files]
      exact a.files q hq (Desk.booking_live h.after)
    · rw [← h.others q here] at live ⊢
      exact a.files q hq live
  acct := by
    rw [← h.acctFh]
    exact a.acct
  bookings := fun q v j hq found => by
    have other : q ≠ p := by
      rintro rfl
      rw [h.before] at found
      cases found
    rw [← h.others q other] at found ⊢
    rw [← h.oftab]
    exact a.bookings q v j hq found
  moving := fun q fd hq found => by
    have other : q ≠ p := by
      rintro rfl
      rw [h.still.2] at found
      cases found
    rw [← h.others q other] at found ⊢
    exact a.moving q fd hq found
  idle := by
    rw [← h.oftab]
    exact a.idle
  used := fun j hj inUse => by
    rw [← h.holders] at inUse
    rw [← h.oftab]
    exact a.used j hj inUse
  readers := fun i => by
    rw [← h.itab, readersOf, ← h.uses]
    exact a.readers i
  writers := fun i => by
    rw [← h.itab, writersOf, ← h.uses]
    exact a.writers i

end Reseat

end Fuzix
