import Fuzix.Cloexec

/-!
# Copies of descriptors

`dup`, `dup2`, `F_DUPFD` and `F_GETFL`, with what each of them leaves behind worked out.
`getinode` and the search for a free descriptor take their argument in 8 bits, and
`u_files` is indexed with the whole of it.
-/

set_option linter.unusedSectionVars false

namespace Dup

open Fuzix Wp Table Words Cloexec

section
variable [Build]

/-! ## Calls -/

/-- An `int` as it is passed. -/
def asArg (n : Int) : Nat :=
  match width with
  | .int16 => (n % 65536).toNat
  | .int32 => (n % 4294967296).toNat

/-- The flags of an entry as `open` and `F_SETFL` take them. `O_FLOCK` is not among them. -/
def flags (a : Access) : Nat :=
  a.accmode + (if a.append then 4 else 0) + (if a.sync then 8 else 0) +
    (if a.ndelay then 16 else 0) + if a.direct then 32 else 0

inductive Request where
  | dup (oldd : Nat)
  | dup2 (oldd newd : Nat)
  | dupfd (fd : Nat) (base : Int)
  | getfl (fd data : Nat)

def Request.run : Request → K (Option Nat)
  | .dup oldd => Fuzix.dup oldd
  | .dup2 oldd newd => Fuzix.dup2 oldd newd
  | .dupfd fd base => fcntl fd .dupfd (asArg base)
  | .getfl fd data => fcntl fd .getfl data

abbrev Outcome := Except Stop (Option Nat × Kernel)

/-! ## What they are for -/

/-- Only `u_error` is set. -/
def failed (e : Nat) (s : Kernel) : Kernel :=
  { s with ptab := put s.ptab s.cur { s.ptab s.cur with u := { s.u with error := e } } }

/-- `newd` names the entry `k`. -/
def naming (s : Kernel) (k newd : Nat) : Kernel :=
  { s with ptab := put s.ptab s.cur { s.ptab s.cur with u := { s.u with files := put s.u.files newd k } } }

/-- `newd` names the entry of `fd`, which has one reference more. -/
def installed (s : Kernel) (fd newd : Nat) : Kernel :=
  let k := (mine s).files fd
  { naming s k newd with oftab := put s.oftab k { s.oftab k with refs := ((s.oftab k).refs + 1) % 256 } }

/-- The lowest free descriptor from `base` on. -/
def Lowest (s : Kernel) (base : Int) (n : Nat) : Prop :=
  n < UFTSIZE ∧ base ≤ n ∧ (mine s).files n = NO_FILE ∧
    ∀ j < n, base ≤ j → (mine s).files j ≠ NO_FILE

/-- The answer of a call that did what it is for. -/
def Succeeds (s : Kernel) (v : Nat) (t : Kernel) : Request → Prop
  | .dup oldd => Lowest s 0 v ∧ t = installed s oldd v
  | .dup2 oldd newd => v = newd ∧ newd < UFTSIZE ∧
      (oldd = newd ∧ t = s ∨ oldd ≠ newd ∧
        (((mine s).files newd = NO_FILE ∧ t = installed s oldd newd) ∨
          ∃ u, doclose newd s = .ok (false, u) ∧ t = installed u oldd newd))
  | .dupfd fd base => Lowest s base v ∧ t = installed s fd v
  | .getfl fd _ => v = flags (s.oftab ((mine s).files fd)).access ∧ t = s

def Right (s : Kernel) (q : Request) (out : Outcome) : Prop :=
  (∃ e, out = .ok (none, failed e s)) ∨ ∃ v t, out = .ok (some v, t) ∧ Succeeds s v t q

/-! ## When they do it -/

/-- `getinode` refuses the descriptor. -/
def Refused (s : Kernel) (fd : Nat) : Prop := UFTSIZE ≤ fd % 256 ∨ (mine s).files (fd % 256) = NO_FILE

def Full (s : Kernel) (base : Nat) : Prop := ∀ j < UFTSIZE, base ≤ j → (mine s).files j ≠ NO_FILE

def Clean (s : Kernel) : Request → Prop
  | .dup oldd => Refused s oldd ∨ Full s 0 ∨ oldd < UFTSIZE
  | .dup2 oldd newd => Refused s oldd ∨ UFTSIZE ≤ newd ∨
      newd = 0 ∧ oldd ≠ 0 ∧ oldd < UFTSIZE ∧
        ((mine s).files 0 = NO_FILE ∨ ∃ u, doclose 0 s = .ok (false, u))
  | .dupfd fd base => Refused s fd ∨ fd < UFTSIZE ∧
      (Full s (base % 256).toNat ∨ base ≤ 0 ∧ base % 256 = 0 ∧ (mine s).files 0 = NO_FILE)
  | .getfl fd data => Refused s fd ∨ fd < UFTSIZE ∧ data = flags (s.oftab ((mine s).files fd)).access

/-- What `getinode` expects of an open descriptor. -/
def Opened (s : Kernel) : Prop := ∀ fd < UFTSIZE, (mine s).files fd ≠ NO_FILE →
  (mine s).files fd < OFTSIZE ∧
    ∃ i, (s.oftab ((mine s).files fd)).inode = some i ∧ i < ITABSIZE ∧ (s.itab i).magic = CMAGIC

/-- The accounting of the open files gives it, for inodes in the table. -/
theorem Opened.of_acc {s : Kernel} (acc : OftAcc s []) (running : Running s)
    (inodes : ∀ k i, (s.oftab k).inode = some i → i < ITABSIZE ∧ (s.itab i).magic = CMAGIC) : Opened s := by
  intro fd slot used
  have entry := acc.entry_lt running slot used
  obtain ⟨i, inode⟩ := Option.ne_none_iff_exists'.mp (acc.used _ entry (running.holders slot))
  exact ⟨entry, i, inode, inodes _ i inode⟩

/-! ## Runs -/

variable {s t : Kernel} {fd newd oldd base : Nat}

theorem getinode_refused (refused : Refused s fd) : getinode fd s = .ok (none, failed EBADF s) := by
  have spec : wp (fun _ => False) (getinode fd) (fun r t => r = none ∧ t = failed EBADF s) s := by
    unfold getinode
    simp only [wp_bind, wp_get, wp_ite, wp_pure]
    exact ⟨fun _ => ⟨trivial, rfl⟩, fun open' => absurd refused open'⟩
  obtain ⟨r, t, run, rfl, rfl⟩ := wp_returns spec
  exact run

theorem getinode_open (opened : Opened s) (open' : ¬ Refused s fd) :
    ∃ i, getinode fd s = .ok (some i, s) := by
  have parts := not_or.mp open'
  obtain ⟨entry, i, inode, bound, good⟩ := opened (fd % 256) (Nat.not_le.mp parts.1) parts.2
  have spec : wp (fun _ => False) (getinode fd) (fun r t => r = some i ∧ t = s) s := by
    unfold getinode
    simp only [wp_bind, wp_get, wp_ite, wp_pure]
    refine ⟨fun refused => absurd refused open', fun _ => ⟨fun out => absurd entry (Nat.not_lt.mpr out), fun _ => ?_⟩⟩
    change (s.oftab (s.u.files (fd % 256))).inode = some i at inode
    rw [inode]
    simp only [wp_bind, wp_ite, wp_pure]
    refine ⟨fun out => absurd bound (Nat.not_lt.mpr out), fun _ => ?_⟩
    unfold magic
    simp only [wp_bind, wp_get, wp_ite, wp_pure]
    exact ⟨fun bad => absurd good bad, fun _ => ⟨trivial, trivial⟩⟩
  obtain ⟨r, t, run, rfl, rfl⟩ := wp_returns spec
  exact ⟨i, run⟩

theorem ufAllocN_none (full : Full s (base % 256)) : ufAllocN base s = .ok (none, failed EMFILE s) := by
  have spec : wp (fun _ => False) (ufAllocN base) (fun r t => r = none ∧ t = failed EMFILE s) s := by
    unfold ufAllocN
    simp only [wp_bind, wp_get]
    split
    · rename_i j found
      have free := List.find?_some found
      have slot := List.mem_range.mp (List.mem_of_find?_eq_some found)
      simp only [decide_eq_true_eq] at free
      exact absurd free.2 (full j slot free.1)
    · exact ⟨rfl, rfl⟩
  obtain ⟨r, t, run, rfl, rfl⟩ := wp_returns spec
  exact run

theorem ufAllocN_some (room : ¬ Full s (base % 256)) :
    ∃ j, ufAllocN base s = .ok (some j, s) ∧ Lowest s (base % 256 : Nat) j := by
  have spec : wp (fun _ => False) (ufAllocN base)
      (fun r t => ∃ j, r = some j ∧ t = s ∧ Lowest s (base % 256 : Nat) j) s := by
    unfold ufAllocN
    simp only [wp_bind, wp_get]
    split
    · rename_i j found
      obtain ⟨free, slot, least⟩ := List.find?_range_eq_some.mp found
      simp only [decide_eq_true_eq] at free
      refine ⟨j, rfl, rfl, List.mem_range.mp slot, by exact_mod_cast free.1, free.2, ?_⟩
      intro k below from'
      have taken := least k below
      simp only [Bool.not_eq_true', decide_eq_false_iff_not] at taken
      exact fun free' => taken ⟨by exact_mod_cast from', free'⟩
    · rename_i none'
      exfalso
      apply room
      intro j slot from' free
      have taken := List.find?_eq_none.mp none' j (List.mem_range.mpr slot)
      exact taken (decide_eq_true ⟨from', free⟩)
  obtain ⟨r, t, run, j, rfl, rfl, lowest⟩ := wp_returns spec
  exact ⟨j, run, lowest⟩

theorem oftOf_wild (out : UFTSIZE ≤ fd) : oftOf fd s = .error .wild := by
  have run : oftOf fd s = (if UFTSIZE ≤ fd then throw .wild else pure (s.u.files fd) : K Nat) s := rfl
  rw [run, if_pos out]
  rfl

theorem oftOf_run (slot : fd < UFTSIZE) : oftOf fd s = .ok ((mine s).files fd, s) := by
  have run : oftOf fd s = (if UFTSIZE ≤ fd then throw .wild else pure (s.u.files fd) : K Nat) s := rfl
  rw [run, if_neg (Nat.not_le.mpr slot)]
  rfl

theorem getOft_run {k : Nat} (entry : k < OFTSIZE) : getOft k s = .ok (s.oftab k, s) := by
  have run : getOft k s = (if OFTSIZE ≤ k then throw .wild else pure (s.oftab k) : K Oft) s := rfl
  rw [run, if_neg (Nat.not_le.mpr entry)]
  rfl

theorem getOft_wild {k : Nat} (out : OFTSIZE ≤ k) : getOft k s = .error .wild := by
  have run : getOft k s = (if OFTSIZE ≤ k then throw .wild else pure (s.oftab k) : K Oft) s := rfl
  rw [run, if_pos out]
  rfl

/-- A program stops where its first part did. -/
theorem bind_error {α β : Type} {m : K α} {f : α → K β} {e : Stop} (run : m s = .error e) :
    (m >>= f) s = .error e := by
  have bind : (m >>= f) s = (m s >>= fun p => f p.1 p.2) := rfl
  rw [bind, run]
  rfl

theorem dupTo_wild (out : UFTSIZE ≤ fd) : dupTo fd newd s = .error .wild := bind_error (oftOf_wild out)

theorem dupTo_run (slot : fd < UFTSIZE) (entry : (mine s).files fd < OFTSIZE) :
    dupTo fd newd s = .ok ((), installed s fd newd) := by
  unfold dupTo
  rw [bind_run (oftOf_run slot)]
  have set : setFile newd ((mine s).files fd) s = .ok ((), naming s ((mine s).files fd) newd) := rfl
  rw [bind_run set, bind_run (getOft_run entry)]
  rfl

theorem dupTo_bad (slot : fd < UFTSIZE) (bad : OFTSIZE ≤ (mine s).files fd) :
    dupTo fd newd s = .error .wild := by
  unfold dupTo
  rw [bind_run (oftOf_run slot)]
  have set : setFile newd ((mine s).files fd) s = .ok ((), naming s ((mine s).files fd) newd) := rfl
  rw [bind_run set]
  exact bind_error (getOft_wild bad)

theorem installed_files (s : Kernel) (fd newd : Nat) :
    (mine (installed s fd newd)).files = put (mine s).files newd ((mine s).files fd) := by
  simp [mine, card, installed, naming]
  rfl

theorem closed_of_not (open' : ¬ Refused s fd) (slot : fd < UFTSIZE) : (mine s).files fd ≠ NO_FILE := by
  intro closed
  apply open'
  right
  have bound := Build.uftBound
  rw [Nat.mod_eq_of_lt (by omega)]
  exact closed

theorem entry_of_open (opened : Opened s) (open' : ¬ Refused s fd) (slot : fd < UFTSIZE) :
    (mine s).files fd < OFTSIZE :=
  (opened fd slot (closed_of_not open' slot)).1

/-! ## The calls -/

theorem refused_dup (refused : Refused s oldd) : Fuzix.dup oldd s = .ok (none, failed EBADF s) := by
  unfold Fuzix.dup
  rw [bind_run (getinode_refused refused)]
  rfl

theorem right_refused {q : Request} {e : Nat} {out : Outcome} (run : out = .ok (none, failed e s)) :
    Right s q out := Or.inl ⟨e, run⟩

theorem not_right_error {q : Request} {e : Stop} {out : Outcome} (run : out = .error e) :
    ¬ Right s q out := by
  subst run
  rintro (⟨_, no⟩ | ⟨_, _, no, _⟩)
  · cases no
  · cases no

/-- What is right of a call that returned. -/
theorem right_some {q : Request} {v : Nat} {out : Outcome} (run : out = .ok (some v, t)) :
    Right s q out ↔ Succeeds s v t q := by
  subst run
  constructor
  · rintro (⟨_, no⟩ | ⟨v', t', same, done⟩)
    · cases no
    · injection same with same
      injection same with value state
      injection value with value
      rw [value, state]
      exact done
  · exact fun done => Or.inr ⟨v, t, rfl, done⟩

theorem Lowest.room {base : Nat} {n : Nat} (lowest : Lowest s base n) : ¬ Full s base :=
  fun full => full n lowest.1 (by exact_mod_cast lowest.2.1) lowest.2.2.1

theorem dup_right (opened : Opened s) (oldd : Nat) :
    Right s (.dup oldd) (Fuzix.dup oldd s) ↔ Clean s (.dup oldd) := by
  by_cases refused : Refused s oldd
  · have run := refused_dup refused
    exact ⟨fun _ => Or.inl refused, fun _ => right_refused run⟩
  · obtain ⟨i, found⟩ := getinode_open opened refused
    unfold Fuzix.dup
    rw [bind_run found]
    dsimp only
    by_cases full : Full s 0
    · have none' : ufAlloc s = .ok (none, failed EMFILE s) := ufAllocN_none full
      rw [bind_run none']
      exact ⟨fun _ => Or.inr (Or.inl full), fun _ => right_refused rfl⟩
    · obtain ⟨n, some', lowest⟩ := @ufAllocN_some _ s 0 full
      have taken : ufAlloc s = .ok (some n, s) := some'
      rw [bind_run taken]
      dsimp only
      by_cases slot : oldd < UFTSIZE
      · have entry := entry_of_open opened refused slot
        rw [bind_run (dupTo_run slot entry)]
        exact ⟨fun _ => Or.inr (Or.inr slot), fun _ => (right_some rfl).mpr ⟨lowest, rfl⟩⟩
      · rw [bind_error (dupTo_wild (Nat.not_lt.mp slot))]
        constructor
        · exact fun right => absurd right (not_right_error rfl)
        · rintro (yes | yes | yes)
          · exact absurd yes refused
          · exact absurd yes full
          · exact absurd yes slot

/-! ### `_fcntl` -/

/-- `_fcntl` up to its `switch`. -/
theorem fcntl_wild (opened : Opened s) (open' : ¬ Refused s fd) (out : UFTSIZE ≤ fd) (request : Fcntl)
    (data : Nat) : fcntl fd request data s = .error .wild := by
  obtain ⟨i, found⟩ := getinode_open opened open'
  unfold fcntl
  rw [bind_run found]
  exact bind_error (oftOf_wild out)

theorem fcntl_refused (refused : Refused s fd) (request : Fcntl) (data : Nat) :
    fcntl fd request data s = .ok (none, failed EBADF s) := by
  unfold fcntl
  rw [bind_run (getinode_refused refused)]
  rfl

theorem getfl_run (opened : Opened s) (open' : ¬ Refused s fd) (slot : fd < UFTSIZE) (data : Nat) :
    fcntl fd .getfl data s = .ok (some data, s) := by
  obtain ⟨i, found⟩ := getinode_open opened open'
  unfold fcntl
  rw [bind_run found]
  dsimp only
  rw [bind_run (oftOf_run slot), bind_run (getOft_run (entry_of_open opened open' slot))]
  rfl

theorem dupfd_full (opened : Opened s) (open' : ¬ Refused s fd) (slot : fd < UFTSIZE) {data : Nat}
    (full : Full s (data % 256)) : fcntl fd .dupfd data s = .ok (none, failed EMFILE s) := by
  obtain ⟨i, found⟩ := getinode_open opened open'
  have run : (get : K Kernel) s = .ok (s, s) := rfl
  unfold fcntl
  rw [bind_run found]
  dsimp only
  rw [bind_run (oftOf_run slot), bind_run (getOft_run (entry_of_open opened open' slot)), bind_run run]
  rw [bind_run (ufAllocN_none full)]
  rfl

theorem dupfd_run (opened : Opened s) (open' : ¬ Refused s fd) (slot : fd < UFTSIZE) {data : Nat}
    (room : ¬ Full s (data % 256)) : ∃ n, Lowest s (data % 256 : Nat) n ∧
      fcntl fd .dupfd data s = .ok (some 0, installed s fd n) := by
  obtain ⟨i, found⟩ := getinode_open opened open'
  obtain ⟨n, taken, lowest⟩ := ufAllocN_some room
  have run : (get : K Kernel) s = .ok (s, s) := rfl
  refine ⟨n, lowest, ?_⟩
  unfold fcntl
  rw [bind_run found]
  dsimp only
  rw [bind_run (oftOf_run slot), bind_run (getOft_run (entry_of_open opened open' slot)), bind_run run]
  rw [bind_run taken]
  dsimp only
  rw [bind_run (dupTo_run slot (entry_of_open opened open' slot))]
  rfl

theorem asArg_mod (base : Int) : asArg base % 256 = (base % 256).toNat := by
  unfold asArg
  split
  · omega
  · omega

theorem getfl_right (opened : Opened s) (fd data : Nat) :
    Right s (.getfl fd data) (fcntl fd .getfl data s) ↔ Clean s (.getfl fd data) := by
  by_cases refused : Refused s fd
  · exact ⟨fun _ => Or.inl refused, fun _ => right_refused (fcntl_refused refused _ _)⟩
  · by_cases slot : fd < UFTSIZE
    · rw [right_some (getfl_run opened refused slot data)]
      constructor
      · exact fun done => Or.inr ⟨slot, done.1⟩
      · rintro (yes | ⟨_, same⟩)
        · exact absurd yes refused
        · exact ⟨same, rfl⟩
    · have wild := fcntl_wild opened refused (Nat.not_lt.mp slot) .getfl data
      constructor
      · exact fun right => absurd right (not_right_error wild)
      · rintro (yes | ⟨yes, _⟩)
        · exact absurd yes refused
        · exact absurd yes slot

theorem dupfd_right (opened : Opened s) (fd : Nat) (base : Int) :
    Right s (.dupfd fd base) (fcntl fd .dupfd (asArg base) s) ↔ Clean s (.dupfd fd base) := by
  by_cases refused : Refused s fd
  · exact ⟨fun _ => Or.inl refused, fun _ => right_refused (fcntl_refused refused _ _)⟩
  · by_cases slot : fd < UFTSIZE
    · by_cases full : Full s (asArg base % 256)
      · have run := dupfd_full opened refused slot full
        rw [asArg_mod] at full
        exact ⟨fun _ => Or.inr ⟨slot, Or.inl full⟩, fun _ => right_refused run⟩
      · obtain ⟨n, lowest, run⟩ := dupfd_run opened refused slot full
        rw [asArg_mod] at full lowest
        rw [right_some run]
        constructor
        · rintro ⟨⟨_, low, free, _⟩, same⟩
          have first : n = 0 := by
            by_contra other
            have files := congrArg (fun t => (mine t).files 0) same
            simp only [installed_files, put_same, put_ne _ _ (Ne.symm other), free] at files
            exact closed_of_not refused slot files.symm
          have from' := lowest.2.1
          exact Or.inr ⟨slot, Or.inr ⟨by exact_mod_cast low, by omega, free⟩⟩
        · rintro (yes | ⟨_, yes | ⟨low, whole, free⟩⟩)
          · exact absurd yes refused
          · exact absurd yes full
          · have first : n = 0 := by
              by_contra other
              exact lowest.2.2.2 0 (Nat.pos_of_ne_zero other) (by omega) free
            subst first
            exact ⟨⟨lowest.1, by omega, free, fun j below => by omega⟩, rfl⟩
    · have wild := fcntl_wild opened refused (Nat.not_lt.mp slot) .dupfd (asArg base)
      constructor
      · exact fun right => absurd right (not_right_error wild)
      · rintro (yes | ⟨yes, _⟩)
        · exact absurd yes refused
        · exact absurd yes slot

/-! ### `_dup2` -/

/-- `_dup2` behind its checks. -/
theorem dup2_begun (opened : Opened s) (open' : ¬ Refused s oldd) (bound : newd < UFTSIZE) :
    Fuzix.dup2 oldd newd s = (do
      onlyIf ((mine s).files newd ≠ NO_FILE) (discard (doclose newd))
      dupTo oldd newd
      return some 0 : K (Option Nat)) s := by
  obtain ⟨i, found⟩ := getinode_open opened open'
  unfold Fuzix.dup2
  rw [bind_run found]
  dsimp only
  rw [if_neg (Nat.not_le.mpr bound)]
  rfl

/-- The descriptor is free, or can be closed. -/
def Clears (s : Kernel) (newd : Nat) (u : Kernel) : Prop :=
  (mine s).files newd = NO_FILE ∧ u = s ∨ (mine s).files newd ≠ NO_FILE ∧ doclose newd s = .ok (false, u)

theorem doclose_true (bound : newd < UFTSIZE) (used : (mine s).files newd ≠ NO_FILE) {u : Kernel} :
    doclose newd s ≠ .ok (true, u) := by
  intro run
  have spec := (wp_ok (wp_doclose newd s) run).1 rfl
  have small := Build.uftBound
  rw [Nat.mod_eq_of_lt (by omega)] at spec
  rcases spec.2 with no | no
  · omega
  · exact used no

theorem dup2_clears {u : Kernel} (clears : Clears s newd u) :
    onlyIf ((mine s).files newd ≠ NO_FILE) (discard (doclose newd)) s = .ok ((), u) := by
  unfold onlyIf
  rcases clears with ⟨free, same⟩ | ⟨used, closed⟩
  · rw [if_neg (not_not.mpr free), same]
    rfl
  · rw [if_pos used]
    have bind : discard (doclose newd) s = (doclose newd s >>= fun p => pure (⟨⟩, p.2)) := rfl
    rw [bind, closed]
    rfl

theorem dup2_stops (bound : newd < UFTSIZE) (stuck : ∀ u, ¬ Clears s newd u) :
    ∃ e, onlyIf ((mine s).files newd ≠ NO_FILE) (discard (doclose newd)) s = .error e := by
  have used : (mine s).files newd ≠ NO_FILE := fun free => stuck s (Or.inl ⟨free, rfl⟩)
  unfold onlyIf
  rw [if_pos used]
  have bind : discard (doclose newd) s = (doclose newd s >>= fun p => pure (⟨⟩, p.2)) := rfl
  rw [bind]
  cases run : doclose newd s with
  | error e => exact ⟨e, rfl⟩
  | ok p =>
    obtain ⟨b, u⟩ := p
    cases b with
    | false => exact absurd (Or.inr ⟨used, run⟩) (stuck u)
    | true => exact absurd run (doclose_true bound used)

/-- What the descriptors of the process name behind the close. -/
theorem clears_files {u : Kernel} (bound : newd < UFTSIZE) (clears : Clears s newd u) :
    (mine u).files = put (mine s).files newd NO_FILE := by
  rcases clears with ⟨free, same⟩ | ⟨used, closed⟩
  · rw [same, ← free, put_self]
  · have goes := ((wp_ok (wp_doclose newd s) closed).2 rfl).2.2
    have small := Build.uftBound
    rw [Nat.mod_eq_of_lt (by omega)] at goes
    rw [goes.card]

/-- Without a closed slot, nothing is copied. -/
theorem dup2_stuck (stuck : ∀ u, ¬ Clears s newd u) (open' : ¬ Refused s oldd) (bound : newd < UFTSIZE) :
    ¬ Clean s (.dup2 oldd newd) := by
  rintro (yes | yes | ⟨zero, _, _, free | ⟨u, closed⟩⟩)
  · exact open' yes
  · omega
  · exact stuck s (Or.inl ⟨zero ▸ free, rfl⟩)
  · by_cases free : (mine s).files newd = NO_FILE
    · exact stuck s (Or.inl ⟨free, rfl⟩)
    · exact stuck u (Or.inr ⟨free, zero ▸ closed⟩)

/-- With one, the entry is copied, unless it was the one to be copied. -/
theorem dup2_run (opened : Opened s) (open' : ¬ Refused s oldd) (bound : newd < UFTSIZE) {u : Kernel}
    (clears : Clears s newd u) (slot : oldd < UFTSIZE) (other : oldd ≠ newd) :
    Fuzix.dup2 oldd newd s = .ok (some 0, installed u oldd newd) := by
  have entry : (mine u).files oldd < OFTSIZE := by
    rw [clears_files bound clears, put_ne _ _ other]
    exact entry_of_open opened open' slot
  rw [dup2_begun opened open' bound, bind_run (dup2_clears clears), bind_run (dupTo_run slot entry)]
  rfl

theorem dup2_wild (opened : Opened s) (open' : ¬ Refused s oldd) (bound : newd < UFTSIZE) {u : Kernel}
    (clears : Clears s newd u) (bad : UFTSIZE ≤ oldd ∨ oldd = newd) :
    Fuzix.dup2 oldd newd s = .error .wild := by
  have stops : dupTo oldd newd u = .error .wild := by
    rcases bad with out | same
    · exact dupTo_wild out
    · have none' : (mine u).files oldd = NO_FILE := by
        rw [clears_files bound clears, same, put_same]
      have table := Build.oftBound
      exact dupTo_bad (same ▸ bound) (by rw [none', NO_FILE]; omega)
  rw [dup2_begun opened open' bound, bind_run (dup2_clears clears)]
  exact bind_error stops

theorem dup2_right (opened : Opened s) (oldd newd : Nat) :
    Right s (.dup2 oldd newd) (Fuzix.dup2 oldd newd s) ↔ Clean s (.dup2 oldd newd) := by
  by_cases refused : Refused s oldd
  · have run : Fuzix.dup2 oldd newd s = .ok (none, failed EBADF s) := by
      unfold Fuzix.dup2
      rw [bind_run (getinode_refused refused)]
      rfl
    exact ⟨fun _ => Or.inl refused, fun _ => right_refused run⟩
  · by_cases bound : newd < UFTSIZE
    · by_cases closes : ∃ u, Clears s newd u
      · obtain ⟨u, clears⟩ := closes
        by_cases bad : UFTSIZE ≤ oldd ∨ oldd = newd
        · have run := dup2_wild opened refused bound clears bad
          constructor
          · exact fun right => absurd right (not_right_error run)
          · rintro (yes | yes | ⟨zero, other, slot, _⟩)
            · exact absurd yes refused
            · omega
            · omega
        · have slot := Nat.not_le.mp (fun out => bad (Or.inl out))
          have other : oldd ≠ newd := fun same => bad (Or.inr same)
          rw [right_some (dup2_run opened refused bound clears slot other)]
          constructor
          · rintro ⟨zero, _⟩
            subst zero
            refine Or.inr (Or.inr ⟨rfl, other, slot, ?_⟩)
            rcases clears with ⟨free, _⟩ | ⟨_, closed⟩
            · exact Or.inl free
            · exact Or.inr ⟨u, closed⟩
          · rintro (yes | yes | ⟨zero, _⟩)
            · exact absurd yes refused
            · omega
            · refine ⟨zero.symm, bound, Or.inr ⟨other, ?_⟩⟩
              rcases clears with ⟨free, same⟩ | ⟨_, closed⟩
              · exact Or.inl ⟨free, same ▸ rfl⟩
              · exact Or.inr ⟨u, closed, rfl⟩
      · have stuck : ∀ u, ¬ Clears s newd u := fun u clears => closes ⟨u, clears⟩
        obtain ⟨e, stops⟩ := dup2_stops bound stuck
        have run : Fuzix.dup2 oldd newd s = .error e := by
          rw [dup2_begun opened refused bound]
          exact bind_error stops
        constructor
        · exact fun right => absurd right (not_right_error run)
        · exact fun clean => absurd clean (dup2_stuck stuck refused bound)
    · obtain ⟨i, found⟩ := getinode_open opened refused
      have run : Fuzix.dup2 oldd newd s = .ok (none, failed EBADF s) := by
        unfold Fuzix.dup2
        rw [bind_run found]
        dsimp only
        rw [if_pos (Nat.not_lt.mp bound)]
        rfl
      exact ⟨fun _ => Or.inr (Or.inl (Nat.not_lt.mp bound)), fun _ => right_refused run⟩

/-- The calls answer and leave behind what they should on exactly these arguments. -/
theorem dup_exact (s : Kernel) (opened : Opened s) (q : Request) : Right s q (q.run s) ↔ Clean s q := by
  cases q with
  | dup oldd => exact dup_right opened oldd
  | dup2 oldd newd => exact dup2_right opened oldd newd
  | dupfd fd base => exact dupfd_right opened fd base
  | getfl fd data => exact getfl_right opened fd data

end

theorem oneFile_opened : @Opened tiny oneFile := by
  let _ := tiny
  intro fd slot used
  have first : fd = 0 := by
    by_contra other
    exact used (if_neg other)
  subst first
  exact ⟨by decide, 0, rfl, by decide, rfl⟩

/-- A file that is open once is duplicated. -/
theorem dup_exact_once : ∃ (_ : Build) (s : Kernel), Opened s ∧ Right s (.dup 0) ((Request.dup 0).run s) :=
  let _ := tiny
  ⟨tiny, oneFile, oneFile_opened, (dup_exact oneFile oneFile_opened (.dup 0)).mpr (Or.inr (Or.inr (by decide)))⟩

/-- `dup2` to the free descriptor 1 answers 0. -/
theorem dup2_answers_zero : ∃ (_ : Build) (s t : Kernel), Opened s ∧
    (Request.dup2 0 1).run s = .ok (some 0, t) ∧ ¬ Right s (.dup2 0 1) ((Request.dup2 0 1).run s) := by
  let _ := tiny
  have run : ∃ t, (Request.dup2 0 1).run oneFile = .ok (some 0, t) := ⟨_, rfl⟩
  obtain ⟨t, run⟩ := run
  refine ⟨tiny, oneFile, t, oneFile_opened, run, fun right => ?_⟩
  have done := (right_some run).mp right
  cases done.1

end Dup
