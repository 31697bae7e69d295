import Fuzix.FileRuns

/-!
# Descriptors to close on exec

The bits of `u_cloexec` beside the descriptors that are open. `open` sets the bit of the entry of
the open file table it took, which is the bit of its descriptor only when the two have the same
number, and `F_SETFD` without the flag keeps the one bit it should clear and clears all others.
-/

set_option linter.unusedSectionVars false

namespace Cloexec

open Fuzix Wp Table Words Run

/-! ## The card of a process -/

/-- What a process knows of its descriptors. -/
structure Card where
  wait : Option Wait
  files : Nat → Nat
  cloexec : Nat → Bool

def card (s : Kernel) (p : Nat) : Card := ⟨(s.ptab p).wait, (s.ptab p).u.files, (s.ptab p).u.cloexec⟩

def mine (s : Kernel) : Card := card s s.cur

/-- The running process goes on with the card `c`. -/
structure Goes (s t : Kernel) (c : Card) : Prop where
  cur : t.cur = s.cur
  card : mine t = c

def Still (s t : Kernel) : Prop := Goes s t (mine s)

abbrev Any : Stop → Prop := fun _ => True

section
variable {s t v : Kernel} {c : Card}

theorem Still.refl (s : Kernel) : Still s s := ⟨rfl, rfl⟩

theorem Goes.still (goes : Goes s t c) (still : Still t v) : Goes s v c :=
  ⟨still.cur.trans goes.cur, still.card.trans goes.card⟩

theorem Still.goes (still : Still s t) (goes : Goes t v c) : Goes s v c :=
  ⟨goes.cur.trans still.cur, goes.card⟩

theorem Still.trans (first : Still s t) (second : Still t v) : Still s v := Goes.still first second

instance isTrans : IsTrans Kernel Still := ⟨fun _ _ _ => Still.trans⟩

instance isRefl : Std.Refl Still := ⟨Still.refl⟩

theorem still_of_data (data : DataOnly s t) : Still s t := by
  have same := data.ptab s.cur
  simp only [Proc.fixed, Udata.fixed, Proc.mk.injEq, Udata.mk.injEq] at same
  refine ⟨data.cur, ?_⟩
  simp only [mine, card, data.cur, same]

theorem still_walks : Walks Any Still where
  stops _ _ := trivial
  data _ _ := still_of_data
  inode _ _ _ _ _ := ⟨rfl, rfl⟩

/-- A change of the `udata` of the running process. -/
theorem goes_user (s : Kernel) (f : Udata → Udata) :
    Goes s { s with ptab := put s.ptab s.cur { s.ptab s.cur with u := f s.u } }
      { mine s with files := (f s.u).files, cloexec := (f s.u).cloexec } := by
  refine ⟨rfl, ?_⟩
  simp only [mine, card, put_same]

theorem wp_setFile (fd k : Nat) (s : Kernel) :
    wp Any (setFile fd k) (fun _ t => Goes s t { mine s with files := put (mine s).files fd k }) s :=
  goes_user s fun u => { u with files := put u.files fd k }

/-- The descriptor is free already. -/
theorem wp_setFile_free {fd : Nat} (free : (mine s).files fd = NO_FILE) :
    wp Any (setFile fd NO_FILE) (fun _ t => Still s t) s := by
  refine wp_mono (wp_setFile fd NO_FILE s) fun _ t goes => ⟨goes.cur, ?_⟩
  rw [goes.card, ← free, put_self]

theorem still_modifyOft (k : Nat) (f : Oft → Oft) : Keeps Any Still (modifyOft k f) :=
  Keeps.modify fun _ => ⟨rfl, rfl⟩

variable [Build]

/-- The first descriptor of the process, from `base` on, that is free. -/
def nextFile (base : Nat) (s : Kernel) (p : Nat) : Option Nat :=
  (List.range UFTSIZE).find? fun j => base % 256 ≤ j ∧ (card s p).files j = NO_FILE

/-- The first entry of the open file table that is free. -/
def nextOft (s : Kernel) : Option Nat := (List.range OFTSIZE).find? fun j => (s.oftab j).refs = 0

theorem wp_ufAllocN (base : Nat) (s : Kernel) :
    wp Any (ufAllocN base) (fun r t => Still s t ∧ ∀ u, r = some u → t = s ∧ u < UFTSIZE ∧
      (mine s).files u = NO_FILE ∧ nextFile base s s.cur = some u) s := by
  unfold ufAllocN
  simp only [wp_bind, wp_get]
  split
  · rename_i u found
    have free := List.find?_some found
    have inRange := List.mem_range.mp (List.mem_of_find?_eq_some found)
    simp only [decide_eq_true_eq] at free
    refine ⟨Still.refl s, ?_⟩
    rintro v same
    cases same
    exact ⟨rfl, inRange, free.2, found⟩
  · rw [wp_bind]
    refine wp_mono (still_walks.setError EMFILE s) fun _ t still => ⟨still, ?_⟩
    rintro v no
    cases no

theorem wp_oftAlloc (s : Kernel) :
    wp Any oftAlloc (fun r t => Still s t ∧ ∀ k, r = some k → k < OFTSIZE ∧ nextOft s = some k) s := by
  unfold oftAlloc
  simp only [wp_bind, wp_get]
  split
  · rename_i k found
    have inRange := List.mem_range.mp (List.mem_of_find?_eq_some found)
    simp only [wp_bind, wp_modifyOft, wp_pure]
    refine ⟨⟨rfl, rfl⟩, ?_⟩
    rintro j same
    cases same
    exact ⟨inRange, found⟩
  · rw [wp_bind]
    refine wp_mono (still_walks.setError ENFILE s) fun _ t still => ⟨still, ?_⟩
    rintro v no
    cases no

/-! ## Entries and descriptors -/

theorem wp_getinode (fd : Nat) (s : Kernel) :
    wp Any (getinode fd) (fun r t => Still s t ∧
      (r = none → UFTSIZE ≤ fd % 256 ∨ (mine s).files (fd % 256) = NO_FILE) ∧
      (r ≠ none → fd % 256 < UFTSIZE ∧ (mine s).files (fd % 256) ≠ NO_FILE)) s := by
  have opens : wp Any (getinode fd) _ s := wp_stop_mono (Fuzix.wp_getinode s fd) fun _ _ => trivial
  refine wp_mono (wp_and opens (still_walks.quiet (quiet_getinode fd) s)) ?_
  rintro r t ⟨⟨_, found, closed⟩, still⟩
  refine ⟨still, closed, fun some' => ?_⟩
  obtain ⟨i, rfl⟩ := Option.ne_none_iff_exists'.mp some'
  have here := found i rfl
  have same : t.fds = (mine s).files := congrArg Card.files still.card
  have entry := here.entry
  have bound := Build.oftBound
  rw [same] at entry
  exact ⟨here.slot, fun no => by rw [no] at entry; exact absurd entry (by unfold NO_FILE; omega)⟩

theorem still_oftDeref (k : Nat) : Keeps Any Still (oftDeref k) := by
  refine Keeps.get.bind fun s => (still_modifyOft k _).bind fun _ => ?_
  split
  · exact Keeps.pure _
  · rename_i i _
    refine Keeps.ite ?_ (Keeps.pure _)
    refine (still_walks.quiet (quiet_deflock _)).bind fun _ => (still_walks.iDeref i).bind fun _ => ?_
    exact still_modifyOft k _

theorem wp_doclose (fd : Nat) (s : Kernel) :
    wp Any (doclose fd) (fun refused t =>
      (refused = true → Still s t ∧ (UFTSIZE ≤ fd % 256 ∨ (mine s).files (fd % 256) = NO_FILE)) ∧
      (refused = false → fd % 256 < UFTSIZE ∧ (mine s).files (fd % 256) ≠ NO_FILE ∧ Goes s t { mine s with
        files := put (mine s).files (fd % 256) NO_FILE
        cloexec := put (mine s).cloexec (fd % 256) false })) s := by
  unfold doclose
  rw [wp_bind]
  refine wp_mono (wp_getinode fd s) ?_
  rintro r t ⟨still, closed, opened⟩
  cases r with
  | none => exact ⟨fun _ => ⟨still, closed rfl⟩, fun no => (by cases no)⟩
  | some i =>
    obtain ⟨slot, used⟩ := opened (by simp)
    simp only [wp_bind, wp_get]
    have dropped : Keeps Any Still (onlyIf ((t.oftab (t.u.files (fd % 256))).refs = 1)
        (dropUser i (t.oftab (t.u.files (fd % 256))).access.accmode)) :=
      Walks.onlyIf (Keeps.modify fun _ => ⟨rfl, rfl⟩)
    refine wp_mono (dropped t) fun _ v still' => ?_
    rw [wp_modifyU]
    have goes := goes_user v fun u => { u with
      files := put u.files (fd % 256) NO_FILE
      cloexec := put u.cloexec (fd % 256) false }
    refine wp_mono (still_oftDeref _ _) fun _ w still'' => ?_
    refine ⟨fun no => (by cases no), fun _ => ⟨slot, used, ?_⟩⟩
    have before := still.trans still'
    have all := before.goes (goes.still still'')
    rw [before.card] at all
    refine ⟨all.cur, all.card.trans ?_⟩
    rw [← before.card]
    rfl

theorem wp_dupTo (fd newd : Nat) (s : Kernel) :
    wp Any (dupTo fd newd) (fun _ t => fd < UFTSIZE ∧ (mine s).files fd < OFTSIZE ∧
      Goes s t { mine s with files := put (mine s).files newd ((mine s).files fd) }) s := by
  unfold dupTo oftOf getOft
  simp only [wp_bind, wp_get, wp_ite, wp_throw, wp_pure]
  refine ⟨fun _ => trivial, fun inRange => ?_⟩
  refine wp_mono (wp_setFile newd _ s) fun _ t goes => ?_
  refine ⟨fun _ => trivial, fun entry => ?_⟩
  rw [wp_modifyOft]
  exact ⟨Nat.not_le.mp inRange, Nat.not_le.mp entry, goes.cur, goes.card⟩

/-! ## The map -/

/-- A bit is set when the descriptor is open and was asked for. -/
def Exact (c : Card) (asked : Nat → Bool) : Prop :=
  ∀ fd, c.cloexec fd = true ↔ fd < UFTSIZE ∧ c.files fd ≠ NO_FILE ∧ asked fd = true

/-- A descriptor that is not open has not been asked for. -/
def kept (c : Card) (asked : Nat → Bool) : Nat → Bool := fun fd => asked fd && decide (c.files fd ≠ NO_FILE)

variable {asked asked' : Nat → Bool} {fd u k flag : Nat}

theorem kept_free (free : c.files fd = NO_FILE) : kept c asked fd = false := by
  simp [kept, free]

theorem Exact.kept (exact' : Exact c asked) : Exact c (kept c asked) := by
  intro fd
  rw [exact' fd, Cloexec.kept, Bool.and_eq_true, decide_eq_true_eq]
  constructor
  · rintro ⟨slot, used, asks⟩
    exact ⟨slot, used, asks, used⟩
  · rintro ⟨slot, used, asks, _⟩
    exact ⟨slot, used, asks⟩

theorem Exact.clear (exact' : Exact c asked) (unasked : asked fd = false) : c.cloexec fd = false := by
  rw [← Bool.not_eq_true, exact' fd, unasked]
  rintro ⟨_, _, no⟩
  cases no

/-- What a descriptor that was not asked for stands for is of no account. -/
theorem Exact.install (exact' : Exact c asked) (unasked : asked fd = false) (k : Nat) :
    Exact { c with files := put c.files fd k } asked := by
  intro j
  by_cases here : j = fd
  · rw [here]
    have clear := exact'.clear unasked
    constructor
    · intro bit
      rw [clear] at bit
      cases bit
    · rintro ⟨_, _, no⟩
      rw [unasked] at no
      cases no
  · simp only [put_ne _ _ here]
    exact exact' j

theorem Exact.close (exact' : Exact c asked) (fd : Nat) :
    Exact { c with files := put c.files fd NO_FILE, cloexec := put c.cloexec fd false } asked := by
  intro j
  by_cases here : j = fd
  · rw [here]
    simp only [put_same]
    constructor
    · intro no
      cases no
    · rintro ⟨_, no, _⟩
      exact absurd rfl no
  · simp only [put_ne _ _ here]
    exact exact' j

theorem Exact.forget (exact' : Exact c asked) (clear : c.cloexec fd = false) : Exact c (put asked fd false) := by
  intro j
  by_cases here : j = fd
  · rw [here, clear, put_same]
    constructor
    · intro no
      cases no
    · rintro ⟨_, _, no⟩
      cases no
  · rw [put_ne _ _ here]
    exact exact' j

theorem Exact.set (exact' : Exact c asked) (slot : fd < UFTSIZE) (used : c.files fd ≠ NO_FILE) :
    Exact { c with cloexec := put c.cloexec fd true } (put asked fd true) := by
  intro j
  by_cases here : j = fd
  · rw [here]
    simp only [put_same]
    exact ⟨fun _ => ⟨slot, used, trivial⟩, fun _ => trivial⟩
  · simp only [put_ne _ _ here]
    exact exact' j

/-- A new descriptor with the entry that `open` took. -/
def opened (c : Card) (u k flag : Nat) : Card :=
  { c with
    files := put c.files u k
    cloexec := if hasFlag flag 12 ∧ k < 16 then put c.cloexec k true else c.cloexec }

theorem Exact.opened (exact' : Exact c asked) (slot : u < UFTSIZE) (unasked : asked u = false) (entry : k < OFTSIZE)
    (same : hasFlag flag 12 = true → k = u) : Exact (opened c u k flag) (put asked u (hasFlag flag 12)) := by
  have new := exact'.install unasked k
  have used : (put c.files u k) u ≠ NO_FILE := by
    have bound := Build.oftBound
    rw [put_same, NO_FILE]
    omega
  unfold Cloexec.opened
  by_cases asks : hasFlag flag 12 = true
  · have both : hasFlag flag 12 = true ∧ k < 16 := ⟨asks, by have := Build.uftBound; have := same asks; omega⟩
    rw [if_pos both, asks]
    have set := new.set slot used
    rw [← same asks] at set ⊢
    exact set
  · rw [if_neg fun both => asks both.1, Bool.eq_false_iff.mpr asks, ← unasked, put_self]
    exact new

/-- The descriptors that `execve` leaves. -/
def executed (c : Card) : Card :=
  { c with
    files := fun j => if j < UFTSIZE ∧ c.cloexec j = true then NO_FILE else c.files j
    cloexec := fun _ => false }

theorem Exact.executed (exact' : Exact c asked) : Exact (executed c) asked := by
  intro j
  constructor
  · intro no
    cases no
  · rintro ⟨slot, used, asks⟩
    unfold Cloexec.executed at used
    dsimp only at used
    by_cases bit : c.cloexec j = true
    · rw [if_pos ⟨slot, bit⟩] at used
      exact absurd rfl used
    · rw [if_neg fun both => bit both.2] at used
      exact absurd ((exact' j).mpr ⟨slot, used, asks⟩) bit

/-! ## Calls on descriptors -/

/-- What the calls so far have asked for each descriptor, from what they had asked before a call
and its answer. The bit 12 is `O_CLOEXEC`. -/
def asks (c : Card) (asked : Nat → Bool) : Call → Option Nat → Nat → Bool
  | .openFile _ flag _ _, some d => put (kept c asked) d (hasFlag flag 12)
  | .fcntl fd .setfd data, some _ => put (kept c asked) fd (hasFlag data 12)
  | .dup2 _ newd, some _ => put (kept c asked) newd false
  | _, _ => kept c asked

/-- The process runs, and its bits are right. -/
structure Awake (s t : Kernel) (asked : Nat → Bool) : Prop where
  cur : t.cur = s.cur
  wait : (mine t).wait = (mine s).wait
  bits : Exact (mine t) asked

theorem Exact.still (exact' : Exact (mine s) asked) (still : Still s t) : Awake s t asked where
  cur := still.cur
  wait := by rw [still.card]
  bits := by rw [still.card]; exact exact'

theorem Exact.goes (exact' : Exact c asked) (goes : Goes s t c) (wait : c.wait = (mine s).wait) : Awake s t asked where
  cur := goes.cur
  wait := by rw [goes.card, wait]
  bits := by rw [goes.card]; exact exact'

theorem Awake.then (first : Awake s t asked') (second : Awake t v asked) : Awake s v asked where
  cur := second.cur.trans first.cur
  wait := second.wait.trans first.wait
  bits := second.bits

theorem wp_dupInto {oldd newd : Nat} (exact' : Exact (mine s) asked) (unasked : asked newd = false) :
    wp Any (dupTo oldd newd) (fun _ t => Awake s t asked) s :=
  wp_mono (wp_dupTo oldd newd s) fun _ _ ⟨_, _, goes⟩ => (exact'.install unasked _).goes goes rfl

theorem wp_close (fd : Nat) (exact' : Exact (mine s) asked) :
    wp Any (close fd) (fun r t => Awake s t (asks (mine s) asked (.close fd) r)) s := by
  unfold close
  rw [wp_bind]
  refine wp_mono (wp_doclose (fd % 256) s) ?_
  rintro refused t ⟨failed, done⟩
  rw [wp_ite]
  constructor
  · intro yes
    exact exact'.kept.still (failed yes).1
  · intro no
    exact (exact'.kept.close _).goes (done (Bool.eq_false_iff.mpr no)).2.2 rfl

theorem wp_dup (oldd : Nat) (exact' : Exact (mine s) asked) :
    wp Any (dup oldd) (fun r t => Awake s t (asks (mine s) asked (.dup oldd) r)) s := by
  unfold dup
  rw [wp_bind]
  refine wp_mono (wp_getinode oldd s) ?_
  rintro r t ⟨still, _, _⟩
  cases r with
  | none => exact exact'.kept.still still
  | some i =>
    simp only [wp_bind]
    refine wp_mono (wp_ufAllocN 0 t) ?_
    rintro r v ⟨still', free⟩
    cases r with
    | none => exact exact'.kept.still (still.trans still')
    | some newd =>
      obtain ⟨rfl, slot, free, _⟩ := free newd rfl
      rw [still.card] at free
      have here : Awake s v (kept (mine s) asked) := exact'.kept.still still
      simp only [wp_bind]
      exact wp_mono (wp_dupInto here.bits (kept_free free)) fun _ _ awake => here.then awake

theorem wp_dup2 (oldd newd : Nat) (exact' : Exact (mine s) asked) :
    wp Any (dup2 oldd newd) (fun r t => Awake s t (asks (mine s) asked (.dup2 oldd newd) r)) s := by
  unfold dup2
  rw [wp_bind]
  refine wp_mono (wp_getinode oldd s) ?_
  rintro r t ⟨still, _, _⟩
  cases r with
  | none => exact exact'.kept.still still
  | some i =>
    have begun : Awake s t (kept (mine s) asked) := exact'.kept.still still
    simp only [wp_ite, wp_bind]
    constructor
    · intro _
      exact wp_mono (still_walks.setError EBADF t) fun _ v failed => exact'.kept.still (still.trans failed)
    · intro bound
      have small : newd % 256 = newd := Nat.mod_eq_of_lt (by have := Build.uftBound; omega)
      rw [wp_get]
      have cleared : wp Any (onlyIf (t.u.files newd ≠ NO_FILE) (discard (doclose newd)))
          (fun _ v => Awake s v (put (kept (mine s) asked) newd false)) t := by
        rw [wp_onlyIf]
        constructor
        · intro used
          rw [wp_discard]
          refine wp_mono (wp_doclose newd t) ?_
          rintro refused v ⟨failed, done⟩
          rw [small] at failed done
          cases refused with
          | true =>
            rcases (failed rfl).2 with no | no
            · exact absurd no bound
            · exact absurd no used
          | false =>
            have goes := (done rfl).2.2
            have clear := (begun.bits.close newd).forget (put_same (mine t).cloexec newd false)
            exact begun.then (clear.goes goes rfl)
        · intro free
          have free' : (mine s).files newd = NO_FILE := by
            rw [← still.card]
            exact not_not.mp free
          exact ⟨begun.cur, begun.wait, begun.bits.forget (begun.bits.clear (kept_free free'))⟩
      refine wp_mono cleared fun _ v before => ?_
      exact wp_mono (wp_dupInto before.bits (put_same _ newd false)) fun _ _ awake => before.then awake

/-- The flag is set, or there is no bit that `F_SETFD` could take away or leave behind. -/
def Sets (c : Card) (fd data : Nat) : Prop :=
  hasFlag data 12 = true ∨ c.files fd = NO_FILE ∨ ∀ j, c.cloexec j = false

def setfd (c : Card) (fd data : Nat) : Card :=
  { c with cloexec := if hasFlag data 12 then put c.cloexec fd true else put (fun _ => false) fd (c.cloexec fd) }

theorem Exact.setfd (exact' : Exact c asked) (slot : fd < UFTSIZE) (used : c.files fd ≠ NO_FILE) {data : Nat}
    (sets : Sets c fd data) : Exact (setfd c fd data) (put asked fd (hasFlag data 12)) := by
  unfold Cloexec.setfd
  by_cases flagged : hasFlag data 12 = true
  · rw [flagged, if_pos rfl]
    exact exact'.set slot used
  · rcases sets with yes | no | none
    · exact absurd yes flagged
    · exact absurd no used
    · have same : put (fun _ => false) fd (c.cloexec fd) = c.cloexec := by
        funext j
        by_cases here : j = fd
        · rw [here, put_same]
        · rw [put_ne _ _ here, none]
      rw [if_neg flagged, same, Bool.eq_false_iff.mpr flagged]
      exact exact'.forget (none fd)

theorem wp_fcntl (fd : Nat) (request : Fcntl) (data : Nat) (exact' : Exact (mine s) asked)
    (sets : request = .setfd → Sets (mine s) fd data) :
    wp Any (fcntl fd request data) (fun r t => Awake s t (asks (mine s) asked (.fcntl fd request data) r)) s := by
  have failed : ∀ {t}, Still s t → Awake s t (asks (mine s) asked (.fcntl fd request data) none) := by
    intro t still
    cases request <;> exact exact'.kept.still still
  unfold fcntl
  rw [wp_bind]
  refine wp_mono (wp_getinode fd s) ?_
  rintro r t ⟨still, _, opened⟩
  cases r with
  | none => exact failed still
  | some i =>
    obtain ⟨_, used⟩ := opened (by simp)
    unfold oftOf getOft
    simp only [wp_bind, wp_get, wp_ite, wp_throw, wp_pure]
    refine ⟨fun _ => trivial, fun bound => ⟨fun _ => trivial, fun _ => ?_⟩⟩
    have small : fd % 256 = fd := Nat.mod_eq_of_lt (by have := Build.uftBound; omega)
    rw [small] at used
    cases request with
    | setfl => exact exact'.kept.still (still.trans ⟨rfl, rfl⟩)
    | getfl => exact exact'.kept.still still
    | getfd => exact exact'.kept.still still
    | setfd =>
      simp only [wp_bind, wp_modifyU, wp_pure]
      have goes : Goes t _ (setfd (mine t) fd data) := goes_user t fun u => { u with
        cloexec := if hasFlag data 12 then put u.cloexec fd true else put (fun _ => false) fd (u.cloexec fd) }
      rw [still.card] at goes
      exact (exact'.kept.setfd (Nat.not_le.mp bound) used (sets rfl)).goes (still.goes goes) rfl
    | dupfd =>
      simp only [wp_bind]
      refine wp_mono (wp_ufAllocN data t) ?_
      rintro r v ⟨still', free⟩
      cases r with
      | none => exact exact'.kept.still (still.trans still')
      | some newd =>
        obtain ⟨rfl, slot, free, _⟩ := free newd rfl
        rw [still.card] at free
        have here : Awake s v (kept (mine s) asked) := exact'.kept.still still
        simp only [wp_bind]
        exact wp_mono (wp_dupInto here.bits (kept_free free)) fun _ _ awake => here.then awake
    | other =>
      rw [wp_bind]
      exact wp_mono (still_walks.setError EINVAL t) fun _ _ error => exact'.kept.still (still.trans error)

/-! ## pipe -/

theorem Awake.still (awake : Awake s t asked) (still : Still t v) : Awake s v asked :=
  awake.then (awake.bits.still still)

theorem wp_setInto (fd k : Nat) (awake : Awake s t asked) (unasked : asked fd = false) :
    wp Any (setFile fd k) (fun _ v => Awake s v asked) t :=
  wp_mono (wp_setFile fd k t) fun _ _ goes => awake.then ((awake.bits.install unasked k).goes goes rfl)

/-- The first entry and its descriptor are given back. -/
theorem wp_unpipe (oft1 : Nat) (awake : Awake s t asked) (unasked : asked u = false) :
    wp Any (oftDeref oft1) (fun _ v => wp Any (setFile u NO_FILE) (fun _ w => Awake s w asked) v) t :=
  wp_mono (still_oftDeref oft1 t) fun _ _ still => wp_setInto u NO_FILE (awake.still still) unasked

/-- The two descriptors were free. -/
theorem wp_pipeSlots (exact' : Exact (mine s) asked) :
    wp Any pipeSlots (fun r t => Awake s t (kept (mine s) asked) ∧ ∀ u1 oft1 u2 oft2, r = some (u1, oft1, u2, oft2) →
      kept (mine s) asked u1 = false ∧ kept (mine s) asked u2 = false) s := by
  have failed : ∀ {t}, Awake s t (kept (mine s) asked) → Awake s t (kept (mine s) asked) ∧
      ∀ u1 oft1 u2 oft2, (none : Option (Nat × Nat × Nat × Nat)) = some (u1, oft1, u2, oft2) →
        kept (mine s) asked u1 = false ∧ kept (mine s) asked u2 = false :=
    fun awake => ⟨awake, fun _ _ _ _ no => by cases no⟩
  unfold pipeSlots
  rw [wp_bind]
  refine wp_mono (wp_ufAllocN 0 s) ?_
  rintro r t ⟨still, free⟩
  cases r with
  | none => exact failed (exact'.kept.still still)
  | some u1 =>
    obtain ⟨rfl, _, free, _⟩ := free u1 rfl
    have unasked : kept (mine t) asked u1 = false := kept_free free
    simp only [wp_bind]
    refine wp_mono (wp_oftAlloc t) ?_
    rintro r v ⟨still', _⟩
    have begun : Awake t v (kept (mine t) asked) := exact'.kept.still still'
    cases r with
    | none => exact failed begun
    | some oft1 =>
      simp only [wp_bind]
      refine wp_mono (wp_setFile u1 oft1 v) fun _ w goes => ?_
      have set : Awake t w (kept (mine t) asked) :=
        begun.then ((begun.bits.install unasked oft1).goes goes rfl)
      refine wp_mono (wp_ufAllocN 0 w) ?_
      rintro r x ⟨still₂, free₂⟩
      cases r with
      | none =>
        simp only [wp_bind, wp_pure]
        exact wp_mono (wp_unpipe oft1 (set.still still₂) unasked) fun _ _ given => wp_mono given fun _ _ => failed
      | some u2 =>
        obtain ⟨rfl, _, free₂, _⟩ := free₂ u2 rfl
        have unasked₂ : kept (mine t) asked u2 = false := by
          by_cases here : u2 = u1
          · rw [here, unasked]
          · rw [goes.card, still'.card] at free₂
            simp only [put_ne _ _ here] at free₂
            exact kept_free free₂
        simp only [wp_bind]
        refine wp_mono (wp_oftAlloc x) ?_
        rintro r y ⟨still₃, _⟩
        cases r with
        | none =>
          simp only [wp_bind, wp_pure]
          exact wp_mono (wp_unpipe oft1 (set.still still₃) unasked) fun _ _ given => wp_mono given fun _ _ => failed
        | some oft2 =>
          refine ⟨set.still still₃, fun _ _ _ _ same => ?_⟩
          cases same
          exact ⟨unasked, unasked₂⟩

theorem wp_pipe (exact' : Exact (mine s) asked) :
    wp Any pipe (fun r t => Awake s t (asks (mine s) asked .pipe r)) s := by
  unfold pipe
  rw [wp_bind]
  refine wp_mono (wp_pipeSlots exact') ?_
  rintro r t ⟨begun, slots⟩
  cases r with
  | none => exact begun
  | some four =>
    obtain ⟨u1, oft1, u2, oft2⟩ := four
    obtain ⟨first, second⟩ := slots u1 oft1 u2 oft2 rfl
    simp only [wp_bind]
    have opens : Keeps Any Still pipeInode := Keeps.get.bind fun s => still_walks.iOpen s.rootDev 0
    refine wp_mono (opens t) fun r v still => ?_
    cases r with
    | none =>
      simp only [wp_bind]
      refine wp_mono (still_oftDeref oft2 v) fun _ w still₂ => ?_
      exact wp_unpipe oft1 ((begun.still still).still still₂) first
    | some ino =>
      simp only [wp_bind, wp_get, wp_ite]
      constructor
      · intro _
        refine wp_mono (still_walks.setError EROFS v) fun _ w still₂ => ?_
        refine wp_mono (still_walks.iDeref ino w) fun _ x still₃ => ?_
        exact wp_unpipe oft1 (((begun.still still).still still₂).still still₃) first
      · intro _
        refine wp_mono (wp_setInto u2 oft2 (begun.still still) second) fun _ w awake => ?_
        exact awake.still ⟨rfl, rfl⟩

/-! ## open -/

theorem still_modifyU {f : Udata → Udata} (files : ∀ u, (f u).files = u.files) (cloexec : ∀ u, (f u).cloexec = u.cloexec) :
    Keeps Any Still (modifyU f) := by
  intro s
  rw [wp_modifyU]
  have goes := goes_user s f
  refine ⟨goes.cur, goes.card.trans ?_⟩
  rw [files, cloexec]
  rfl

theorem still_dOpen (da i : Nat) (drv : Driver) : Keeps Any Still (dOpen da i drv) := by
  refine Keeps.ite ((still_walks.setError _).bind fun _ => Keeps.pure _) ?_
  cases drv with
  | refuses e => exact (still_walks.setError _).bind fun _ => Keeps.pure _
  | waits => exact Keeps.pure _
  | opens ctty =>
    have post : Keeps Any Still (ttyPost i ctty) := still_modifyU (fun _ => rfl) fun _ => rfl
    exact (Walks.onlyIf post).bind fun _ => Keeps.pure _

theorem still_devOpeni (k : Nat) (drv : Driver) : Keeps Any Still (devOpeni k drv) := by
  refine Keeps.get.bind fun s => ?_
  split
  · exact still_walks.null
  · refine Keeps.ite ?_ (still_dOpen _ _ drv)
    split
    · exact (still_walks.setError _).bind fun _ => Keeps.pure _
    · rename_i i _ _ t _
      refine (still_walks.iDeref i).bind fun _ => (still_modifyOft k _).bind fun _ => Keeps.get.bind fun s => ?_
      exact (still_walks.iRef t).bind fun _ => still_dOpen _ t drv

/-- `open` has failed, or the descriptor `u` has the entry `k`. -/
def Ends (s t : Kernel) (u k flag : Nat) (r : Option Nat) : Prop :=
  r = none ∧ Still s t ∨ r = some u ∧ Goes s t (opened (mine s) u k flag)

theorem Still.ends {r : Option Nat} (still : Still s t) (ends : Ends t v u k flag r) : Ends s v u k flag r := by
  rcases ends with ⟨failed, same⟩ | ⟨done, goes⟩
  · exact Or.inl ⟨failed, still.trans same⟩
  · right
    rw [still.card] at goes
    exact ⟨done, still.goes goes⟩

theorem wp_cantopen (k : Nat) (flag : Nat) (free : (mine s).files u = NO_FILE) :
    wp Any (cantopen u k) (fun r t => Ends s t u k flag r) s := by
  unfold cantopen
  simp only [wp_bind, wp_pure]
  refine wp_mono (still_oftDeref k s) fun _ t still => ?_
  rw [← still.card] at free
  exact wp_mono (wp_setFile_free free) fun _ _ same => Or.inl ⟨rfl, still.trans same⟩

theorem wp_openDone (u k flag ino : Nat) (s : Kernel) :
    wp Any (openDone u k flag ino) (fun r t => Ends s t u k flag r) s := by
  unfold openDone
  simp only [wp_bind, wp_modifyOft, wp_modifyU, wp_modifyInode, wp_pure]
  right
  refine ⟨rfl, ?_⟩
  have marked : Still s { s with oftab := put s.oftab k { s.oftab k with ptr := 0, access := .ofFlag flag } } := ⟨rfl, rfl⟩
  have goes := goes_user { s with oftab := put s.oftab k { s.oftab k with ptr := 0, access := .ofFlag flag } } fun u' => { u' with
    files := put u'.files u k
    cloexec := if hasFlag flag 12 ∧ k < 16 then put u'.cloexec k true else u'.cloexec }
  exact (marked.goes goes).still ⟨rfl, rfl⟩

theorem wp_openFinish (k flag : Nat) (free : (mine s).files u = NO_FILE) :
    wp Any (openFinish u k flag) (fun r t => Ends s t u k flag r) s := by
  unfold openFinish
  simp only [wp_bind, wp_get]
  split
  · trivial
  · rename_i ino _
    rw [wp_ite]
    constructor
    · intro _
      rw [wp_bind]
      refine wp_mono (still_walks.quiet (quiet_fTrunc ino) s) fun failed t still => ?_
      rw [wp_ite]
      constructor
      · intro _
        rw [wp_bind]
        refine wp_mono (still_walks.iDeref ino t) fun _ v still₂ => ?_
        have both := still.trans still₂
        rw [← both.card] at free
        exact wp_mono (wp_cantopen k flag free) fun _ _ ends => both.ends ends
      · intro _
        rw [wp_bind]
        have rewinds : Keeps Any Still (rewindAll ino) := Keeps.modify fun _ => ⟨rfl, rfl⟩
        refine wp_mono (rewinds t) fun _ v still₂ => ?_
        exact wp_mono (wp_openDone u k flag ino v) fun _ _ ends => (still.trans still₂).ends ends
    · intro _
      exact wp_openDone u k flag ino s

/-- `open` sleeps with what it has booked. -/
def Sleeps (s t : Kernel) (u k flag : Nat) (r : Option Nat) : Prop :=
  r = none ∧ Goes s t { mine s with wait := some (.opening u k flag) }

theorem wp_openEntry (k flag ino : Nat) (drv : Driver) (free : (mine s).files u = NO_FILE) :
    wp Any (openEntry u k flag ino drv) (fun r t => Ends s t u k flag r ∨ Sleeps s t u k flag r) s := by
  unfold openEntry
  simp only [wp_bind, wp_modifyOft, wp_get]
  have taken : Still s { s with oftab := put s.oftab k { s.oftab k with inode := some ino } } := ⟨rfl, rfl⟩
  split
  · rename_i e _
    rw [wp_bind]
    refine wp_mono (still_walks.setError e _) fun _ t still => ?_
    have both := taken.trans still
    rw [← both.card] at free
    exact wp_mono (wp_cantopen k flag free) fun _ _ ends => Or.inl (both.ends ends)
  · rw [wp_ite]
    constructor
    · intro _
      rw [wp_bind]
      refine wp_mono (still_devOpeni k drv _) fun answer t still => ?_
      have both := taken.trans still
      rw [← both.card] at free
      cases answer with
      | no => exact wp_mono (wp_cantopen k flag free) fun _ _ ends => Or.inl (both.ends ends)
      | yes => exact wp_mono (wp_openFinish k flag free) fun _ _ ends => Or.inl (both.ends ends)
      | waits =>
        unfold setWait
        simp only [wp_bind, wp_get, wp_modifyProc, wp_pure]
        refine Or.inr ⟨rfl, both.cur, ?_⟩
        rw [← both.card]
        simp only [mine, card, put_same]
    · intro _
      rw [← taken.card] at free
      exact wp_mono (wp_openFinish k flag free) fun _ _ ends => Or.inl (taken.ends ends)

/-- What `open` has booked: the first descriptor and the first entry that were free. -/
structure Books (s : Kernel) (u k : Nat) : Prop where
  slot : u < UFTSIZE
  free : (mine s).files u = NO_FILE
  entry : k < OFTSIZE
  file : nextFile 0 s s.cur = some u
  oft : nextOft s = some k

theorem wp_open (name : Path) (flag mode : Nat) (drv : Driver) (s : Kernel) :
    wp Any (open' name flag mode drv) (fun r t => r = none ∧ Still s t ∨
      ∃ u k, Books s u k ∧ (Ends s t u k flag r ∨ Sleeps s t u k flag r)) s := by
  unfold open'
  rw [wp_ite]
  constructor
  · intro _
    rw [wp_bind]
    exact wp_mono (still_walks.setError EINVAL s) fun _ t still => Or.inl ⟨rfl, still⟩
  · intro _
    rw [wp_bind]
    refine wp_mono (wp_ufAllocN 0 s) ?_
    rintro r t ⟨still, booked⟩
    cases r with
    | none => exact Or.inl ⟨rfl, still⟩
    | some u =>
      obtain ⟨rfl, slot, free, file⟩ := booked u rfl
      simp only [wp_bind]
      refine wp_mono (wp_oftAlloc t) ?_
      rintro r v ⟨still₂, entry⟩
      cases r with
      | none =>
        simp only [wp_bind, wp_pure]
        rw [← still₂.card] at free
        exact wp_mono (wp_setFile_free free) fun _ _ same => Or.inl ⟨trivial, still₂.trans same⟩
      | some k =>
        obtain ⟨small, oft⟩ := entry k rfl
        simp only [wp_bind]
        refine wp_mono (still_walks.openInode name flag mode v) fun found w still₃ => ?_
        have all := still₂.trans still₃
        have free' : (mine w).files u = NO_FILE := by
          rw [all.card]
          exact free
        have books : Books t u k := ⟨slot, free, small, file, oft⟩
        cases found with
        | none => exact wp_mono (wp_cantopen k flag free') fun _ _ ends => Or.inr ⟨u, k, books, Or.inl (all.ends ends)⟩
        | some ino =>
          refine wp_mono (wp_openEntry k flag ino drv free') ?_
          rintro r x (ends | ⟨waits, goes⟩)
          · exact Or.inr ⟨u, k, books, Or.inl (all.ends ends)⟩
          · rw [all.card] at goes
            exact Or.inr ⟨u, k, books, Or.inr ⟨waits, all.goes goes⟩⟩

/-! ## execve -/

/-- The descriptors below `n` that have a bit are closed. -/
structure Closes (s t : Kernel) (n : Nat) : Prop where
  cur : t.cur = s.cur
  wait : (mine t).wait = (mine s).wait
  files : ∀ j, (mine t).files j = if j < n ∧ (mine s).cloexec j = true then NO_FILE else (mine s).files j

theorem wp_closeOne {n : Nat} (bound : n < UFTSIZE) (s : Kernel) :
    wp Any (onlyIf (s.u.cloexec n) (discard (doclose n))) (fun _ t => t.cur = s.cur ∧
      (mine t).wait = (mine s).wait ∧ (∀ j, j ≠ n → (mine t).files j = (mine s).files j ∧
        (mine t).cloexec j = (mine s).cloexec j) ∧
      (mine t).files n = if (mine s).cloexec n = true then NO_FILE else (mine s).files n) s := by
  have small : n % 256 = n := Nat.mod_eq_of_lt (by have := Build.uftBound; omega)
  rw [wp_onlyIf]
  constructor
  · intro bit
    have bit' : (mine s).cloexec n = true := bit
    rw [wp_discard]
    refine wp_mono (wp_doclose n s) ?_
    rintro refused t ⟨failed, done⟩
    rw [small] at failed done
    rw [if_pos bit']
    cases refused with
    | true =>
      obtain ⟨still, no | free⟩ := failed rfl
      · omega
      · rw [still.card]
        exact ⟨still.cur, rfl, fun _ _ => ⟨rfl, rfl⟩, free⟩
    | false =>
      obtain ⟨_, _, goes⟩ := done rfl
      rw [goes.card]
      exact ⟨goes.cur, rfl, fun j other => ⟨put_ne _ _ other, put_ne _ _ other⟩, put_same _ _ _⟩
  · intro no
    have no' : ¬ (mine s).cloexec n = true := no
    rw [if_neg no']
    exact ⟨rfl, rfl, fun _ _ => ⟨rfl, rfl⟩, rfl⟩

theorem wp_closeOnExec (n : Nat) (bound : n ≤ UFTSIZE) (s : Kernel) :
    wp Any (closeOnExec n) (fun _ t => Closes s t n) s := by
  induction n generalizing s with
  | zero => exact ⟨rfl, rfl, fun j => by rw [if_neg fun both => Nat.not_lt_zero j both.1]⟩
  | succ n ih =>
    rw [closeOnExec, wp_bind, wp_get, wp_bind]
    refine wp_mono (wp_closeOne (by omega) s) ?_
    rintro _ t ⟨cur, wait, others, here⟩
    refine wp_mono (ih (by omega) t) fun _ v rest => ⟨rest.cur.trans cur, rest.wait.trans wait, fun j => ?_⟩
    rw [rest.files j]
    by_cases same : j = n
    · rw [same, if_neg fun both => Nat.lt_irrefl n both.1, here]
      by_cases bit : (mine s).cloexec n = true
      · rw [if_pos bit, if_pos ⟨Nat.lt_succ_self n, bit⟩]
      · rw [if_neg bit, if_neg fun both => bit both.2]
    · rw [(others j same).1, (others j same).2]
      by_cases low : j < n ∧ (mine s).cloexec j = true
      · rw [if_pos low, if_pos ⟨by omega, low.2⟩]
      · rw [if_neg low, if_neg fun both => low ⟨by omega, both.2⟩]

theorem wp_execLoad (i : Nat) (s : Kernel) :
    wp Any (execLoad i) (fun _ t => Goes s t (executed (mine s))) s := by
  unfold execLoad
  simp only [wp_bind, wp_get]
  have ids : Keeps Any Still (setIds (s.itab i).node) := still_modifyU (fun _ => rfl) fun _ => rfl
  refine wp_mono (ids s) fun _ t still => ?_
  refine wp_mono (wp_closeOnExec UFTSIZE (Nat.le_refl _) t) fun _ v closes => ?_
  rw [wp_modifyU]
  have goes : Goes v _ { mine v with cloexec := fun _ => false } :=
    goes_user v fun u => { u with cloexec := fun _ => false }
  refine wp_mono (still_walks.quiet (quiet_execBody i) _) fun _ w same => ?_
  have end' := goes.still same
  refine ⟨end'.cur.trans (closes.cur.trans still.cur), end'.card.trans ?_⟩
  have files : (mine v).files = (executed (mine s)).files := by
    funext j
    rw [closes.files j, still.card]
    rfl
  have wait : (mine v).wait = (mine s).wait := by rw [closes.wait, still.card]
  dsimp only
  rw [files, wait]
  rfl

/-- A refused `execve`. -/
theorem wp_refuses (e i : Nat) (still : Still s t) :
    wp Any (do setError e; iDeref i; return none : K (Option Nat)) (fun r v => r = none ∧ Still s v ∨
      r = some 0 ∧ Goes s v (executed (mine s))) t := by
  simp only [wp_bind]
  refine wp_mono (still_walks.setError e t) fun _ v still₂ => ?_
  exact wp_mono (still_walks.iDeref i v) fun _ w still₃ => Or.inl ⟨rfl, (still.trans still₂).trans still₃⟩

theorem wp_execve (name : Path) (image : Image) (s : Kernel) :
    wp Any (execve name image) (fun r t => r = none ∧ Still s t ∨
      r = some 0 ∧ Goes s t (executed (mine s))) s := by
  unfold execve
  rw [wp_bind]
  refine wp_mono (still_walks.nOpen name s) fun found t still => ?_
  cases found with
  | none => exact Or.inl ⟨rfl, still⟩
  | some i =>
    rw [wp_bind, wp_get, wp_ite]
    refine ⟨fun _ => wp_refuses EACCES i still, fun _ => ?_⟩
    rw [wp_bind]
    refine wp_mono (still_walks.quiet (quiet_setftime i _) t) fun _ v still₂ => ?_
    rw [wp_bind]
    refine wp_mono (still_walks.quiet (quiet_readImage i 0 16) v) fun whole w still₃ => ?_
    have all := (still.trans still₂).trans still₃
    rw [wp_ite]
    refine ⟨fun _ => ?_, fun _ => wp_refuses ENOEXEC i all⟩
    rw [wp_ite]
    refine ⟨fun _ => wp_refuses ENOEXEC i all, fun _ => ?_⟩
    rw [wp_ite]
    refine ⟨fun _ => wp_refuses ENOMEM i all, fun _ => ?_⟩
    cases image.failure with
    | some e => exact wp_refuses e i all
    | none =>
      simp only [wp_bind]
      refine wp_mono (wp_execLoad i w) fun _ x goes => ?_
      refine wp_mono (still_walks.iDeref i x) fun _ y still₄ => Or.inr ⟨rfl, ?_⟩
      rw [all.card] at goes
      exact (all.goes goes).still still₄

/-! ## Runs -/

/-- The bits of the process are right, and if it sleeps, it does so in an `open` whose bit will be. -/
structure Inv (s : Kernel) (p : Nat) (asked : Nat → Bool) : Prop where
  bits : Exact (card s p) asked
  waits : ∀ w, (card s p).wait = some w → ∃ u k flag, w = .opening u k flag ∧ u < UFTSIZE ∧
    (card s p).files u = NO_FILE ∧ k < OFTSIZE ∧ (hasFlag flag 12 = true → k = u)

/-- The calls on descriptors. -/
def concerns : Call → Prop
  | .openFile _ _ _ _ | .close _ | .dup _ | .dup2 _ _ | .fcntl _ _ _ | .pipe | .execve _ _ => True
  | _ => False

/-- What the process does; in between, others leave its card as it is. -/
inductive Event where
  | elsewhere
  | call (c : Call)
  | wake (w : Wake)

/-- What has been asked for when an `open` that slept has answered. -/
def answers (c : Card) (asked : Nat → Bool) : Option Nat → Nat → Bool
  | some d =>
    match c.wait with
    | some (.opening _ _ flag) => put (kept c asked) d (hasFlag flag 12)
    | _ => kept c asked
  | none => kept c asked

/-- A step in the life of the process `p`, with what it has asked for. -/
def step (p : Nat) (x : Kernel × (Nat → Bool)) (e : Event) (y : Kernel × (Nat → Bool)) : Prop :=
  match e with
  | .elsewhere => card y.1 p = card x.1 p ∧ y.2 = x.2
  | .call c => concerns c ∧ (Action.call p c).enabled x.1 ∧
    ∃ r, (Action.call p c).run x.1 x.1 = .ok (r, y.1) ∧ y.2 = asks (card x.1 p) x.2 c r
  | .wake w => (∀ record, w ≠ .killed record) ∧ (Action.wake p w).enabled x.1 ∧
    ∃ r, (Action.wake p w).run x.1 x.1 = .ok (r, y.1) ∧ y.2 = answers (card x.1 p) x.2 r

/-- `open` with `O_CLOEXEC` would take an entry with the number of the descriptor, and `F_SETFD`
without it finds no bits. -/
def Proper (s : Kernel) (p : Nat) : Event → Prop
  | .call (.openFile _ flag _ _) =>
    hasFlag flag 12 = true → ∀ u k, nextFile 0 s p = some u → nextOft s = some k → k = u
  | .call (.fcntl fd .setfd data) => Sets (card s p) fd data
  | _ => True

theorem Awake.inv (awake : Awake s t asked) (wait : (mine s).wait = none) : Inv t s.cur asked := by
  rw [← awake.cur]
  refine ⟨awake.bits, fun w no => ?_⟩
  have none' : (mine t).wait = none := awake.wait.trans wait
  rw [show (card t t.cur).wait = none from none'] at no
  cases no

/-- The bit of a descriptor that `open` books is right when it has answered. -/
theorem Ends.awake {r : Option Nat} (ends : Ends s t u k flag r) (exact' : Exact (mine s) asked) (slot : u < UFTSIZE)
    (free : (mine s).files u = NO_FILE) (entry : k < OFTSIZE) (same : hasFlag flag 12 = true → k = u) :
    r = none ∧ Awake s t (kept (mine s) asked) ∨ r = some u ∧ Awake s t (put (kept (mine s) asked) u (hasFlag flag 12)) := by
  rcases ends with ⟨failed, still⟩ | ⟨done, goes⟩
  · exact Or.inl ⟨failed, exact'.kept.still still⟩
  · exact Or.inr ⟨done, (exact'.kept.opened slot (kept_free free) entry same).goes goes rfl⟩

theorem wp_openCall (name : Path) (flag mode : Nat) (drv : Driver) (exact' : Exact (mine s) asked)
    (wait : (mine s).wait = none) (proper : Proper s s.cur (.call (.openFile name flag mode drv))) :
    wp Any (open' name flag mode drv) (fun r t => t.cur = s.cur ∧
      Inv t s.cur (asks (mine s) asked (.openFile name flag mode drv) r)) s := by
  refine wp_mono (wp_open name flag mode drv s) ?_
  rintro r t (⟨rfl, still⟩ | ⟨u, k, books, ends | ⟨rfl, goes⟩⟩)
  · have awake : Awake s t (kept (mine s) asked) := exact'.kept.still still
    exact ⟨awake.cur, awake.inv wait⟩
  · have same : hasFlag flag 12 = true → k = u := fun flagged => proper flagged u k books.file books.oft
    rcases ends.awake exact' books.slot books.free books.entry same with ⟨rfl, awake⟩ | ⟨rfl, awake⟩
    · exact ⟨awake.cur, awake.inv wait⟩
    · exact ⟨awake.cur, awake.inv wait⟩
  · have same : hasFlag flag 12 = true → k = u := fun flagged => proper flagged u k books.file books.oft
    have here : card t s.cur = { mine s with wait := some (.opening u k flag) } := by
      rw [← goes.card, mine, goes.cur]
    refine ⟨goes.cur, ?_, fun w waits => ?_⟩
    · rw [here]
      exact exact'.kept
    · rw [here] at waits ⊢
      cases waits
      exact ⟨u, k, flag, rfl, books.slot, books.free, books.entry, same⟩

theorem wp_call (c : Call) (concerned : concerns c) (exact' : Exact (mine s) asked) (wait : (mine s).wait = none)
    (proper : Proper s s.cur (.call c)) :
    wp Any c.run (fun r t => t.cur = s.cur ∧ Inv t s.cur (asks (mine s) asked c r)) s := by
  have awakes : ∀ {m : K (Option Nat)} {f : Option Nat → Nat → Bool}, wp Any m (fun r t => Awake s t (f r)) s →
      wp Any m (fun r t => t.cur = s.cur ∧ Inv t s.cur (f r)) s := fun keeps =>
    wp_mono keeps fun _ _ awake => ⟨awake.cur, awake.inv wait⟩
  cases c with
  | openFile name flag mode drv => exact wp_openCall name flag mode drv exact' wait proper
  | close fd => exact awakes (wp_close fd exact')
  | dup oldd => exact awakes (wp_dup oldd exact')
  | dup2 oldd newd => exact awakes (wp_dup2 oldd newd exact')
  | fcntl fd request data =>
    refine awakes (wp_fcntl fd request data exact' ?_)
    rintro rfl
    exact proper
  | pipe => exact awakes (wp_pipe exact')
  | execve name image =>
    refine awakes (wp_mono (wp_execve name image s) ?_)
    rintro r t (⟨rfl, still⟩ | ⟨rfl, goes⟩)
    · exact exact'.kept.still still
    · exact exact'.kept.executed.goes goes rfl
  | _ => exact concerned.elim

/-- What a process finds when it enters a call. -/
theorem wp_enterCall (p : Nat) (s : Kernel) :
    wp Any (enterCall p) (fun _ t => t.cur = p ∧ mine t = card s p ∧ t.oftab = s.oftab) s := by
  unfold enterCall
  rw [wp_bind, wp_modify]
  have goes := goes_user { s with cur := p } fun u => { u with error := 0 }
  exact ⟨rfl, goes.card, rfl⟩

theorem Proper.congr {p : Nat} {e : Event} (proper : Proper s p e) (same : card t p = card s p)
    (oftab : t.oftab = s.oftab) : Proper t p e := by
  cases e with
  | elsewhere => trivial
  | wake w => trivial
  | call c =>
    cases c with
    | openFile name flag mode drv =>
      intro flagged u k file entry
      rw [nextFile, same] at file
      rw [nextOft, oftab] at entry
      exact proper flagged u k file entry
    | fcntl fd request data =>
      cases request with
      | setfd =>
        have sets : Sets (card s p) fd data := proper
        rw [← same] at sets
        exact sets
      | _ => trivial
    | _ => trivial

theorem call_step {p : Nat} {x y : Kernel × (Nat → Bool)} {c : Call} (inv : Inv x.1 p x.2) (taken : step p x (.call c) y)
    (proper : Proper x.1 p (.call c)) : Inv y.1 p y.2 := by
  obtain ⟨concerned, ⟨_, _, awake⟩, r, run, asked'⟩ := taken
  have kept : wp Any ((Action.call p c).run x.1) (fun r t => Inv t p (asks (card x.1 p) x.2 c r)) x.1 := by
    unfold Action.run
    rw [wp_bind]
    refine wp_mono (wp_enterCall p x.1) ?_
    rintro _ s ⟨rfl, same, oftab⟩
    have exact' : Exact (mine s) x.2 := by
      rw [same]
      exact inv.bits
    have wait : (mine s).wait = none := by
      rw [same]
      exact awake
    have proper' : Proper s s.cur (.call c) := proper.congr same oftab
    rw [← same]
    exact wp_mono (wp_call c concerned exact' wait proper') fun _ _ post => post.2
  have post := wp_ok kept run
  rw [asked']
  exact post

theorem wake_step {p : Nat} {x y : Kernel × (Nat → Bool)} {w : Wake} (inv : Inv x.1 p x.2)
    (taken : step p x (.wake w) y) : Inv y.1 p y.2 := by
  obtain ⟨alive, ⟨_, _, sleeps⟩, r, run, asked'⟩ := taken
  obtain ⟨wait, waits⟩ := Option.ne_none_iff_exists'.mp sleeps
  obtain ⟨u, k, flag, rfl, slot, free, entry, same⟩ := inv.waits wait waits
  have kept : wp Any ((Action.wake p w).run x.1) (fun r t => Inv t p (answers (card x.1 p) x.2 r)) x.1 := by
    unfold Action.run
    rw [wp_bind, wp_modify, waits]
    dsimp only
    unfold resume setWait
    simp only [wp_bind, wp_get, wp_modifyProc]
    let s : Kernel := { x.1 with cur := p, ptab := put x.1.ptab p { x.1.ptab p with wait := none } }
    have here : mine s = { card x.1 p with wait := none } := by
      simp only [s, mine, card, put_same]
    have exact' : Exact (mine s) x.2 := by
      rw [here]
      exact inv.bits
    have free' : (mine s).files u = NO_FILE := by
      rw [here]
      exact free
    have finish : ∀ {r t}, Ends s t u k flag r → Inv t p (answers (card x.1 p) x.2 r) := by
      intro r t ends
      have none' : (mine s).wait = none := by rw [here]
      have waits' : (card x.1 p).wait = some (.opening u k flag) := waits
      have same' : Cloexec.kept (mine s) x.2 = Cloexec.kept (card x.1 p) x.2 := by rw [here]; rfl
      rcases ends.awake exact' slot free' entry same with ⟨rfl, awake⟩ | ⟨rfl, awake⟩
      · rw [same'] at awake
        exact awake.inv none'
      · rw [same'] at awake
        unfold answers
        rw [waits']
        exact awake.inv none'
    cases w with
    | killed record => exact absurd rfl (alive record)
    | event ctty =>
      simp only [wp_bind, wp_get]
      split
      · trivial
      · rename_i i _
        have post : Keeps Any Still (ttyPost i ctty) := still_modifyU (fun _ => rfl) fun _ => rfl
        rw [wp_bind]
        refine wp_mono (post s) fun _ t still => ?_
        rw [← still.card] at free'
        exact wp_mono (wp_openFinish k flag free') fun _ _ ends => finish (still.ends ends)
    | signal e =>
      rw [wp_bind]
      refine wp_mono (still_walks.setError e s) fun _ t still => ?_
      rw [← still.card] at free'
      exact wp_mono (wp_cantopen k flag free') fun _ _ ends => finish (still.ends ends)
  have post := wp_ok kept run
  rw [asked']
  exact post

/-- Before every step of a process whose steps are proper the bits are those of the open descriptors
that were asked for last, and `execve` closes what has a bit. -/
theorem cloexec_exact {p : Nat} {s t : Kernel} {asked asked' : Nat → Bool} {events : List Event}
    (start : Exact (card s p) asked) (awake : (card s p).wait = none)
    (run : Steps (fun x e y => step p x e y ∧ Proper x.1 p e) (s, asked) events (t, asked')) :
    (∀ fd, (card t p).cloexec fd = true ↔ fd < UFTSIZE ∧ (card t p).files fd ≠ NO_FILE ∧ asked' fd = true) ∧
    ∀ name image r v, (Action.call p (.execve name image)).run t t = .ok (some r, v) →
      ∀ fd < UFTSIZE, (card v p).files fd = if (card t p).cloexec fd = true then NO_FILE else (card t p).files fd := by
  have inv : Inv t p asked' := by
    refine Steps.keeps (I := fun x => Inv x.1 p x.2) ?_ run ⟨start, fun w no => ?_⟩
    · rintro x e y inv ⟨taken, proper⟩
      cases e with
      | elsewhere =>
        obtain ⟨same, asked⟩ := taken
        rw [asked]
        exact ⟨by rw [same]; exact inv.bits, by rw [same]; exact inv.waits⟩
      | call c => exact call_step inv taken proper
      | wake w => exact wake_step inv taken
    · rw [awake] at no
      cases no
  refine ⟨inv.bits, fun name image r v returns fd slot => ?_⟩
  have executes : wp Any ((Action.call p (.execve name image)).run t) (fun r v => r ≠ none →
      (card v p).files = (executed (card t p)).files) t := by
    unfold Action.run
    rw [wp_bind]
    refine wp_mono (wp_enterCall p t) ?_
    rintro _ s ⟨rfl, same, _⟩
    refine wp_mono (wp_execve name image s) ?_
    rintro r v (⟨rfl, _⟩ | ⟨_, goes⟩) some'
    · exact absurd rfl some'
    · rw [← same, ← goes.card, mine, goes.cur]
  rw [wp_ok executes returns (by simp)]
  unfold executed
  by_cases bit : (card t p).cloexec fd = true
  · simp only [if_pos bit, if_pos (And.intro slot bit)]
  · simp only [if_neg bit, if_neg fun both : fd < UFTSIZE ∧ (card t p).cloexec fd = true => bit both.2]

end

theorem oneFile_exact : @Exact tiny (card oneFile 0) fun _ => false := by
  intro fd
  constructor
  · intro no
    cases no
  · rintro ⟨_, _, no⟩
    cases no

/-- A descriptor that is to be closed. -/
theorem cloexec_exact_set : ∃ (_ : Build) (t : Kernel) (asked : Nat → Bool),
    Steps (fun x e y => step 0 x e y ∧ Proper x.1 0 e) (oneFile, fun _ => false) [.call (.fcntl 0 .setfd 4096)]
      (t, asked) ∧ (card t 0).cloexec 0 = true ∧ asked 0 = true := by
  let _ := tiny
  have taken : ∃ t asked, step 0 (oneFile, fun _ => false) (.call (.fcntl 0 .setfd 4096)) (t, asked) ∧
      (card t 0).files 0 = 0 ∧ asked 0 = true := ⟨_, _, ⟨trivial, ⟨by decide, by decide, rfl⟩, some 0, rfl, rfl⟩, rfl, rfl⟩
  obtain ⟨t, asked, taken, entry, yes⟩ := taken
  have run : Steps (fun x e y => step 0 x e y ∧ Proper x.1 0 e) (oneFile, fun _ => false)
      [.call (.fcntl 0 .setfd 4096)] (t, asked) :=
    Steps.cons (t := (t, asked)) ⟨taken, Or.inl (by decide)⟩ (Steps.nil _)
  have bits := (cloexec_exact oneFile_exact rfl run).1 0
  exact ⟨tiny, t, asked, run, bits.mpr ⟨by decide, by rw [entry]; decide, yes⟩, yes⟩

/-- The bit of a descriptor stays when it should be cleared. -/
theorem cloexec_stays : ∃ (_ : Build) (t : Kernel) (asked : Nat → Bool), Exact (card oneFile 0) (fun _ => false) ∧
    Steps (step 0) (oneFile, fun _ => false) [.call (.fcntl 0 .setfd 4096), .call (.fcntl 0 .setfd 0)] (t, asked) ∧
      (card t 0).cloexec 0 = true ∧ asked 0 = false := by
  let _ := tiny
  have taken : ∃ s before t asked, step 0 (oneFile, fun _ => false) (.call (.fcntl 0 .setfd 4096)) (s, before) ∧
      step 0 (s, before) (.call (.fcntl 0 .setfd 0)) (t, asked) ∧ (card t 0).cloexec 0 = true ∧ asked 0 = false :=
    ⟨_, _, _, _, ⟨trivial, ⟨by decide, by decide, rfl⟩, some 0, rfl, rfl⟩,
      ⟨trivial, ⟨by decide, by decide, rfl⟩, some 0, rfl, rfl⟩, rfl, rfl⟩
  obtain ⟨s, before, t, asked, first, second, bit, no⟩ := taken
  exact ⟨tiny, t, asked, oneFile_exact, Steps.cons first (Steps.cons second (Steps.nil _)), bit, no⟩

end Cloexec
