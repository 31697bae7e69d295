import Fuzix.OpenFiles

/-!
# Calls on open files

What each call on descriptors does to the accounting: from a state where it
holds, every call ends in one, unless it is one of the calls that `Action.sound`
excludes.
-/

set_option linter.unusedSectionVars false

namespace Fuzix

open Wp Table Words

variable [Build]

/-! ## Looking at descriptors -/

/-- The desks and the running process are as before. -/
structure Seated (s t : Kernel) : Prop where
  cur : t.cur = s.cur
  acctFh : t.acctFh = s.acctFh
  desk : ∀ p, t.desk p = s.desk p

theorem FilesKept.seated {s t : Kernel} (h : FilesKept s t) : Seated s t :=
  ⟨h.cur, h.acctFh, h.desk⟩

theorem Seated.running {s t : Kernel} (h : Seated s t) (r : Running s) : Running t where
  cur := h.cur ▸ r.cur
  live := by rw [h.cur, h.desk]; exact r.live
  awake := by rw [h.cur, h.desk]; exact r.awake

/-- The descriptors of the running process. -/
def Kernel.fds (s : Kernel) : Nat → Nat := (s.desk s.cur).files

theorem Seated.fds {s t : Kernel} (h : Seated s t) : t.fds = s.fds := by
  rw [Kernel.fds, h.cur, h.desk, Kernel.fds]

/-- Descriptor `fd` is open on inode `i`. -/
structure OpenOn (s : Kernel) (fd i : Nat) : Prop where
  slot : fd < UFTSIZE
  entry : s.fds fd < OFTSIZE
  inode : (s.oftab (s.fds fd)).inode = some i

section Specs
variable {s : Kernel} {X : List Nat}

theorem wp_getinode (s : Kernel) (fd : Nat) :
    wp Tame (getinode fd) (fun r t => FilesKept s t ∧
      (∀ i, r = some i → OpenOn t (fd % 256) i) ∧
      (r = none → UFTSIZE ≤ fd % 256 ∨ s.fds (fd % 256) = NO_FILE)) s := by
  unfold getinode
  simp only [wp_bind, wp_get, wp_ite, wp_pure]
  constructor
  · intro closed
    refine wp_mono (steady_setError EBADF s) fun _ t kept => ⟨kept, ?_, fun _ => closed⟩
    intro i found
    cases found
  · intro inRange
    push Not at inRange
    constructor
    · intro _
      exact Tame.panic _
    · intro entry
      split
      · exact Tame.panic _
      · rename_i i inode
        simp only [wp_bind, wp_ite, wp_pure]
        constructor
        · intro _
          exact Tame.panic _
        · intro _
          refine wp_mono (steady_of_quiet (quiet_magic i) s) fun _ t kept => ⟨kept, ?_, ?_⟩
          · rintro j found
            cases found
            have fds := kept.seated.fds
            refine ⟨inRange.1, ?_, ?_⟩
            · rw [fds]
              exact Nat.not_le.mp entry
            · rw [fds, kept.oftab]
              exact inode
          · intro no
            cases no

theorem wp_getinode_same (s : Kernel) (fd : Nat) :
    wp Tame (getinode fd) (fun r t => r ≠ none → t = s) s := by
  unfold getinode magic
  simp only [wp_bind, wp_get, wp_ite, wp_pure]
  refine ⟨fun _ => wp_mono (steady_setError EBADF s) fun _ t _ no => absurd rfl no, fun _ => ?_⟩
  refine ⟨fun _ => Tame.panic _, fun _ => ?_⟩
  split
  · exact Tame.panic _
  · rw [wp_ite]
    refine ⟨fun _ => Tame.panic _, fun _ => ?_⟩
    simp only [wp_bind, wp_get, wp_ite, wp_pure]
    exact ⟨fun _ => Tame.panic _, fun _ _ => trivial⟩

theorem wp_ufAllocN (s : Kernel) (base : Nat) :
    wp Tame (ufAllocN base) (fun r t => FilesKept s t ∧
      ∀ u, r = some u → u < UFTSIZE ∧ t.fds u = NO_FILE) s := by
  unfold ufAllocN
  simp only [wp_bind, wp_get]
  split
  · rename_i u found
    have free := List.find?_some found
    have inRange := List.mem_range.mp (List.mem_of_find?_eq_some found)
    simp only [decide_eq_true_eq] at free
    refine ⟨FilesKept.refl s, ?_⟩
    rintro v same
    cases same
    exact ⟨inRange, free.2⟩
  · rw [wp_bind]
    refine wp_mono (steady_setError EMFILE s) fun _ t kept => ⟨kept, ?_⟩
    rintro v no
    cases no

/-- The entry `oft_alloc` hands out, and nothing else, is changed. -/
theorem wp_oftAlloc_entry (s : Kernel) :
    wp Tame oftAlloc (fun r t => (r = none → FilesKept s t) ∧
      ∀ k, r = some k → k < OFTSIZE ∧ (s.oftab k).refs = 0 ∧
        t = { s with oftab := put s.oftab k { s.oftab k with refs := 1, inode := none } }) s := by
  unfold oftAlloc
  simp only [wp_bind, wp_get]
  split
  · rename_i k found
    have free := List.find?_some found
    have hk := List.mem_range.mp (List.mem_of_find?_eq_some found)
    simp only [decide_eq_true_eq] at free
    simp only [wp_bind, wp_modifyOft, wp_pure]
    refine ⟨?_, ?_⟩
    · intro no
      cases no
    · rintro j same
      cases same
      exact ⟨hk, free, rfl⟩
  · rw [wp_bind]
    refine wp_mono (steady_setError ENFILE s) fun _ t kept => ⟨fun _ => kept, ?_⟩
    rintro v no
    cases no

theorem wp_oftAlloc (a : OftAcc s X) :
    wp Tame oftAlloc (fun r t => Seated s t ∧ (r = none → OftAcc t X) ∧
      ∀ k, r = some k → k < OFTSIZE ∧ OftAcc t (k :: X) ∧ (t.oftab k).refs = 1) s := by
  refine wp_mono (wp_oftAlloc_entry s) ?_
  rintro r t ⟨full, reserved⟩
  cases r with
  | none =>
    have kept := full rfl
    refine ⟨kept.seated, fun _ => kept.acc a, ?_⟩
    rintro k no
    cases no
  | some k =>
    obtain ⟨hk, free, rfl⟩ := reserved k rfl
    refine ⟨⟨rfl, rfl, fun _ => rfl⟩, ?_, ?_⟩
    · intro no
      cases no
    · rintro j same
      cases same
      refine ⟨hk, a.reserve hk free rfl, ?_⟩
      simp only [put_same]

theorem quiet_deflock (o : Oft) : Quiet (deflock o) := by
  unfold deflock
  split
  · exact quiet_null
  · rename_i i _
    refine Keeps.ite ?_ (quiet_pure _)
    refine quiet_modifyInode i fun c => ?_
    split
    · rfl
    · split <;> rfl

/-- With the one reference of a call the count still fits in 8 bits. -/
theorem OftAcc.refs_lt {k : Nat} (a : OftAcc s [k]) (hk : k < OFTSIZE) :
    0 < (s.oftab k).refs ∧ (s.oftab k).refs < 256 := by
  have sum := a.refs k hk
  rw [List.count_singleton_self] at sum
  refine ⟨by omega, ?_⟩
  by_cases free : booked s k = 0
  · have le := holders_le s k
    have bound := Build.oftRefsBound
    by_cases empty : PTABSIZE = 0
    · rw [empty, Nat.zero_mul] at le
      omega
    · omega
  · have alone := (a.booked_alone free).2.2.2
    rw [List.count_singleton_self] at alone
    omega

/-- `oft_deref` of an entry that keeps a reference or has no inode. -/
theorem wp_oftDeref_plain {k : Nat} {Q : Unit → Kernel → Prop}
    (plain : ((s.oftab k).refs + 255) % 256 ≠ 0 ∨ (s.oftab k).inode = none)
    (post : Q () { s with
      oftab := put s.oftab k { s.oftab k with refs := ((s.oftab k).refs + 255) % 256 } }) :
    wp Tame (oftDeref k) Q s := by
  unfold oftDeref
  simp only [wp_bind, wp_get, wp_modifyOft]
  split
  · exact post
  · rename_i i inode
    simp only [wp_ite]
    constructor
    · intro last
      rcases plain with more | no
      · exact absurd last more
      · rw [inode] at no
        cases no
    · intro _
      exact post

/-- The reference of the call goes. -/
theorem wp_oftDeref {k : Nat} (a : OftAcc s [k]) (hk : k < OFTSIZE) :
    wp Tame (oftDeref k) (fun _ t => OftAcc t [] ∧ Seated s t) s := by
  have bound := a.refs_lt hk
  have less : ((s.oftab k).refs + 255) % 256 = (s.oftab k).refs - 1 := by omega
  by_cases plain : ((s.oftab k).refs + 255) % 256 ≠ 0 ∨ (s.oftab k).inode = none
  · refine wp_oftDeref_plain plain ⟨a.drop hk less ?_ rfl, ⟨rfl, rfl, fun _ => rfl⟩⟩
    rcases plain with more | no
    · rw [if_neg more]
    · rw [no, ite_self]
  · push Not at plain
    obtain ⟨last, set⟩ := plain
    unfold oftDeref
    simp only [wp_bind, wp_get, wp_modifyOft]
    split
    · rename_i no
      exact absurd no set
    · rename_i i inode
      simp only [wp_ite]
      refine ⟨fun _ => ?_, fun more => absurd last more⟩
      simp only [wp_bind]
      refine wp_mono (steady_of_quiet (quiet_deflock _) _) fun _ t₁ kept₁ => ?_
      refine wp_mono (steady_iDeref i t₁) fun _ t₂ kept₂ => ?_
      have kept := kept₁.trans kept₂
      -- the state without the entry, in which nothing but the data differs
      have gone : OftAcc { s with
          oftab := put s.oftab k { s.oftab k with refs := 0, inode := none } } [] :=
        a.drop hk (by dsimp only; omega) rfl rfl
      have kept' : FilesKept { s with
          oftab := put s.oftab k { s.oftab k with refs := 0, inode := none } }
          { t₂ with oftab := put t₂.oftab k { t₂.oftab k with inode := none } } := by
        refine ⟨?_, kept.acctFh, kept.cur, kept.ptab, kept.itab⟩
        show put t₂.oftab k _ = put s.oftab k _
        rw [kept.oftab]
        simp only [put_put, put_same, last]
      exact ⟨kept'.acc gone, kept.cur, kept.acctFh, kept.desk⟩

end Specs

/-! ## Closing -/

/-- `t` is `s` with descriptor `fd` of the running process closed. -/
structure ClosedFd (s t : Kernel) (fd : Nat) : Prop where
  cur : t.cur = s.cur
  acctFh : t.acctFh = s.acctFh
  mine : t.desk s.cur = { s.desk s.cur with files := put s.fds fd NO_FILE }
  others : ∀ q, q ≠ s.cur → t.desk q = s.desk q

section Closing
variable {s t u : Kernel} {X : List Nat} {fd i k : Nat}

theorem ClosedFd.running (h : ClosedFd s t fd) (r : Running s) : Running t where
  cur := h.cur ▸ r.cur
  live := by rw [h.cur, h.mine]; exact r.live
  awake := by rw [h.cur, h.mine]; exact r.awake

theorem ClosedFd.fds (h : ClosedFd s t fd) : t.fds = put s.fds fd NO_FILE := by
  rw [Kernel.fds, h.cur, h.mine]

theorem ClosedFd.seated (h : ClosedFd s t fd) (k : Seated t u) : ClosedFd s u fd where
  cur := k.cur.trans h.cur
  acctFh := k.acctFh.trans h.acctFh
  mine := (k.desk _).trans h.mine
  others := fun q other => (k.desk q).trans (h.others q other)

theorem Seated.closed (h : Seated s t) (k : ClosedFd t u fd) : ClosedFd s u fd where
  cur := k.cur.trans h.cur
  acctFh := k.acctFh.trans h.acctFh
  mine := by
    have mine := k.mine
    rw [h.cur, h.desk, h.fds] at mine
    exact mine
  others := fun q other => by
    rw [← h.cur] at other
    exact (k.others q other).trans (h.desk q)

/-- Closing what is not open changes nothing. -/
theorem Seated.not_open (h : Seated s t) (free : s.fds fd = NO_FILE) : ClosedFd s t fd where
  cur := h.cur
  acctFh := h.acctFh
  mine := by
    rw [h.desk, ← free, put_self]
    rfl
  others := fun q _ => h.desk q

/-- Seen backwards, closing a descriptor installs its entry. -/
theorem ClosedFd.installed (h : ClosedFd s t fd) (r : Running s) (slot : fd < UFTSIZE)
    (entry : s.fds fd < OFTSIZE) (oftab : t.oftab = s.oftab) :
    Installed t s s.cur fd (s.fds fd) where
  proc := r.cur
  live := by rw [h.mine]; exact r.live
  awake := by rw [h.mine]; exact r.awake
  slot := slot
  free := by rw [h.mine]; exact put_same _ _ _
  entry := entry
  oftab := oftab.symm
  acctFh := h.acctFh.symm
  mine := by
    rw [h.mine]
    simp only [put_put, put_self]
    rfl
  others := fun q other => (h.others q other).symm

theorem uses_le_one (s : Kernel) (shut i k : Nat) : uses s shut i k ≤ 1 := by
  unfold uses
  split <;> omega

theorem total_uses_lt (s : Kernel) (shut i : Nat) : total OFTSIZE (uses s shut i) < 128 := by
  have le : total OFTSIZE (uses s shut i) ≤ OFTSIZE * 1 :=
    total_le fun k _ => uses_le_one s shut i k
  have bound := Build.oftBound
  omega

theorem newUse_other {shut j : Nat} (inode : (t.oftab k).inode = some i) (other : j ≠ i) :
    newUse t shut j k = 0 := by
  refine if_neg fun all => other ?_
  rw [inode] at all
  exact (Option.some.inj all.2.1).symm

theorem newUse_used {shut : Nat} (inUse : holders s k ≠ 0) : newUse s shut i k = 0 :=
  if_neg fun all => inUse all.1

/-- The users of an inode drop by one when an entry in use is left. -/
theorem drop_use (shut : Nat) (inUse : holders s k ≠ 0) (hk : k < OFTSIZE)
    (inode : (s.oftab k).inode = some i) (left : holders t k = 0)
    (entry : t.oftab k = s.oftab k) :
    total OFTSIZE (uses s shut i) =
      (if (s.oftab k).access.accmode ≠ shut
        then (total OFTSIZE (uses s shut i) + 255) % 256
        else total OFTSIZE (uses s shut i)) + newUse t shut i k := by
  have le := le_total (f := uses s shut i) hk
  have bound := total_uses_lt s shut i
  by_cases mode : (s.oftab k).access.accmode ≠ shut
  · have one : uses s shut i k = 1 := if_pos ⟨inUse, inode, mode⟩
    have new : newUse t shut i k = 1 := if_pos ⟨left, entry ▸ inode, entry ▸ mode⟩
    rw [if_pos mode, new]
    omega
  · have new : newUse t shut i k = 0 := if_neg fun all => mode (entry ▸ all.2.2)
    rw [if_neg mode, new]
    rfl

theorem Running.holders (r : Running s) (slot : fd < UFTSIZE) : holders s (s.fds fd) ≠ 0 := by
  have le := one_le_named r.cur r.live slot
  rw [Fuzix.holders]
  show Fuzix.named s ((s.desk s.cur).files fd) + _ ≠ 0
  omega

theorem OftAcc.close (a : OftAcc s []) (r : Running s) (o : OpenOn s fd i)
    (h : ClosedFd s t fd) (oftab : t.oftab = s.oftab)
    (itab : t.itab = if (s.oftab (s.fds fd)).refs = 1
      then put s.itab i { s.itab i with
        writers := if (s.oftab (s.fds fd)).access.accmode ≠ O_RDONLY
          then ((s.itab i).writers + 255) % 256 else (s.itab i).writers
        readers := if (s.oftab (s.fds fd)).access.accmode ≠ O_WRONLY
          then ((s.itab i).readers + 255) % 256 else (s.itab i).readers }
      else s.itab) : OftAcc t [s.fds fd] := by
  have inUse : holders s (s.fds fd) ≠ 0 := r.holders o.slot
  have back := h.installed r o.slot o.entry oftab
  have sum := a.refs _ o.entry
  rw [List.count_nil] at sum
  have alone : booked s (s.fds fd) = 0 := by
    by_contra some_booked
    exact inUse (a.booked_alone some_booked).2.2.1
  have before := back.holders o.entry
  rw [if_pos rfl] at before
  by_cases last : (s.oftab (s.fds fd)).refs = 1
  · rw [if_pos last] at itab
    have none_left : holders t (s.fds fd) = 0 := by omega
    have inode : (t.oftab (s.fds fd)).inode = some i := by rw [oftab]; exact o.inode
    refine a.uninstall back (fun j => ?_) (fun j => ?_)
    · rw [itab]
      by_cases here : j = i
      · subst here
        rw [put_same, a.readers j]
        exact drop_use O_WRONLY inUse o.entry o.inode none_left (congrFun oftab _)
      · rw [put_ne _ _ here, newUse_other inode here]
        rfl
    · rw [itab]
      by_cases here : j = i
      · subst here
        rw [put_same, a.writers j]
        exact drop_use O_RDONLY inUse o.entry o.inode none_left (congrFun oftab _)
      · rw [put_ne _ _ here, newUse_other inode here]
        rfl
  · rw [if_neg last] at itab
    have some_left : holders t (s.fds fd) ≠ 0 := by omega
    refine a.uninstall back (fun j => ?_) (fun j => ?_)
    · rw [itab, newUse, if_neg fun all => some_left all.1]
      rfl
    · rw [itab, newUse, if_neg fun all => some_left all.1]
      rfl

theorem wp_doclose (a : OftAcc s []) (r : Running s) (fd : Nat) :
    wp Tame (doclose fd) (fun _ t => OftAcc t [] ∧ Running t ∧
      (fd % 256 < UFTSIZE → ClosedFd s t (fd % 256))) s := by
  unfold doclose
  rw [wp_bind]
  refine wp_mono (wp_getinode s fd) ?_
  rintro found t ⟨kept, opened, closed⟩
  have seat := kept.seated
  cases found with
  | none =>
    refine ⟨kept.acc a, seat.running r, fun slot => seat.not_open ?_⟩
    rcases closed rfl with out | free
    · exact absurd slot (Nat.not_lt.mpr out)
    · exact free
  | some i =>
    have o := opened i rfl
    have r' := seat.running r
    have a' := kept.acc a
    simp only [wp_bind, wp_get]
    -- the state once the descriptor is gone, whether it was the last one or not
    have step : ∀ itab, (itab = if (t.oftab (t.fds (fd % 256))).refs = 1
          then put t.itab i { t.itab i with
            writers := if (t.oftab (t.fds (fd % 256))).access.accmode ≠ O_RDONLY
              then ((t.itab i).writers + 255) % 256 else (t.itab i).writers
            readers := if (t.oftab (t.fds (fd % 256))).access.accmode ≠ O_WRONLY
              then ((t.itab i).readers + 255) % 256 else (t.itab i).readers }
          else t.itab) →
        wp Tame (oftDeref (t.fds (fd % 256)))
          (fun _ v => OftAcc v [] ∧ Running v ∧
            (fd % 256 < UFTSIZE → ClosedFd s v (fd % 256)))
          { t with
            itab := itab
            ptab := put t.ptab t.cur { t.ptab t.cur with
              u := { t.u with
                files := put t.u.files (fd % 256) NO_FILE
                cloexec := put t.u.cloexec (fd % 256) false } } } := by
      intro itab change
      have gone : ClosedFd t { t with
          itab := itab
          ptab := put t.ptab t.cur { t.ptab t.cur with
            u := { t.u with
              files := put t.u.files (fd % 256) NO_FILE
              cloexec := put t.u.cloexec (fd % 256) false } } } (fd % 256) := by
        refine ⟨rfl, rfl, ?_, fun q other => ?_⟩
        · simp only [Kernel.desk, put_same]
          rfl
        · simp only [Kernel.desk, put_ne _ _ other]
      refine wp_mono (wp_oftDeref (a'.close r' o gone rfl change) o.entry) ?_
      rintro _ v ⟨acc, seat'⟩
      exact ⟨acc, seat'.running (gone.running r'), fun _ => seat.closed (gone.seated seat')⟩
    rw [wp_onlyIf]
    refine ⟨fun last => ?_, fun more => ?_⟩
    · exact step _ (if_pos last).symm
    · exact step _ (if_neg more).symm

end Closing

/-! ## Duplicating -/

section Dup
variable {s : Kernel} {fd newd : Nat}

theorem OftAcc.entry_lt (a : OftAcc s []) (r : Running s) (slot : fd < UFTSIZE)
    (isOpen : s.fds fd ≠ NO_FILE) : s.fds fd < OFTSIZE :=
  (a.files s.cur r.cur r.live fd slot).resolve_left isOpen

/-- An entry in use has room for one more reference. -/
theorem OftAcc.refs_succ (a : OftAcc s []) (r : Running s) {k : Nat} (hk : k < OFTSIZE)
    (inUse : holders s k ≠ 0) : ((s.oftab k).refs + 1) % 256 = (s.oftab k).refs + 1 := by
  have sum := a.refs k hk
  rw [List.count_nil] at sum
  have alone : booked s k = 0 := by
    by_contra some_booked
    exact inUse (a.booked_alone some_booked).2.2.1
  have le := holders_le s k
  have bound := Build.oftRefsBound
  have procs := r.cur
  omega

theorem wp_getOft {k : Nat} (hk : k < OFTSIZE) {Q : Oft → Kernel → Prop}
    (post : Q (s.oftab k) s) : wp Tame (getOft k) Q s := by
  unfold getOft
  simp only [wp_bind, wp_get, wp_ite]
  exact ⟨fun out => absurd hk (Nat.not_lt.mpr out), fun _ => post⟩

theorem wp_oftOf (slot : fd < UFTSIZE) {Q : Nat → Kernel → Prop}
    (post : Q (s.fds fd) s) : wp Tame (oftOf fd) Q s := by
  unfold oftOf
  simp only [wp_bind, wp_get, wp_ite]
  exact ⟨fun out => absurd slot (Nat.not_lt.mpr out), fun _ => post⟩

theorem wp_dupTo (a : OftAcc s []) (r : Running s) (slot : fd < UFTSIZE)
    (isOpen : s.fds fd ≠ NO_FILE) (newSlot : newd < UFTSIZE) (free : s.fds newd = NO_FILE) :
    wp Tame (dupTo fd newd) (fun _ t => OftAcc t []) s := by
  have entry := a.entry_lt r slot isOpen
  have inUse := r.holders slot
  have more := a.refs_succ r entry inUse
  unfold dupTo
  rw [wp_bind]
  refine wp_oftOf slot ?_
  rw [wp_bind]
  show wp Tame _ _ { s with ptab := put s.ptab s.cur { s.ptab s.cur with
    u := { s.u with files := put s.u.files newd (s.fds fd) } } }
  rw [wp_bind]
  refine wp_getOft entry ?_
  rw [wp_modifyOft]
  have shared := a.share entry inUse (o := { s.oftab (s.fds fd) with
    refs := ((s.oftab (s.fds fd)).refs + 1) % 256 }) more rfl rfl
  refine shared.install (p := s.cur) (u := newd) ?_ ?_ (fun i => ?_) (fun i => ?_)
  · refine ⟨r.cur, r.live, r.awake, newSlot, free, entry, rfl, rfl, ?_, fun q other => ?_⟩
    · simp only [Kernel.desk, put_same]
      rfl
    · simp only [Kernel.desk, put_ne _ _ other]
  · simp only [put_same]
    exact a.used _ entry inUse
  · rw [newUse_used]
    · rfl
    · exact inUse
  · rw [newUse_used]
    · rfl
    · exact inUse

theorem OpenOn.isOpen {i : Nat} (o : OpenOn s fd i) : s.fds fd ≠ NO_FILE := by
  have entry := o.entry
  have bound := oftsize_lt_noFile
  omega

/-- A descriptor as it was passed is in range, or `getinode` refuses it. -/
def Fits (s : Kernel) (fd : Nat) : Prop :=
  fd < UFTSIZE ∨ UFTSIZE ≤ fd % 256 ∨ s.fds (fd % 256) = NO_FILE

/-- After `getinode` the descriptor may be used as it was passed. -/
theorem Fits.slot (h : Fits s fd) {t : Kernel} {i : Nat} (seat : Seated s t)
    (o : OpenOn t (fd % 256) i) : fd < UFTSIZE ∧ OpenOn t fd i := by
  have bound : UFTSIZE ≤ 16 := Build.uftBound
  have slot : fd < UFTSIZE := by
    rcases h with slot | out | free
    · exact slot
    · exact absurd o.slot (Nat.not_lt.mpr out)
    · rw [← seat.fds] at free
      exact absurd free o.isOpen
  have same : fd % 256 = fd := Nat.mod_eq_of_lt (by omega)
  exact ⟨slot, same ▸ o⟩

theorem wp_dup (a : OftAcc s []) (r : Running s)
    (fits : (∃ j, j < UFTSIZE ∧ s.fds j = NO_FILE) → Fits s fd) :
    wp Tame (dup fd) (fun _ t => OftAcc t []) s := by
  unfold dup
  rw [wp_bind]
  refine wp_mono (wp_getinode s fd) ?_
  rintro found t ⟨kept, opened, _⟩
  cases found with
  | none => exact kept.acc a
  | some i =>
    rw [wp_bind]
    refine wp_mono (wp_ufAllocN t 0) ?_
    rintro free v ⟨kept', room⟩
    cases free with
    | none => exact kept'.acc (kept.acc a)
    | some newd =>
      have all := kept.trans kept'
      obtain ⟨newSlot, empty⟩ := room newd rfl
      have fits := fits ⟨newd, newSlot, all.seated.fds ▸ empty⟩
      obtain ⟨slot, o⟩ := fits.slot kept.seated (opened i rfl)
      have isOpen : v.fds fd ≠ NO_FILE := by
        rw [kept'.seated.fds]
        exact o.isOpen
      rw [wp_bind]
      exact wp_dupTo (all.acc a) (all.running r) slot isOpen newSlot empty

/-- `dup2` onto an open descriptor closes it first; when it is the one to be
copied there is nothing left to copy. -/
theorem wp_dup2 (a : OftAcc s []) (r : Running s)
    (fits : newd < UFTSIZE → Fits s fd ∧ (newd = fd → s.fds fd = NO_FILE)) :
    wp Tame (dup2 fd newd) (fun _ t => OftAcc t []) s := by
  unfold dup2
  rw [wp_bind]
  refine wp_mono (wp_getinode s fd) ?_
  rintro found t ⟨kept, opened, _⟩
  have a' := kept.acc a
  have r' := kept.running r
  cases found with
  | none => exact a'
  | some i =>
    simp only [wp_ite]
    refine ⟨fun _ => ?_, fun inRange => ?_⟩
    · rw [wp_bind]
      exact wp_mono (steady_setError EBADF t) fun _ v kept' => kept'.acc a'
    · have newSlot := Nat.not_le.mp inRange
      obtain ⟨fits, other⟩ := fits newSlot
      obtain ⟨slot, o⟩ := fits.slot kept.seated (opened i rfl)
      have distinct : fd ≠ newd := by
        intro same
        have free := other same.symm
        rw [← kept.seated.fds] at free
        exact o.isOpen free
      simp only [wp_bind, wp_get, wp_onlyIf, wp_discard]
      refine ⟨fun _ => ?_, fun free => ?_⟩
      · refine wp_mono (wp_doclose a' r' newd) ?_
        rintro _ v ⟨acc, run, closed⟩
        have small : UFTSIZE ≤ 16 := Build.uftBound
        have same : newd % 256 = newd := Nat.mod_eq_of_lt (by omega)
        rw [same] at closed
        have fds := (closed newSlot).fds
        refine wp_dupTo acc run slot ?_ newSlot ?_
        · rw [fds, put_ne _ _ distinct]
          exact o.isOpen
        · rw [fds, put_same]
      · exact wp_dupTo a' r' slot o.isOpen newSlot (not_not.mp free)

theorem wp_close (a : OftAcc s []) (r : Running s) :
    wp Tame (close fd) (fun _ t => OftAcc t []) s := by
  unfold close
  rw [wp_bind]
  refine wp_mono (wp_doclose a r _) ?_
  rintro failed t ⟨acc, _⟩
  rw [wp_ite]
  exact ⟨fun _ => acc, fun _ => acc⟩

theorem wp_fcntl (a : OftAcc s []) (r : Running s) (fits : Fits s fd) (request : Fcntl)
    (data : Nat) : wp Tame (fcntl fd request data) (fun _ t => OftAcc t []) s := by
  unfold fcntl
  rw [wp_bind]
  refine wp_mono (wp_getinode s fd) ?_
  rintro found t ⟨kept, opened, _⟩
  have a' := kept.acc a
  have r' := kept.running r
  cases found with
  | none => exact a'
  | some i =>
    obtain ⟨slot, o⟩ := fits.slot kept.seated (opened i rfl)
    rw [wp_bind]
    refine wp_oftOf slot ?_
    rw [wp_bind]
    refine wp_getOft o.entry ?_
    rw [wp_bind, wp_get]
    cases request with
    | setfl => exact a'.touch _ rfl rfl rfl
    | getfl => exact a'
    | getfd => exact a'
    | setfd =>
      rw [wp_bind]
      refine wp_mono (steady_modifyU ?_ t) fun _ v (kept' : FilesKept t v) => kept'.acc a'
      exact fun _ => rfl
    | dupfd =>
      rw [wp_bind]
      refine wp_mono (wp_ufAllocN t data) ?_
      rintro free v ⟨kept', room⟩
      cases free with
      | none => exact kept'.acc a'
      | some newd =>
        obtain ⟨newSlot, empty⟩ := room newd rfl
        have isOpen : v.fds fd ≠ NO_FILE := by
          rw [kept'.seated.fds]
          exact o.isOpen
        rw [wp_bind]
        exact wp_dupTo (kept'.acc a') (kept'.running r') slot isOpen newSlot empty
    | other =>
      rw [wp_bind]
      exact wp_mono (steady_setError EINVAL t) fun _ v kept' => kept'.acc a'

end Dup

end Fuzix
