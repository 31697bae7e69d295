import Fuzix.FileLife

/-!
# Processes and their open files

The accounting across `_fork`, `_execve`, `doexit`, `waitpid` and `_acct`.
-/

namespace Fuzix

open Wp Table Words

variable [Build]

/-! ## fork -/

section Fork
variable {s t : Kernel}

theorem OftAcc.refs_bound (a : OftAcc s []) {k : Nat} (hk : k < OFTSIZE) :
    (s.oftab k).refs < 256 := by
  have sum := a.refs k hk
  rw [List.count_nil] at sum
  have names := holders_le s k
  have books := booked_le s k
  have bound := Build.oftRefsBound
  omega

/-- What `shareFiles` adds to the entries: one reference for each descriptor. -/
theorem wp_shareFiles (s : Kernel) (files : Nat → Nat) : ∀ n,
    (∀ j, j < n → files j = NO_FILE ∨ files j < OFTSIZE) →
    (∀ k, k < OFTSIZE → (s.oftab k).refs < 256) →
    wp Tame (shareFiles files n) (fun _ t => ∃ f, t = { s with oftab := f } ∧
      ∀ k, k < OFTSIZE → (f k).inode = (s.oftab k).inode ∧ (f k).access = (s.oftab k).access ∧
        (f k).refs = ((s.oftab k).refs + total n fun j => if files j = k then 1 else 0) % 256) s
  | 0, _, small => by
    refine ⟨s.oftab, rfl, fun k hk => ⟨rfl, rfl, ?_⟩⟩
    rw [total_none, Nat.add_zero]
    exact (Nat.mod_eq_of_lt (small k hk)).symm
  | n + 1, valid, small => by
    have before := wp_shareFiles s files n (fun j hj => valid j (by omega)) small
    unfold shareFiles
    rw [wp_bind]
    refine wp_mono before ?_
    rintro _ t ⟨f, rfl, shared⟩
    rw [wp_ite]
    refine ⟨fun isOpen => ?_, fun free => ⟨f, rfl, fun k hk => ?_⟩⟩
    · have entry := (valid n (by omega)).resolve_left isOpen
      rw [wp_bind]
      refine wp_getOft entry ?_
      rw [wp_modifyOft]
      refine ⟨_, rfl, fun k hk => ?_⟩
      obtain ⟨inode, access, refs⟩ := shared k hk
      by_cases here : k = files n
      · subst here
        simp only [put_same]
        refine ⟨inode, access, ?_⟩
        rw [refs, total_succ, if_pos rfl]
        omega
      · simp only [put_ne _ _ here]
        refine ⟨inode, access, ?_⟩
        rw [refs, total_succ, if_neg (Ne.symm here), Nat.add_zero]
    · obtain ⟨inode, access, refs⟩ := shared k hk
      have other : files n ≠ k := by
        have bound := oftsize_lt_noFile
        rw [not_not.mp free]
        omega
      refine ⟨inode, access, ?_⟩
      rw [refs, total_succ, if_neg other, Nat.add_zero]

/-- Process `p` starts with the descriptors of the running process, and every
entry they name has one more reference for each. -/
structure Forked (s t : Kernel) (p : Nat) : Prop where
  proc : p < PTABSIZE
  empty : (s.desk p).status = .empty
  acctFh : t.acctFh = s.acctFh
  itab : ∀ i, (t.itab i).users = (s.itab i).users
  live : (t.desk p).status = .live
  awake : (t.desk p).wait = none
  files : (t.desk p).files = s.fds
  others : ∀ q, q ≠ p → t.desk q = s.desk q
  entry : ∀ k, k < OFTSIZE → (t.oftab k).inode = (s.oftab k).inode ∧
    (t.oftab k).access = (s.oftab k).access ∧
    (t.oftab k).refs = ((s.oftab k).refs + slots s.fds k) % 256

theorem Forked.booking {p : Nat} (h : Forked s t p) (q : Nat) :
    (t.desk q).booking = (s.desk q).booking ∧ (t.desk q).transfer = (s.desk q).transfer := by
  by_cases here : q = p
  · subst here
    simp [Desk.booking, Desk.transfer, h.awake, h.empty]
  · rw [h.others q here]
    exact ⟨rfl, rfl⟩

theorem Forked.holders {p : Nat} (h : Forked s t p) (k : Nat) :
    holders t k = holders s k + slots s.fds k := by
  have change := named_change h.proc (fun q _ other => h.others q other) k
  have before : (s.desk p).names k = 0 := by
    rw [Desk.names, if_neg (by rw [h.empty]; decide)]
  have after : (t.desk p).names k = slots s.fds k := by
    rw [Desk.names, if_pos h.live, h.files]
  have acct : accounting t k = accounting s k := by rw [accounting, h.acctFh, accounting]
  simp only [Fuzix.holders]
  omega

theorem Forked.booked {p : Nat} (h : Forked s t p) (k : Nat) : booked t k = booked s k :=
  total_congr fun q _ => by rw [Desk.books, (h.booking q).1, Desk.books]

/-- A shared entry was in use before. -/
theorem slots_le_holders (r : Running s) (k : Nat) : slots s.fds k ≤ holders s k := by
  have mine : (s.desk s.cur).names k = slots s.fds k := by
    rw [Desk.names, if_pos r.live]
    rfl
  have le := le_total (f := fun p => (s.desk p).names k) r.cur
  rw [Fuzix.holders, named]
  omega

theorem OftAcc.fork {p : Nat} (a : OftAcc s []) (r : Running s) (h : Forked s t p) :
    OftAcc t [] := by
  have refs : ∀ k, k < OFTSIZE → (t.oftab k).refs = (s.oftab k).refs + slots s.fds k := by
    intro k hk
    have sum := a.refs k hk
    have names := holders_le t k
    have before := a.refs_bound hk
    have bound := Build.oftRefsBound
    have shared := slots_le_holders r k
    have count := h.holders k
    rw [List.count_nil] at sum
    rw [(h.entry k hk).2.2]
    by_cases free : booked s k = 0
    · omega
    · have alone := (a.booked_alone free).2.2.1
      omega
  have inUse : ∀ k, holders t k ≠ 0 ↔ holders s k ≠ 0 := by
    intro k
    have count := h.holders k
    have shared := slots_le_holders r k
    omega
  have uses_eq : ∀ shut i, total OFTSIZE (uses t shut i) = total OFTSIZE (uses s shut i) := by
    intro shut i
    refine total_congr fun k hk => ?_
    rw [uses, (h.entry k hk).1, (h.entry k hk).2.1, uses]
    simp only [inUse]
  constructor
  · intro k hk
    have sum := a.refs k hk
    rw [refs k hk, h.holders, h.booked]
    omega
  · intro q hq live
    by_cases here : q = p
    · subst here
      rw [h.files]
      exact a.files s.cur r.cur r.live
    · rw [h.others q here] at live ⊢
      exact a.files q hq live
  · rw [h.acctFh]
    exact a.acct
  · intro q u k hq found
    rw [(h.booking q).1] at found
    have other : q ≠ p := by
      rintro rfl
      have live := Desk.booking_live found
      rw [h.empty] at live
      cases live
    obtain ⟨hu, hk, free, one, set⟩ := a.bookings q u k hq found
    have alone := (a.booked_alone (k := k) (by
      have le := one_le_booked hq found
      omega)).2.2.1
    have shared := slots_le_holders r k
    rw [h.others q other, refs k hk, (h.entry k hk).1]
    exact ⟨hu, hk, free, by omega, set⟩
  · intro q fd hq found
    rw [(h.booking q).2] at found
    have other : q ≠ p := by
      rintro rfl
      simp only [Desk.transfer, h.empty] at found
      cases found
    rw [h.others q other]
    exact a.moving q fd hq found
  · intro k hk idle
    rw [(h.entry k hk).1]
    rw [refs k hk] at idle
    exact a.idle k hk (by omega)
  · intro k hk used
    rw [(h.entry k hk).1]
    exact a.used k hk ((inUse k).mp used)
  · intro i
    have same := congrArg Prod.fst (h.itab i)
    rw [readersOf, uses_eq]
    exact same.trans (a.readers i)
  · intro i
    have same := congrArg Prod.snd (h.itab i)
    rw [writersOf, uses_eq]
    exact same.trans (a.writers i)

theorem wp_fork (a : OftAcc s []) (r : Running s) (memory : Bool) :
    wp Tame (fork memory) (fun _ t => OftAcc t []) s := by
  unfold Fuzix.fork
  simp only [wp_bind, wp_get]
  split
  · rw [wp_bind]
    exact wp_mono (steady_setError EAGAIN s) fun _ t kept => kept.acc a
  · rename_i p found
    have empty := List.find?_some found
    have hp := List.mem_range.mp (List.mem_of_find?_eq_some found)
    simp only [decide_eq_true_eq] at empty
    simp only [wp_ite, wp_bind]
    refine ⟨fun _ => ?_, fun _ => ?_⟩
    · exact wp_mono (steady_setError ENOMEM s) fun _ t kept => kept.acc a
    · rw [wp_modifyProc]
      refine wp_mono (steady_iRef _ _) fun _ t kept => ?_
      refine wp_mono (steady_iRef _ _) fun _ v kept' => ?_
      have kept := kept.trans kept'
      have entries : v.oftab = s.oftab := kept.oftab
      refine wp_mono (wp_shareFiles v s.u.files UFTSIZE
        (fun j hj => a.files s.cur r.cur r.live j hj)
        (fun k hk => by rw [entries]; exact a.refs_bound hk)) ?_
      rintro _ w ⟨f, rfl, shared⟩
      rw [entries] at shared
      refine a.fork r (p := p) ⟨hp, empty, kept.acctFh, kept.itab, ?_, ?_, ?_, ?_, shared⟩
      · show (v.desk p).status = .live
        rw [kept.desk]
        simp only [Kernel.desk, put_same]
        rfl
      · show (v.desk p).wait = none
        rw [kept.desk]
        simp only [Kernel.desk, put_same]
        rfl
      · show (v.desk p).files = s.fds
        rw [kept.desk]
        simp only [Kernel.desk, put_same]
        rfl
      · intro q other
        show v.desk q = s.desk q
        rw [kept.desk]
        simp only [Kernel.desk, put_ne _ _ other]

end Fork

/-! ## execve -/

theorem steady_readImage (i offset count : Nat) : Steady (readImage i offset count) :=
  steady_of_quiet (quiet_readImage i offset count)

theorem steady_execBody (i : Nat) : Steady (execBody i) := steady_of_quiet (quiet_execBody i)

section Exec
variable {s t : Kernel}

theorem wp_closeOnExec : ∀ (n : Nat) (s : Kernel), OftAcc s [] → Running s →
    wp Tame (closeOnExec n) (fun _ t => OftAcc t [] ∧ Running t) s
  | 0, _, a, r => ⟨a, r⟩
  | j + 1, s, a, r => by
    unfold closeOnExec
    simp only [wp_bind, wp_get, wp_onlyIf, wp_discard]
    refine ⟨fun _ => ?_, fun _ => wp_closeOnExec j s a r⟩
    refine wp_mono (wp_doclose a r j) ?_
    rintro _ t ⟨acc, run, _⟩
    exact wp_closeOnExec j t acc run

theorem wp_execLoad (a : OftAcc s []) (r : Running s) (i : Nat) :
    wp Tame (execLoad i) (fun _ t => OftAcc t []) s := by
  unfold execLoad
  rw [wp_bind, wp_get, wp_bind]
  have ids : Steady (setIds (s.itab i).node) := steady_modifyU fun _ => rfl
  refine wp_mono (ids s) fun _ t kept => ?_
  rw [wp_bind]
  refine wp_mono (wp_closeOnExec UFTSIZE t (kept.acc a) (kept.running r)) ?_
  rintro _ v ⟨acc, _⟩
  have rest : Steady (do
      modifyU fun u => { u with cloexec := fun _ => false }
      execBody i) := Keeps.bind (steady_modifyU fun _ => rfl) fun _ => steady_execBody i
  exact wp_mono (rest v) fun _ w kept' => kept'.acc acc

theorem wp_execve (a : OftAcc s []) (r : Running s) (name : Path) (image : Image) :
    wp Tame (execve name image) (fun _ t => OftAcc t []) s := by
  have refuse : ∀ e i, Steady (do
      setError e
      iDeref i
      return (none : Option Nat)) := fun e i =>
    (steady_setError e).bind fun _ => (steady_iDeref i).bind fun _ => steady_pure _
  unfold execve
  rw [wp_bind]
  refine wp_mono (steady_nOpen name s) fun found t kept => ?_
  have a := kept.acc a
  have r := kept.running r
  cases found with
  | none => exact a
  | some i =>
    rw [wp_bind, wp_get]
    dsimp only
    rw [wp_ite]
    refine ⟨fun _ => ?_, fun _ => ?_⟩
    · exact wp_mono (refuse EACCES i t) fun _ v kept => kept.acc a
    · rw [wp_bind]
      refine wp_mono (steady_setftime i _ t) fun _ v kept => ?_
      rw [wp_bind]
      refine wp_mono (steady_readImage i 0 16 v) fun whole w kept' => ?_
      have a := (kept.trans kept').acc a
      have r := (kept.trans kept').running r
      rw [wp_ite]
      refine ⟨fun _ => ?_, fun _ => ?_⟩
      · rw [wp_ite]
        refine ⟨fun _ => wp_mono (refuse ENOEXEC i w) fun _ x kept => kept.acc a, fun _ => ?_⟩
        rw [wp_ite]
        refine ⟨fun _ => wp_mono (refuse ENOMEM i w) fun _ x kept => kept.acc a, fun _ => ?_⟩
        split
        · exact wp_mono (refuse _ i w) fun _ x kept => kept.acc a
        · rw [wp_bind]
          refine wp_mono (wp_execLoad a r i) fun _ x acc => ?_
          rw [wp_bind]
          exact wp_mono (steady_iDeref i x) fun _ y kept => kept.acc acc
      · exact wp_mono (refuse ENOEXEC i w) fun _ x kept => kept.acc a

end Exec

/-! ## exit -/

/-- Init ignores the death of children, and process `p` has one that is alive. -/
def orphansLive (s : Kernel) (p : Nat) : Prop :=
  p ≠ 0 ∧ (s.desk 0).ignoresChild = true ∧
    ∃ q, q < PTABSIZE ∧ q ≠ p ∧ (s.desk q).status = .live ∧ (s.desk q).parent = p

/-- Descriptors of the running process were closed, and nothing else about processes. -/
structure Closing (s t : Kernel) : Prop where
  acc : OftAcc t []
  run : Running t
  cur : t.cur = s.cur
  mine : t.desk s.cur = { s.desk s.cur with files := t.fds }
  others : ∀ q, q ≠ s.cur → t.desk q = s.desk q

section Exit
variable {s t u : Kernel}

theorem FilesKept.closing (h : FilesKept t u) (c : Closing s t) : Closing s u where
  acc := h.acc c.acc
  run := h.running c.run
  cur := h.cur.trans c.cur
  mine := by rw [h.desk, h.seated.fds]; exact c.mine
  others := fun q other => (h.desk q).trans (c.others q other)

theorem Closing.refl (a : OftAcc s []) (r : Running s) : Closing s s :=
  ⟨a, r, rfl, rfl, fun _ _ => rfl⟩

/-- The family of a process does not change while it closes its files. -/
theorem Closing.orphansLive (c : Closing s t) (h : orphansLive t t.cur) : orphansLive s s.cur := by
  have same : ∀ q, (t.desk q).ignoresChild = (s.desk q).ignoresChild ∧
      (t.desk q).status = (s.desk q).status ∧ (t.desk q).parent = (s.desk q).parent := by
    intro q
    by_cases here : q = s.cur
    · subst here
      rw [c.mine]
      exact ⟨rfl, rfl, rfl⟩
    · rw [c.others q here]
      exact ⟨rfl, rfl, rfl⟩
  obtain ⟨notInit, ignores, q, hq, other, live, child⟩ := h
  rw [c.cur] at notInit other child
  refine ⟨notInit, (same 0).1 ▸ ignores, q, hq, other, (same q).2.1 ▸ live, (same q).2.2 ▸ child⟩

theorem wp_closeAll (a : OftAcc s []) (r : Running s) : ∀ n, n ≤ UFTSIZE →
    wp Tame (closeAll n)
      (fun _ t => Closing s t ∧ ∀ j, j < n → t.fds j = NO_FILE) s
  | 0, _ => ⟨Closing.refl a r, fun _ hj => absurd hj (Nat.not_lt_zero _)⟩
  | n + 1, le => by
    unfold closeAll
    rw [wp_bind]
    refine wp_mono (wp_closeAll a r n (by omega)) ?_
    rintro _ t ⟨c, closed⟩
    simp only [wp_bind, wp_get, wp_ite]
    refine ⟨fun _ => ?_, fun free => ⟨c, fun j hj => ?_⟩⟩
    · refine wp_mono (wp_doclose c.acc c.run n) ?_
      rintro _ v ⟨acc, run, gone⟩
      have small : UFTSIZE ≤ 16 := Build.uftBound
      have same : n % 256 = n := Nat.mod_eq_of_lt (by omega)
      rw [same] at gone
      have gone := gone (by omega)
      refine ⟨⟨acc, run, gone.cur.trans c.cur, ?_, fun q other => ?_⟩, fun j hj => ?_⟩
      · have mine := gone.mine
        rw [gone.fds]
        rw [c.cur, c.mine] at mine
        exact mine
      · exact (gone.others q (c.cur ▸ other)).trans (c.others q other)
      · rw [gone.fds]
        by_cases here : j = n
        · rw [here]
          exact put_same _ _ _
        · rw [put_ne _ _ here]
          exact closed j (by omega)
    · by_cases here : j = n
      · rw [here]
        exact not_not.mp free
      · exact closed j (by omega)

theorem Desk.dead {d : Desk} (no : d.status ≠ .live) :
    (∀ k, d.names k = 0) ∧ d.booking = none ∧ d.transfer = none := by
  refine ⟨fun k => if_neg no, ?_⟩
  unfold Desk.booking Desk.transfer
  cases h : d.status with
  | live => exact absurd h no
  | empty => exact ⟨rfl, rfl⟩
  | zombie => exact ⟨rfl, rfl⟩

/-- Processes that are not alive name nothing, whatever their status is. -/
theorem OftAcc.restatus (a : OftAcc s []) (oftab : t.oftab = s.oftab)
    (acctFh : t.acctFh = s.acctFh) (itab : t.itab = s.itab)
    (files : ∀ q, (t.desk q).files = (s.desk q).files)
    (wait : ∀ q, (t.desk q).wait = (s.desk q).wait)
    (status : ∀ q, q < PTABSIZE → (t.desk q).status = (s.desk q).status ∨
      (t.desk q).status ≠ .live ∧ (s.desk q).status ≠ .live) : OftAcc t [] := by
  have live : ∀ q, q < PTABSIZE → ((t.desk q).status = .live ↔ (s.desk q).status = .live) := by
    intro q hq
    rcases status q hq with same | ⟨no, no'⟩
    · rw [same]
    · exact ⟨fun h => absurd h no, fun h => absurd h no'⟩
  have waits : ∀ q, q < PTABSIZE → (t.desk q).booking = (s.desk q).booking ∧
      (t.desk q).transfer = (s.desk q).transfer := by
    intro q hq
    rcases status q hq with same | ⟨no, no'⟩
    · simp only [Desk.booking, Desk.transfer, same, wait q, and_self]
    · rw [(Desk.dead no).2.1, (Desk.dead no).2.2, (Desk.dead no').2.1, (Desk.dead no').2.2]
      exact ⟨rfl, rfl⟩
  refine a.reseat oftab acctFh itab (fun q hq k _ => ?_)
    (fun q hq h => ⟨(live q hq).mp h, files q⟩) (fun q hq => (waits q hq).1)
    (fun q fd hq found => ?_)
  · simp only [Desk.names, live q hq, files q]
  · rw [(waits q hq).2] at found
    rw [files q]
    exact a.moving q fd hq found

/-- Handing children to init moves no descriptor. -/
theorem wp_orphan (c : Closing s t) (notInit : s.cur ≠ 0) (sound : ¬ orphansLive s s.cur) :
    wp Tame orphan (fun _ v => OftAcc v [] ∧ Running v ∧ v.fds = t.fds) t := by
  have sound : ¬ Fuzix.orphansLive t t.cur := fun h => sound (c.orphansLive h)
  unfold orphan
  rw [wp_modify]
  have mine : ¬ (decide (t.cur < PTABSIZE ∧ t.cur ≠ t.cur ∧ (t.ptab t.cur).status ≠ .empty ∧
      (t.ptab t.cur).parent = t.cur) = true) := by
    simp
  refine ⟨c.acc.restatus rfl rfl rfl (fun q => ?_) (fun q => ?_) (fun q _ => ?_),
    ⟨c.run.cur, ?_, ?_⟩, ?_⟩
  · simp only [Kernel.desk]
    split <;> rfl
  · simp only [Kernel.desk]
    split <;> rfl
  · simp only [Kernel.desk]
    split
    · rename_i isChild
      simp only [decide_eq_true_eq] at isChild
      obtain ⟨hq, other, -, parent⟩ := isChild
      by_cases ignores : (t.ptab 0).ignoresChild = true
      · refine Or.inr ⟨?_, fun live => sound ⟨c.cur ▸ notInit, ignores, q, hq, other, live, parent⟩⟩
        simp [Proc.desk, ignores]
      · exact Or.inl (if_neg ignores)
    · exact Or.inl rfl
  · simp only [Kernel.desk, if_neg mine]
    exact c.run.live
  · simp only [Kernel.desk, if_neg mine]
    exact c.run.awake
  · simp only [Kernel.fds, Kernel.desk, if_neg mine]

theorem wp_acctexit (a : OftAcc s []) (r : Running s) (record : List UInt8) :
    wp Tame (acctexit record)
      (fun _ t => OftAcc t [] ∧ Running t ∧ t.fds = s.fds) s := by
  unfold acctexit
  rw [wp_bind, wp_get]
  split
  · exact ⟨a, r, rfl⟩
  · rename_i k acct
    have entry := a.acct k acct
    rw [wp_bind]
    refine wp_getOft entry ?_
    split
    · exact Tame.null
    · rename_i i _
      rw [wp_bind]
      have counted : Steady (modifyU fun u => { u with count := record.length }) :=
        steady_modifyU fun _ => rfl
      refine wp_mono (counted s) fun _ t kept => ?_
      rw [wp_bind, wp_modifyOft]
      have a' := (kept.acc a).touch k (o := { t.oftab k with ptr := (s.itab i).node.size })
        rfl rfl rfl
      have write : Steady (do
          let _ ← writei i Access.kernel record
          pure ()) := (steady_of_quiet (quiet_writei i _ _)).bind fun _ => steady_pure _
      refine wp_mono (write _) fun _ v kept' => ⟨kept'.acc a', ?_, ?_⟩
      · have r' := kept.running r
        exact kept'.running ⟨r'.cur, r'.live, r'.awake⟩
      · rw [kept'.seated.fds]
        exact kept.seated.fds

/-- A process without descriptors leaves. -/
theorem wp_leave (a : OftAcc s []) (r : Running s) (closed : ∀ j, j < UFTSIZE →
    s.fds j = NO_FILE) : wp Tame leave (fun _ t => OftAcc t []) s := by
  have nothing : ∀ k, k < OFTSIZE → slots s.fds k = 0 := by
    intro k hk
    have bound := oftsize_lt_noFile
    refine (total_congr fun j hj => ?_).trans (total_zero UFTSIZE)
    rw [closed j hj]
    exact if_neg (by omega)
  unfold leave
  simp only [wp_bind, wp_get, wp_modifyProc]
  have gone : ∀ c : Prop, ∀ [Decidable c],
      (if c then Status.empty else Status.zombie) ≠ .live := by
    intro c _
    split <;> decide
  refine a.reseat rfl rfl rfl (fun q _ k hk => ?_) (fun q _ h => ?_) (fun q _ => ?_)
    (fun q fd hq found => ?_)
  · by_cases here : q = s.cur
    · subst here
      have before : (s.desk s.cur).names k = 0 := by
        rw [Desk.names, if_pos r.live]
        exact nothing k hk
      rw [before]
      simp only [Kernel.desk, put_same]
      exact (Desk.dead (gone _)).1 k
    · simp only [Kernel.desk, put_ne _ _ here]
  · by_cases here : q = s.cur
    · subst here
      simp only [Kernel.desk, put_same] at h
      exact absurd h (gone _)
    · simp only [Kernel.desk, put_ne _ _ here] at h ⊢
      exact ⟨h, trivial⟩
  · by_cases here : q = s.cur
    · subst here
      have before : (s.desk s.cur).booking = none := by
        simp [Desk.booking, r.awake]
      rw [before]
      simp only [Kernel.desk, put_same]
      exact (Desk.dead (gone _)).2.1
    · simp only [Kernel.desk, put_ne _ _ here]
  · by_cases here : q = s.cur
    · subst here
      simp only [Kernel.desk, put_same] at found
      rw [(Desk.dead (gone _)).2.2] at found
      cases found
    · simp only [Kernel.desk, put_ne _ _ here] at found ⊢
      exact a.moving q fd hq found

theorem wp_doexit (a : OftAcc s []) (r : Running s) (sound : ¬ orphansLive s s.cur)
    (record : List UInt8) : wp Tame (doexit record) (fun _ t => OftAcc t []) s := by
  unfold doexit
  rw [wp_bind, wp_get, wp_ite]
  refine ⟨fun _ => Tame.panic _, fun notInit => ?_⟩
  rw [wp_bind]
  refine wp_mono (steady_sync s) fun _ t kept₀ => ?_
  have start := kept₀.closing (Closing.refl a r)
  rw [wp_bind]
  refine wp_mono (wp_closeAll start.acc start.run UFTSIZE (Nat.le_refl _)) fun _ u closed => ?_
  obtain ⟨c, closed⟩ := closed
  have sound : ¬ orphansLive t t.cur := fun h => sound (start.orphansLive h)
  rw [wp_bind, wp_get, wp_bind]
  refine wp_mono (steady_iDeref _ u) fun _ v kept₁ => ?_
  rw [wp_bind]
  refine wp_mono (steady_iDeref _ v) fun _ w kept₂ => ?_
  have kept := kept₁.trans kept₂
  rw [wp_bind]
  refine wp_mono (wp_orphan (kept.closing c) (kept₀.cur ▸ notInit) sound) ?_
  rintro _ x ⟨acc, run, fds⟩
  rw [wp_bind]
  refine wp_mono (wp_acctexit acc run record) ?_
  rintro _ y ⟨acc, run, fds'⟩
  refine wp_leave acc run fun j hj => ?_
  rw [fds', fds, kept.seated.fds]
  exact closed j hj

theorem wp_reap (a : OftAcc s []) (p : Nat) :
    wp Tame (reap p) (fun _ t => OftAcc t []) s := by
  unfold reap
  simp only [wp_bind, wp_get, wp_ite, wp_modifyProc, wp_pure]
  refine ⟨?_, fun _ => a⟩
  rintro ⟨-, zombie, -⟩
  refine a.restatus rfl rfl rfl (fun q => ?_) (fun q => ?_) (fun q _ => ?_)
  · by_cases here : q = p
    · subst here
      simp only [Kernel.desk, put_same]
      rfl
    · simp only [Kernel.desk, put_ne _ _ here]
  · by_cases here : q = p
    · subst here
      simp only [Kernel.desk, put_same]
      rfl
    · simp only [Kernel.desk, put_ne _ _ here]
  · by_cases here : q = p
    · subst here
      right
      simp only [Kernel.desk, put_same, Proc.desk, zombie]
      decide
    · left
      simp only [Kernel.desk, put_ne _ _ here]

end Exit

/-! ## acct -/

/-- `_acct` takes descriptor `f`, of which it looks at the low byte first. -/
def acctAccepts (s : Kernel) (f : Nat) : Prop :=
  ∃ i, OpenOn s (f % 256) i ∧ fmt (s.itab i).node.mode = F_REG ∧ (s.itab i).rdonly = false

/-- `_acct` drops the reference of the accounting file before it looks at its
argument, and it keeps `acct_fh`: the count is right only if a new file takes its
place and the old entry is named elsewhere. -/
def acctSound (s : Kernel) (fd : Option Nat) : Prop :=
  configAcct = false ∨ super s = false ∨ s.acctFh = none ∨
    ∃ k f, s.acctFh = some k ∧ 2 ≤ (s.oftab k).refs ∧ fd = some f ∧ acctAccepts s f

/-- The state as if accounting were off. -/
def Kernel.unaccounted (s : Kernel) : Kernel := { s with acctFh := none }

section Acct
variable {s t : Kernel} {k : Nat}

theorem holders_unaccounted (s : Kernel) (j : Nat) :
    holders s j = holders s.unaccounted j + (if s.acctFh = some j then 1 else 0) := rfl

theorem uses_unaccounted {k : Nat} (acct : s.acctFh = some k)
    (inUse : holders s.unaccounted k ≠ 0) (shut i : Nat) :
    uses s shut i = uses s.unaccounted shut i := by
  funext j
  have count := holders_unaccounted s j
  have same : holders s j ≠ 0 ↔ holders s.unaccounted j ≠ 0 := by
    rw [acct] at count
    by_cases here : some k = some j
    · have here := Option.some.inj here
      subst here
      rw [if_pos rfl] at count
      exact ⟨fun _ => inUse, fun _ => by omega⟩
    · rw [if_neg here] at count
      rw [count]
      rfl
  unfold uses
  simp only [same]
  rfl

/-- The accounting file is one more holder of an entry in use. -/
theorem OftAcc.account (a : OftAcc s.unaccounted [k]) (acct : s.acctFh = some k)
    (hk : k < OFTSIZE) (inUse : holders s.unaccounted k ≠ 0) : OftAcc s [] where
  refs := fun j hj => by
    have before := a.refs j hj
    have count := holders_unaccounted s j
    rw [acct] at count
    show (s.oftab j).refs = holders s j + booked s.unaccounted j + 0
    by_cases here : k = j
    · subst here
      rw [if_pos rfl] at count
      rw [List.count_singleton_self] at before
      rw [count]
      exact before.trans (by omega)
    · rw [if_neg fun same => here (Option.some.inj same)] at count
      rw [List.count_cons_of_ne here] at before
      rw [count]
      exact before
  files := a.files
  acct := fun j same => by
    rw [acct] at same
    exact Option.some.inj same ▸ hk
  bookings := a.bookings
  moving := a.moving
  idle := a.idle
  used := fun j hj inUse' => by
    have count := holders_unaccounted s j
    rw [acct] at count
    by_cases here : k = j
    · exact here ▸ a.used k hk inUse
    · rw [if_neg fun same => here (Option.some.inj same)] at count
      exact a.used j hj (by omega)
  readers := fun i => by
    rw [readersOf, uses_unaccounted acct inUse]
    exact a.readers i
  writers := fun i => by
    rw [writersOf, uses_unaccounted acct inUse]
    exact a.writers i

theorem OftAcc.unaccount (a : OftAcc s []) (acct : s.acctFh = some k)
    (inUse : holders s.unaccounted k ≠ 0) : OftAcc s.unaccounted [k] where
  refs := fun j hj => by
    have after := a.refs j hj
    have count := holders_unaccounted s j
    rw [acct] at count
    show (s.oftab j).refs = holders s.unaccounted j + booked s j + _
    rw [List.count_nil] at after
    by_cases here : k = j
    · subst here
      rw [if_pos rfl] at count
      rw [List.count_singleton_self]
      omega
    · rw [if_neg fun same => here (Option.some.inj same)] at count
      rw [List.count_cons_of_ne here, List.count_nil]
      omega
  files := a.files
  acct := fun j no => by cases no
  bookings := a.bookings
  moving := a.moving
  idle := a.idle
  used := fun j hj inUse' => by
    have count := holders_unaccounted s j
    exact a.used j hj (by omega)
  readers := fun i => by
    rw [readersOf, ← uses_unaccounted acct inUse]
    exact a.readers i
  writers := fun i => by
    rw [writersOf, ← uses_unaccounted acct inUse]
    exact a.writers i

/-- The new accounting file takes the place of the old one. -/
theorem wp_acctOn {fd i : Nat} (a : OftAcc s.unaccounted []) (r : Running s)
    (o : OpenOn s fd i) :
    wp Tame (do
      let k ← oftOf fd
      setAcct (some k)
      let _ ← getOft k
      modifyOft k (fun o => { o with refs := (o.refs + 1) % 256 })
      return some 0) (fun _ t => OftAcc t []) s := by
  have r' : Running s.unaccounted := ⟨r.cur, r.live, r.awake⟩
  have inUse : holders s.unaccounted (s.fds fd) ≠ 0 := r'.holders o.slot
  have more := a.refs_succ r' o.entry inUse
  have shared := a.share o.entry inUse (o := { s.oftab (s.fds fd) with
    refs := ((s.oftab (s.fds fd)).refs + 1) % 256 }) more rfl rfl
  rw [wp_bind]
  refine wp_oftOf o.slot ?_
  rw [wp_bind, setAcct, wp_modify, wp_bind]
  refine wp_getOft o.entry ?_
  rw [wp_bind, wp_modifyOft, wp_pure]
  exact OftAcc.account shared rfl o.entry inUse

/-- Accounting was off. -/
theorem wp_acctFirst (a : OftAcc s []) (r : Running s) (off : s.acctFh = none)
    {fd : Option Nat} (fits : ∀ f, fd = some f → acctAccepts s f → Fits s f) :
    wp Tame (acctFile fd) (fun _ t => OftAcc t []) s := by
  unfold acctFile
  cases fd with
  | none => exact a
  | some f =>
    dsimp only
    rw [wp_bind]
    refine wp_mono (wp_and (wp_getinode s f) (wp_getinode_same s f)) ?_
    rintro found t ⟨⟨kept, opened, _⟩, same⟩
    have a := kept.acc a
    cases found with
    | none => exact a
    | some i =>
      obtain rfl := same (Option.some_ne_none i)
      simp only [wp_bind, wp_get, wp_ite]
      refine ⟨fun _ => ?_, fun regular => ⟨fun _ => ?_, fun writable => ?_⟩⟩
      · exact wp_mono (steady_setError EINVAL t) fun _ v kept => kept.acc a
      · exact wp_mono (steady_setError EROFS t) fun _ v kept => kept.acc a
      · have accepts : acctAccepts t f := ⟨i, opened i rfl, not_not.mp regular,
          Bool.eq_false_iff.mpr writable⟩
        obtain ⟨_, o⟩ := (fits f rfl accepts).slot kept.seated (opened i rfl)
        have off' : FilesKept t t.unaccounted :=
          ⟨rfl, (kept.acctFh.trans off).symm, rfl, fun _ => rfl, fun _ => rfl⟩
        simpa only [wp_bind] using wp_acctOn (off'.acc a) (kept.running r) o

/-- A new file takes the place of one that is still named elsewhere. -/
theorem wp_acctNext (a : OftAcc s []) (r : Running s) (acct : s.acctFh = some k)
    (two : 2 ≤ (s.oftab k).refs) {f : Nat} (accepts : acctAccepts s f) (fits : Fits s f) :
    wp Tame (oftDeref k) (fun _ t => wp Tame (acctFile (some f)) (fun _ u => OftAcc u []) t) s := by
  obtain ⟨i₀, isOpen, regular, writable⟩ := accepts
  have hk := a.acct k acct
  have small := a.refs_bound hk
  have less : ((s.oftab k).refs + 255) % 256 = (s.oftab k).refs - 1 := by omega
  have inUse : holders s.unaccounted k ≠ 0 := by
    have sum := a.refs k hk
    have count := holders_unaccounted s k
    rw [if_pos acct] at count
    rw [List.count_nil] at sum
    have alone : booked s k = 0 := by
      by_contra some_booked
      have one := (a.booked_alone some_booked).2.1
      omega
    omega
  have inode_eq : ∀ j, (put s.oftab k { s.oftab k with
      refs := ((s.oftab k).refs + 255) % 256 } j).inode = (s.oftab j).inode :=
    fun j => put_fixed rfl
  refine wp_oftDeref_plain (Or.inl (by omega)) ?_
  have dropped : OftAcc { s.unaccounted with oftab := put s.oftab k { s.oftab k with
      refs := ((s.oftab k).refs + 255) % 256 } } [] := by
    refine (a.unaccount acct inUse).drop hk less ?_ rfl
    exact (if_neg (by dsimp only; omega)).symm
  unfold acctFile
  dsimp only
  rw [wp_bind]
  refine wp_mono (wp_and (wp_getinode _ f) (wp_getinode_same _ f)) ?_
  rintro found t ⟨⟨kept, opened, closed⟩, same⟩
  cases found with
  | none =>
    rcases closed rfl with out | free
    · exact absurd isOpen.slot (Nat.not_lt.mpr out)
    · exact absurd free isOpen.isOpen
  | some i =>
    obtain rfl := same (Option.some_ne_none i)
    have seat : Seated s { s with oftab := put s.oftab k { s.oftab k with
        refs := ((s.oftab k).refs + 255) % 256 } } := ⟨rfl, rfl, fun _ => rfl⟩
    obtain ⟨_, o⟩ := fits.slot seat (opened i rfl)
    have found : some i₀ = some i :=
      isOpen.inode.symm.trans ((inode_eq _).symm.trans (opened i rfl).inode)
    obtain rfl := Option.some.inj found
    simp only [wp_bind, wp_get, wp_ite]
    refine ⟨fun no => absurd regular no, fun _ => ⟨fun no => ?_, fun _ => ?_⟩⟩
    · rw [writable] at no
      cases no
    · have run : Running { s with oftab := put s.oftab k { s.oftab k with
          refs := ((s.oftab k).refs + 255) % 256 } } := ⟨r.cur, r.live, r.awake⟩
      simpa only [wp_bind] using wp_acctOn dropped run o

theorem wp_acct (a : OftAcc s []) (r : Running s) {fd : Option Nat}
    (sound : acctSound s fd) (fits : ∀ f, fd = some f → acctAccepts s f → Fits s f) :
    wp Tame (acct fd) (fun _ t => OftAcc t []) s := by
  unfold acct
  rw [wp_ite]
  refine ⟨fun _ => ?_, fun config => ?_⟩
  · rw [wp_bind]
    exact wp_mono (steady_setError EINVAL s) fun _ t kept => kept.acc a
  · unfold esuper
    simp only [wp_bind, wp_get, wp_ite, wp_pure]
    refine ⟨fun root => ?_, fun _ => ?_⟩
    · refine ⟨fun no => absurd no Bool.false_ne_true, fun _ => ?_⟩
      have super : Fuzix.super s = true := by
        simpa only [Fuzix.super, decide_eq_true_eq] using root
      rcases sound with off | user | none_yet | ⟨k, f, acct, two, rfl, accepts⟩
      · exact absurd off config
      · rw [super] at user
        cases user
      · rw [none_yet]
        refine wp_acctFirst a r none_yet fits
      · rw [acct]
        exact wp_acctNext a r acct two accepts (fits f rfl accepts)
    · exact wp_mono (steady_setError EPERM s) fun _ t kept => by simpa using kept.acc a

end Acct

end Fuzix
