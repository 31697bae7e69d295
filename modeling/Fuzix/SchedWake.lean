import Fuzix.SchedCount

/-!
# Sleeping with a signal to catch

A signal that a process catches and does not hold wakes it up if it is asleep, so none
is left when it sleeps. One that was there before `psleep` is taken by `chksigs` in
`switchout`, which leaves the process asleep.
-/

set_option linter.unusedSectionVars false

namespace Sched

open Table Run

section Machine

variable [Machine]

/-! ## Signals to catch -/

/-- A signal that the process catches is pending and not held, or taken already. -/
def due (q : Proc) : Prop :=
  q.cursig ≠ 0 ∨ ∃ j, 0 < j ∧ j < NSIGS ∧ unheld q j = true ∧ q.sigvec j = .handler

/-- A pending signal that stops or kills the process. -/
def fatal (q : Proc) (i : Nat) : Prop :=
  unheld q i = true ∧ q.sigvec i = .dfl ∧ (stopper i = true ∨ clear i = false ∧ q.pid ≠ 1)

/-- A signal was taken, or the first one that matters is one the process catches. -/
def oversleeps (q : Proc) : Prop :=
  q.cursig ≠ 0 ∨ ∃ j, 0 < j ∧ j < NSIGS ∧ unheld q j = true ∧ q.sigvec j = .handler ∧
    ∀ i, 0 < i → i < j → ¬ fatal q i

section Scan
variable (q : Proc) (pending : Mask)

theorem scan_left : ∀ n j left i, (scan q pending 0 n j left).2 i = true → left i = true := by
  intro n
  have cleared : ∀ (left : Mask) j i, put left j false i = true → left i = true := by
    intro left j i still
    by_cases here : i = j
    · rw [here, put_same] at still
      cases still
    · rwa [put_ne _ _ here] at still
  induction n with
  | zero =>
    intro j left i still
    exact still
  | succ n ih =>
    intro j left i still
    unfold scan at still
    split at still
    · exact ih _ _ _ still
    · split at still
      · split at still
        · exact cleared left j i still
        · split at still
          · exact cleared left j i (ih _ _ _ still)
          · exact cleared left j i still
      · exact cleared left j i still
      · exact ih _ _ _ still

/-- When the loop ends it has seen no signal that is caught. -/
theorem scan_nothing : ∀ n j left, (scan q pending 0 n j left).1 = .nothing →
    ∀ i, j ≤ i → i < j + n → pending i = true → disposition q i ≠ .handler := by
  intro n
  induction n with
  | zero =>
    intro j left _ i low high
    omega
  | succ n ih =>
    intro j left none i low high there
    unfold scan at none
    rw [Nat.zero_add] at none
    by_cases here : i = j
    · subst here
      rw [if_neg (by rw [there]; intro no; cases no)] at none
      intro caught
      rw [caught] at none
      cases none
    · have later : j + 1 ≤ i := by omega
      split at none
      · exact ih _ _ none i later (by omega) there
      · split at none
        · split at none
          · cases none
          · split at none
            · exact ih _ _ none i later (by omega) there
            · cases none
        · cases none
        · exact ih _ _ none i later (by omega) there

/-- A signal that is caught comes before all that stop or kill. -/
theorem scan_caught : ∀ n j left k, (scan q pending 0 n j left).1 = .caught k →
    j ≤ k ∧ k < j + n ∧ pending k = true ∧ disposition q k = .handler ∧
    ∀ i, j ≤ i → i < k → pending i = true → disposition q i = .dfl →
      stopper i = false ∧ (clear i = true ∨ q.pid = 1) := by
  intro n
  induction n with
  | zero =>
    intro j left k no
    cases no
  | succ n ih =>
    intro j left k caught
    unfold scan at caught
    rw [Nat.zero_add] at caught
    -- what the rest of the loop says, and what signal `j` adds
    have rest : ∀ left', (scan q pending 0 n (j + 1) left').1 = .caught k →
        (pending j = true → disposition q j = .dfl →
          stopper j = false ∧ (clear j = true ∨ q.pid = 1)) →
        j ≤ k ∧ k < j + (n + 1) ∧ pending k = true ∧ disposition q k = .handler ∧
        ∀ i, j ≤ i → i < k → pending i = true → disposition q i = .dfl →
          stopper i = false ∧ (clear i = true ∨ q.pid = 1) := by
      intro left' more this
      obtain ⟨low, high, there, handler, before⟩ := ih (j + 1) left' k more
      refine ⟨by omega, by omega, there, handler, ?_⟩
      intro i lowI highI
      by_cases here : i = j
      · rw [here]
        exact this
      · exact before i (by omega) highI
    split at caught
    · rename_i absent
      refine rest _ caught ?_
      rw [absent]
      intro no
      cases no
    · rename_i there
      rw [Bool.not_eq_false] at there
      split at caught
      · split at caught
        · cases caught
        · rename_i notStopper
          split at caught
          · rename_i harmless
            exact rest _ caught fun _ _ => ⟨Bool.eq_false_of_not_eq_true notStopper, harmless⟩
          · cases caught
      · rename_i handler
        injection caught with same
        subst same
        exact ⟨Nat.le_refl _, by omega, there, handler, by omega⟩
      · rename_i ignored
        refine rest _ caught ?_
        rw [ignored]
        intro _ no
        cases no

end Scan

/-! ## What interrupts do -/

/-- A process that sleeps has not heard of a signal that it catches. -/
structure Hears (q r : Proc) : Prop where
  asleep : r.status = .sleep → q.status = .sleep
  due : r.status = .sleep → due r → due q

structure Heeds (s t : State) : Prop where
  proc : ∀ p, Hears (s.ptab p) (t.ptab p)
  cur : t.cur = s.cur
  phase : t.phase = s.phase

section Steps
variable {s t : State} {p : Nat} {f : Proc → Proc}

theorem Hears.refl (q : Proc) : Hears q q := ⟨id, fun _ => id⟩

theorem Hears.trans {q r u : Proc} (h : Hears q r) (k : Hears r u) : Hears q u where
  asleep := fun now => h.asleep (k.asleep now)
  due := fun now there => h.due (k.asleep now) (k.due now there)

/-- A process that does not sleep afterwards. -/
theorem Hears.awake {q r : Proc} (awake : r.status ≠ .sleep) : Hears q r where
  asleep := fun now => absurd now awake
  due := fun now => absurd now awake

/-- No signal comes that is not held. -/
theorem Hears.less {q r : Proc} (status : r.status = q.status) (cursig : r.cursig = q.cursig)
    (sigvec : r.sigvec = q.sigvec)
    (pending : ∀ j, unheld r j = true → unheld q j = true) : Hears q r where
  asleep := fun now => status ▸ now
  due := by
    rintro _ (taken | ⟨j, low, high, there, handler⟩)
    · rw [cursig] at taken
      exact Or.inl taken
    · rw [sigvec] at handler
      exact Or.inr ⟨j, low, high, pending j there, handler⟩

theorem Heeds.refl (s : State) : Heeds s s := ⟨fun _ => Hears.refl _, rfl, rfl⟩

theorem Heeds.trans {u : State} (h : Heeds s t) (k : Heeds t u) : Heeds s u where
  proc := fun p => (h.proc p).trans (k.proc p)
  cur := k.cur.trans h.cur
  phase := k.phase.trans h.phase

theorem heeds_modify (same : Hears (s.ptab p) (f (s.ptab p))) : Heeds s (modifyProc s p f) where
  proc := fun j => by
    by_cases here : j = p
    · rw [here, modifyProc_same]
      exact same
    · rw [modifyProc_other here]
      exact Hears.refl _
  cur := rfl
  phase := rfl

/-- The counter does not matter. -/
theorem heeds_more (same : Hears (s.ptab p) (f (s.ptab p))) :
    Heeds s (modifyProc s.more p f) :=
  ⟨(heeds_modify same).proc, rfl, rfl⟩

theorem heeds_pwake (s : State) (p : Nat) : Heeds s (pwake s p) := by
  unfold pwake
  split
  · exact heeds_more (Hears.awake (fun no => by cases no))
  · exact heeds_modify (Hears.less rfl rfl rfl fun _ => id)
  · exact Heeds.refl s

theorem heeds_wakeup (event : Nat) (s : State) : Heeds s (wakeup event s) := by
  refine forProcs_keeps Heeds.refl (fun _ _ _ => Heeds.trans) ?_ s PTABSIZE (Nat.le_refl _)
  intro s p _
  split
  · exact heeds_pwake s p
  · exact Heeds.refl s

theorem heeds_cont (s : State) (p : Nat) : Heeds s (cont s p) := by
  unfold cont
  dsimp only
  have first : Heeds s (if (s.ptab p).status = .stopped
      then modifyProc s.more p (fun q => { q with status := .ready, event := 0 }) else s) := by
    split
    · exact heeds_more (Hears.awake (fun no => by cases no))
    · exact Heeds.refl s
  refine first.trans (heeds_modify (Hears.less rfl rfl rfl ?_))
  intro j there
  simp only [unheld, Bool.and_eq_true] at there ⊢
  exact ⟨there.1.1, there.2⟩

theorem heeds_rouse (s : State) (p : Nat) : Heeds s (rouse s p) ∧
    ((rouse s p).ptab p).status ≠ .sleep := by
  unfold rouse
  dsimp only
  rw [modifyProc_same]
  have last : ∀ u : State, Heeds u (modifyProc u p fun q => { q with wait := 0 }) := fun u =>
    heeds_modify (Hears.less rfl rfl rfl fun _ => id)
  split
  · have woken : Heeds s (setStatus s.more p .ready) := heeds_more (Hears.awake (fun no => by cases no))
    refine ⟨woken.trans (last _), ?_⟩
    have entry : (setStatus s.more p .ready).ptab p = { s.ptab p with status := .ready } :=
      put_same _ _ _
    rw [entry]
    intro no
    cases no
  · rename_i awake
    exact ⟨last s, awake⟩

/-- A signal that is not held ends a sleep before it is pending. -/
theorem heeds_ssig (s : State) (p sig : Nat) : Heeds s (ssig s p sig) := by
  unfold ssig
  split
  · exact Heeds.refl s
  · dsimp only
    have first : Heeds s (if sig = SIGCONT then cont s p else s) := by
      split
      · exact heeds_cont s p
      · exact Heeds.refl s
    generalize (if sig = SIGCONT then cont s p else s) = t at first ⊢
    have second : Heeds t (if SIGSTOP ≤ sig ∧ sig ≤ SIGTTOU
        then modifyProc t p (fun q => { q with pending := put q.pending SIGCONT false })
        else t) := by
      split
      · refine heeds_modify (Hears.less rfl rfl rfl ?_)
        intro j there
        simp only [unheld, Bool.and_eq_true] at there ⊢
        refine ⟨?_, there.2⟩
        by_cases here : j = SIGCONT
        · rw [here, put_same] at there
          cases there.1
        · rw [put_ne _ _ here] at there
          exact there.1
      · exact Heeds.refl t
    generalize (if SIGSTOP ≤ sig ∧ sig ≤ SIGTTOU
        then modifyProc t p (fun q => { q with pending := put q.pending SIGCONT false })
        else t) = u at second ⊢
    have before := first.trans second
    split
    · exact before
    · by_cases held : (u.ptab p).held sig = true
      · rw [if_pos held]
        refine before.trans (heeds_modify (Hears.less rfl rfl rfl ?_))
        intro j there
        simp only [unheld, Bool.and_eq_true, Bool.not_eq_true'] at there ⊢
        refine ⟨?_, there.2⟩
        by_cases here : j = sig
        · rw [here, held] at there
          cases there.2
        · rw [put_ne _ _ here] at there
          exact there.1
      · rw [if_neg held]
        obtain ⟨roused, awake⟩ := heeds_rouse u p
        exact (before.trans roused).trans (heeds_modify (Hears.awake awake))

theorem heeds_leaveFamily (hp : p < PTABSIZE) (s : State) : Heeds s (leaveFamily s p) := by
  refine leaveFamily_keeps Heeds.refl (fun _ _ _ => Heeds.trans) ?_ ?_ ?_ ?_ ?_ hp s
  · intro s p sig _
    exact heeds_ssig s p sig
  · intro s event
    exact heeds_wakeup event s
  · intro s p
    exact heeds_modify (Hears.less rfl rfl rfl fun _ => id)
  · intro s p
    exact heeds_modify (Hears.less rfl rfl rfl fun _ => id)
  · intro s p
    exact heeds_modify (Hears.awake (fun no => by cases no))

/-! ## What a step keeps -/

/-- No process sleeps with a signal to catch, up to one that has not come to `chksigs`
yet. -/
structure Heard (s : State) : Prop where
  others : ∀ p, p ≠ s.cur → (s.ptab p).status = .sleep → ¬ due (s.ptab p)
  me : s.me.status = .sleep → s.phase = .switchout ∨ s.phase = .getproc ∧ ¬ due s.me

theorem Heeds.heard (h : Heeds s t) (a : Heard s) : Heard t where
  others := fun p other asleep there => by
    rw [h.cur] at other
    exact a.others p other ((h.proc p).asleep asleep) ((h.proc p).due asleep there)
  me := fun asleep => by
    unfold State.me at asleep ⊢
    rw [h.cur] at asleep ⊢
    rw [h.phase]
    rcases a.me ((h.proc s.cur).asleep asleep) with out | ⟨choosing, quiet⟩
    · exact Or.inl out
    · exact Or.inr ⟨choosing, fun there => quiet ((h.proc s.cur).due asleep there)⟩

/-- The process that was the current one and the one that is now do not sleep, or have
nothing to catch. -/
theorem Heard.turn {q : Proc} {f : Nat → Proc} (others : ∀ j, j ≠ t.cur →
      (f j).status = .sleep → ¬ due (f j))
    (entry : t.ptab = put f t.cur q)
    (me : q.status = .sleep → t.phase = .switchout ∨ t.phase = .getproc ∧ ¬ due q) : Heard t where
  others := fun j other asleep => by
    rw [entry, put_ne _ _ other] at asleep ⊢
    exact others j other asleep
  me := fun asleep => by
    unfold State.me at asleep ⊢
    rw [entry, put_same] at asleep ⊢
    exact me asleep

theorem Heard.own {q : Proc} (a : Heard s) (ptab : t.ptab = put s.ptab s.cur q)
    (cur : t.cur = s.cur)
    (me : q.status = .sleep → t.phase = .switchout ∨ t.phase = .getproc ∧ ¬ due q) : Heard t := by
  refine Heard.turn (f := s.ptab) ?_ (by rw [cur]; exact ptab) me
  rw [cur]
  exact a.others

theorem disposition_low {q : Proc} {j : Nat} (high : j < NSIGS) : disposition q j = q.sigvec j :=
  if_pos high

theorem Heard.leaveChksigs (a : Heard s)
    (quiet : s.me.status = .sleep → ¬ due s.me ∧ ∃ rest, s.me.frames = .switch :: rest) :
    Heard (leaveChksigs s) := by
  unfold Sched.leaveChksigs
  split
  · rename_i rest frames
    refine a.own (q := { s.me with frames := rest }) rfl rfl ?_
    intro asleep
    exact Or.inr ⟨rfl, (quiet asleep).1⟩
  · rename_i none
    refine ⟨a.others, ?_⟩
    intro asleep
    obtain ⟨_, rest, frames⟩ := quiet asleep
    exact absurd frames (none rest)

/-- The signals of the process are taken; if it is on the way to sleep it must have none to
catch. -/
theorem Heard.chksigs (a : Heard s) (pending : Mask) (svec : Nat)
    (quiet : s.me.status = .sleep → svec = 0 ∧ pending = unheld s.me ∧
      (∃ rest, s.me.frames = .switch :: rest) ∧ ¬ oversleeps s.me) :
    Heard (chksigs s pending svec) := by
  unfold Sched.chksigs
  split
  · rename_i done
    refine a.leaveChksigs fun asleep => ?_
    obtain ⟨_, mask, top, sound⟩ := quiet asleep
    refine ⟨?_, top⟩
    rintro (taken | ⟨j, low, high, there, handler⟩)
    · exact sound (Or.inl taken)
    · rcases done with taken | none | stopped
      · exact sound (Or.inl taken)
      · have all := List.all_eq_true.mp none j (List.mem_range.mpr high)
        rw [mask, there] at all
        cases all
      · rw [asleep] at stopped
        cases stopped
  · rename_i taking
    push Not at taking
    obtain ⟨cursig, _, _⟩ := taking
    -- what the loop found, if the process is on the way to sleep
    have heard : s.me.status = .sleep →
        (∀ i, (scan s.me pending svec (NSIGS - 1) 1 s.me.pending).2 i = true →
          s.me.pending i = true) ∧
        ((scan s.me pending svec (NSIGS - 1) 1 s.me.pending).1 = .nothing → ¬ due s.me) ∧
        ∀ j, (scan s.me pending svec (NSIGS - 1) 1 s.me.pending).1 ≠ .caught j := by
      intro asleep
      obtain ⟨first, mask, _, sound⟩ := quiet asleep
      subst first mask
      refine ⟨scan_left _ _ _ _ _, ?_, ?_⟩
      · rintro none (taken | ⟨j, low, high, there, handler⟩)
        · exact taken cursig
        · refine scan_nothing _ _ _ _ _ none j low (by unfold NSIGS at high ⊢; omega) there ?_
          rw [disposition_low high]
          exact handler
      · intro j caught
        obtain ⟨low, high, there, handler, before⟩ := scan_caught _ _ _ _ _ _ caught
        have high : j < NSIGS := by
          unfold NSIGS at high ⊢
          omega
        rw [disposition_low high] at handler
        refine sound (Or.inr ⟨j, low, high, there, handler, ?_⟩)
        rintro i low' below ⟨pend, dfl, stops⟩
        rw [← disposition_low (Nat.lt_trans below high)] at dfl
        obtain ⟨notStopper, harmless⟩ := before i low' below pend dfl
        rcases stops with stops | ⟨notClear, notInit⟩
        · rw [notStopper] at stops
          cases stops
        · rcases harmless with clears | init
          · rw [notClear] at clears
            cases clears
          · exact notInit init
    generalize scan s.me pending svec (NSIGS - 1) 1 s.me.pending = found at heard
    obtain ⟨verdict, mask⟩ := found
    have me := modifyProc_me s fun q => { q with pending := mask }
    have taken : Hears s.me { s.me with pending := mask } := by
      by_cases asleep : s.me.status = .sleep
      · refine Hears.less rfl rfl rfl ?_
        intro j there
        simp only [unheld, Bool.and_eq_true] at there ⊢
        exact ⟨(heard asleep).1 j there.1, there.2⟩
      · exact Hears.awake asleep
    have kept : Heard (modifyProc s s.cur fun q => { q with pending := mask }) :=
      (heeds_modify (f := fun q => { q with pending := mask }) taken).heard a
    dsimp only
    generalize (modifyProc s s.cur fun q => { q with pending := mask }) = u at kept me
    have status : u.me.status = s.me.status := by rw [me]
    have frames : u.me.frames = s.me.frames := by rw [me]
    cases verdict with
    | nothing =>
      refine kept.leaveChksigs fun asleep => ?_
      have was := status.symm.trans asleep
      rw [frames]
      refine ⟨fun there => (heard was).2.1 rfl ?_, (quiet was).2.2.1⟩
      rw [me] at there
      exact taken.due was there
    | caught j =>
      have now := modifyProc_me u fun q => { q with cursig := j }
      have awake : u.me.status ≠ .sleep := fun asleep =>
        (heard (status.symm.trans asleep)).2.2 j rfl
      have noted : Hears u.me { u.me with cursig := j } := Hears.awake awake
      refine ((heeds_modify (f := fun q => { q with cursig := j }) noted).heard kept).leaveChksigs ?_
      rw [now]
      intro asleep
      exact absurd asleep awake
    | stop j => exact kept.own (q := { u.me with
          status := .stopped
          event := j
          frames := .rescan pending (svec + j) :: u.me.frames }) rfl rfl (fun no => by cases no)
    | kill j =>
      dsimp only
      split
      · exact kept.own (q := { u.me with status := .running }) rfl rfl (fun no => by cases no)
      · rename_i awake
        exact ⟨kept.others, fun asleep => absurd asleep awake⟩

/-- The process went to sleep with a signal to catch. -/
def sleepsThrough (s : State) : Prop :=
  s.phase = .switchout ∧ s.me.status = .sleep ∧ oversleeps s.me

theorem Heard.switchout (a : Heard s) (here : s.phase = .switchout) (sound : ¬ sleepsThrough s) :
    Heard (switchout s) := by
  have me := modifyProc_me s fun q => { q with frames := .switch :: q.frames }
  have called : Heard (modifyProc s s.cur fun q => { q with frames := .switch :: q.frames }) :=
    a.own (q := { s.me with frames := .switch :: s.me.frames }) rfl rfl fun _ => Or.inl here
  unfold Sched.switchout
  refine called.chksigs _ 0 ?_
  rw [me]
  intro asleep
  refine ⟨rfl, rfl, ⟨_, rfl⟩, ?_⟩
  intro bad
  exact sound ⟨here, asleep, bad⟩

/-- A process that does not sleep takes its signals. -/
theorem Heard.awake (a : Heard s) (awake : s.me.status ≠ .sleep) (pending : Mask) (svec : Nat) :
    Heard (Sched.chksigs s pending svec) :=
  a.chksigs pending svec fun asleep => absurd asleep awake

theorem Heard.getproc (a : Heard s) (here : s.phase = .getproc) (run : getproc s = .ok t) :
    Heard t := by
  have all : ∀ j, (s.ptab j).status = .sleep → ¬ due (s.ptab j) := by
    intro j asleep
    by_cases me : j = s.cur
    · rw [me] at asleep ⊢
      rcases a.me asleep with no | ⟨_, quiet⟩
      · rw [here] at no
        cases no
      · exact quiet
    · exact a.others j me asleep
  rcases getproc_cases run with ⟨p, rfl⟩ | ⟨p, _, _, rfl⟩
  · exact ⟨a.others, fun asleep => Or.inr ⟨here, all s.cur asleep⟩⟩
  · have chosen : Heard (setStatus { s with nextp := p, cur := p } p .running) :=
      Heard.turn (q := { s.ptab p with status := .running }) (fun j _ => all j) rfl (fun no => by cases no)
    have me : (setStatus { s with nextp := p, cur := p } p .running).ptab p =
        { s.ptab p with status := .running } := put_same _ _ _
    unfold switchin
    dsimp only
    rw [me]
    split
    · rename_i rest _
      exact chosen.own (q := { (setStatus { s with nextp := p, cur := p } p .running).ptab p with
        frames := rest }) rfl rfl (by rw [me]; intro no; cases no)
    · refine ⟨chosen.others, ?_⟩
      intro asleep
      have running : ((setStatus { s with nextp := p, cur := p } p .running).ptab p).status =
          .sleep := asleep
      rw [me] at running
      cases running

theorem Heard.doexit (a : Heard s) (here : s.phase = .doexit) (run : doexit s = .ok t) :
    Heard t := by
  have awake : s.me.status ≠ .sleep := by
    intro asleep
    rcases a.me asleep with no | ⟨no, _⟩
    · rw [here] at no
      cases no
    · rw [here] at no
      cases no
  unfold Sched.doexit at run
  split at run
  · cases run
  · injection run with run
    subst run
    have first : Heeds s (modifyProc s s.cur fun q => { q with
        held := fun _ => true
        cursig := 0 }) := heeds_modify (Hears.awake awake)
    have rounds := first.trans (forProcs_keeps Heeds.refl (fun _ _ _ => Heeds.trans)
      (fun s p hp => heeds_leaveFamily hp s) (modifyProc s s.cur fun q => { q with
        held := fun _ => true
        cursig := 0 }) PTABSIZE (Nat.le_refl _))
    have cur := rounds.cur
    have hears := rounds.proc s.cur
    have kept := rounds.heard a
    generalize forProcs leaveFamily PTABSIZE (modifyProc s s.cur fun q => { q with
        held := fun _ => true
        cursig := 0 }) = u at cur hears kept
    refine ⟨kept.others, fun asleep => ?_⟩
    replace asleep : (u.ptab u.cur).status = .sleep := asleep
    rw [cur] at asleep
    exact absurd (hears.asleep asleep) awake

theorem Heard.endProcess (a : Heard s) : Heard (endProcess s) := by
  unfold Sched.endProcess
  dsimp only
  split
  · exact a.own (q := { s.me with status := .empty }) rfl rfl (fun no => by cases no)
  · have told : Heeds s (wakeup (ptabEvent s.me.parent) (ssig s s.me.parent SIGCHLD)) :=
      (heeds_ssig s s.me.parent SIGCHLD).trans (heeds_wakeup _ _)
    have cur := told.cur
    have kept := told.heard a
    generalize wakeup (ptabEvent s.me.parent) (ssig s s.me.parent SIGCHLD) = u at cur kept ⊢
    rw [← cur]
    exact kept.own (q := { u.me with status := .zombie }) rfl rfl (fun no => by cases no)

end Steps

/-! ## Runs -/

/-- No process goes on to sleep in `switchout` with a signal to catch. -/
def Action.wakeSound (s : State) : Action → Prop
  | .go => ¬ sleepsThrough s
  | _ => True

def Action.wakeStep (s : State) (a : Action) (t : State) : Prop :=
  a.wakeSound s ∧ a.step s t

section Runs
variable {s t : State}

theorem Heard.home (a : Heard s) (out : s.phase ≠ .switchout) (away : s.phase ≠ .getproc) :
    s.me.status ≠ .sleep := by
  intro asleep
  rcases a.me asleep with no | ⟨no, _⟩
  · exact out no
  · exact away no

theorem Heard.user (a : Heard s) (here : s.phase = .user) : s.me.status ≠ .sleep := by
  refine a.home ?_ ?_
  · rw [here]
    intro no
    cases no
  · rw [here]
    intro no
    cases no

theorem Heard.advance (a : Heard s) (sound : ¬ sleepsThrough s) (run : advance s = .ok t) :
    Heard t := by
  unfold Sched.advance at run
  split at run
  · rename_i here
    injection run with run
    subst run
    exact a.switchout here sound
  · rename_i pending svec here
    injection run with run
    subst run
    refine a.awake (a.home ?_ ?_) pending svec
    · rw [here]
      intro no
      cases no
    · rw [here]
      intro no
      cases no
  · rename_i here
    exact a.getproc here run
  · rename_i here
    exact a.doexit here run
  · injection run with run
    subst run
    exact a.endProcess
  · injection run with run
    subst run
    exact a

theorem Heard.fork (a : Heard s) (here : s.phase = .user) {pid : Nat} {memory copied : Bool} :
    Heard (fork pid memory copied s) := by
  have awake := a.user here
  have freed : ∀ (p : Nat) (q : Proc), q.status = .empty →
      Heard (modifyProc s p fun _ => q) := by
    intro p q gone
    refine (heeds_modify (Hears.awake ?_)).heard a
    rw [gone]
    intro no
    cases no
  unfold Sched.fork
  split
  · exact a
  · rename_i p _
    dsimp only
    split
    · exact freed p _ rfl
    · split
      · have woken : Heeds s (setStatus s s.cur .ready) := heeds_modify (Hears.awake (fun no => by cases no))
        have parent := woken.heard a
        refine Heard.turn (q := newproc (blank pid s.me.pgrp) s.me s.cur)
          (f := (setStatus s s.cur .ready).ptab) ?_ rfl (fun no => by cases no)
        intro j _ asleep
        by_cases me : j = s.cur
        · have entry : (setStatus s s.cur .ready).ptab j = { s.me with status := .ready } := by
            rw [me]
            exact put_same _ _ _
          rw [entry] at asleep
          cases asleep
        · exact parent.others j me asleep
      · have same : Heard (modifyProc s p fun _ => blank pid s.me.pgrp) := freed p _ rfl
        exact ⟨same.others, same.me⟩

theorem Heard.step (a : Heard s) {act : Action} (step : act.wakeStep s t) : Heard t := by
  obtain ⟨sound, enabled, run⟩ := step
  -- the process changes something of its own and does not sleep
  have own : ∀ f : Proc → Proc, s.phase = .user → (f s.me).status = s.me.status →
      Heard (modifyProc s s.cur f) := by
    intro f here status
    refine (heeds_modify (Hears.awake ?_)).heard a
    exact status ▸ a.user here
  cases act with
  | psleep event =>
    replace run : psleep event s = .ok t := run
    have asleep : ∀ u : State, Heard u → Heard { modifyProc u.less u.cur (fun q => { q with
        status := .sleep
        wait := event }) with phase := .switchout } := fun u kept =>
      kept.own (q := { u.me with status := .sleep, wait := event }) rfl rfl fun _ => Or.inl rfl
    unfold psleep at run
    dsimp only at run
    split at run
    · injection run with run
      subst run
      exact asleep s.more ⟨a.others, a.me⟩
    · injection run with run
      subst run
      exact asleep s.more ⟨a.others, a.me⟩
    · injection run with run
      subst run
      exact asleep s a
    · cases run
  | schedYield =>
    injection run with run
    subst run
    unfold schedYield
    split
    · exact ⟨a.others, fun asleep => absurd asleep (a.user enabled)⟩
    · exact a
  | preempt =>
    injection run with run
    subst run
    unfold preempt
    split
    · exact a.own (q := { s.me with status := .ready }) rfl rfl (fun no => by cases no)
    · exact a
  | chksigs =>
    injection run with run
    subst run
    exact a.awake (a.user enabled) _ 0
  | deliver =>
    injection run with run
    subst run
    refine own callHandler enabled ?_
    unfold callHandler
    split <;> rfl
  | signal sig func =>
    injection run with run
    subst run
    exact own (setHandler sig func) enabled.1 rfl
  | sigdisp sig hold =>
    injection run with run
    subst run
    exact own _ enabled.1 rfl
  | setpgrp =>
    injection run with run
    subst run
    exact own _ enabled rfl
  | fork pid memory copied =>
    injection run with run
    subst run
    exact a.fork enabled.1
  | reap p =>
    injection run with run
    subst run
    have gone : Heeds s (setStatus s p .empty) := heeds_modify (Hears.awake (fun no => by cases no))
    exact gone.heard a
  | execBegin =>
    injection run with run
    subst run
    exact a.own (q := { s.me with status := .nosleep }) rfl rfl (fun no => by cases no)
  | execEnd loaded =>
    injection run with run
    subst run
    exact a.own (q := { s.me with
      status := .running
      sigvec := if loaded then fun _ => .dfl else s.me.sigvec }) rfl rfl (fun no => by cases no)
  | exit =>
    injection run with run
    subst run
    exact ⟨a.others, fun asleep => absurd asleep (a.user enabled)⟩
  | go => exact a.advance sound run
  | ssig p sig =>
    injection run with run
    subst run
    exact (heeds_ssig s p sig).heard a
  | wakeup event =>
    injection run with run
    subst run
    exact (heeds_wakeup event s).heard a
  | pwake p =>
    injection run with run
    subst run
    exact (heeds_pwake s p).heard a

/-- Along every run of sound steps no process that has come past `chksigs` sleeps with a
signal to catch. -/
theorem asleep_not_due {as : List Action} (start : Heard s) (run : Steps Action.wakeStep s as t)
    (p : Nat) (asleep : (t.ptab p).status = .sleep) :
    ¬ due (t.ptab p) ∨ p = t.cur ∧ t.phase = .switchout := by
  have heard : Heard t :=
    run.keeps (I := Heard) (fun _ _ _ a step => a.step step) start
  by_cases me : p = t.cur
  · rw [me] at asleep ⊢
    rcases heard.me asleep with out | ⟨_, quiet⟩
    · exact Or.inr ⟨rfl, out⟩
    · exact Or.inl quiet
  · exact Or.inl (heard.others p me asleep)

end Runs

end Machine

/-! ## After the boot -/

theorem booted_heard : Heard booted := by
  refine ⟨?_, (fun no => by cases no)⟩
  intro p other asleep
  have empty : booted.ptab p = blank 0 0 := if_neg other
  rw [empty] at asleep
  cases asleep

/-- Init catches `SIGHUP` and sleeps. -/
theorem asleep_not_due_after_psleep : ∃ t, @Steps State Action (@Action.wakeStep pair) booted
    [.signal SIGHUP .handler, .psleep 0, .go] t ∧ (t.ptab 0).status = .sleep ∧
    ¬ due (t.ptab 0) := by
  let _ := pair
  have steps : ∃ t, Action.wakeStep booted (.signal SIGHUP .handler) t ∧
      ∃ u, Action.wakeStep t (.psleep 0) u ∧
      ∃ w, Action.wakeStep u .go w ∧ (w.ptab 0).status = .sleep ∧ w.phase = .getproc := by
    refine ⟨_, ⟨trivial, ⟨rfl, by decide, by decide⟩, rfl⟩, _, ⟨trivial, rfl, rfl⟩, _,
      ⟨?_, ⟨fun no => (by cases no), fun no => (by cases no)⟩, rfl⟩, rfl, rfl⟩
    rintro ⟨_, _, taken | ⟨j, _, _, no, _⟩⟩
    · exact taken rfl
    · cases no
  obtain ⟨t, first, u, second, w, third, asleep, here⟩ := steps
  have run := Steps.snoc (Steps.snoc (Steps.snoc (Steps.nil booted) first) second) third
  refine ⟨w, run, asleep, ?_⟩
  rcases asleep_not_due booted_heard run 0 asleep with quiet | ⟨_, no⟩
  · exact quiet
  · rw [here] at no
    cases no

/-- A signal that init catches comes right before `pause`, and init sleeps. -/
theorem asleep_and_due : ∃ (_ : Machine) (t : State), Heard booted ∧
    Steps Action.step booted [.signal SIGHUP .handler, .ssig 0 SIGHUP, .psleep 0, .go] t ∧
    (t.ptab 0).status = .sleep ∧ t.phase = .getproc ∧ due (t.ptab 0) := by
  let _ := pair
  have steps : ∃ t, Action.step booted (.signal SIGHUP .handler) t ∧
      ∃ u, Action.step t (.ssig 0 SIGHUP) u ∧
      ∃ v, Action.step u (.psleep 0) v ∧
      ∃ w, Action.step v .go w ∧ (w.ptab 0).status = .sleep ∧ w.phase = .getproc ∧
        (w.ptab 0).cursig = SIGHUP :=
    ⟨_, ⟨⟨rfl, by decide, by decide⟩, rfl⟩, _, ⟨⟨by decide, by decide, by decide⟩, rfl⟩, _,
      ⟨rfl, rfl⟩, _, ⟨⟨fun no => (by cases no), fun no => (by cases no)⟩, rfl⟩, rfl, rfl, rfl⟩
  obtain ⟨t, first, u, second, v, third, w, fourth, asleep, here, taken⟩ := steps
  refine ⟨pair, w, booted_heard, Steps.snoc (Steps.snoc (Steps.snoc (Steps.snoc (Steps.nil booted)
    first) second) third) fourth, asleep, here, Or.inl ?_⟩
  rw [taken]
  intro no
  cases no

end Sched
