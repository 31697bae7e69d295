import Fuzix.SchedCount

/-!
# One running process

Only the current process is running, and not even that one on the way to `getproc`.
A process that is switched out goes on behind a call of `switchout`, and it made that
call in its own code or in `chksigs`.
-/

set_option linter.unusedSectionVars false

namespace Sched

open Table Run

section Machine

variable [Machine]

/-! ## Where a process goes on -/

/-- A process of this status can be chosen later. -/
def Status.returns (status : Status) : Prop :=
  status = .ready ∨ status = .sleep ∨ status = .stopped

mutual

/-- The frames around a call of `switchout`. -/
inductive Outside : List Frame → Prop where
  | nil : Outside []
  | rescan {rest : List Frame} (pending : Mask) (svec : Nat) (inner : Inside rest) :
      Outside (.rescan pending svec :: rest)

/-- The frames around a call of `chksigs`. -/
inductive Inside : List Frame → Prop where
  | nil : Inside []
  | switch {rest : List Frame} (outer : Outside rest) : Inside (.switch :: rest)

end

def Phase.nested : Phase → Proc → Prop
  | .user, q => q.status = .running ∧ q.frames = []
  | .exec, q => q.frames = []
  | .switchout, q => Outside q.frames
  | .rescan _ _, q => q.status = .running ∧ Inside q.frames
  | .getproc, q => q.status.returns → Outside q.frames
  | .doexit, _ => True
  | .exited, _ => True

/-- A process that is not the current one. -/
structure Idle (q : Proc) : Prop where
  rests : q.status ≠ .running
  outer : q.status.returns → Outside q.frames
  parent : q.parent < PTABSIZE

structure Lone (s : State) : Prop where
  cur : s.cur < PTABSIZE
  parent : s.me.parent < PTABSIZE
  others : ∀ p, p ≠ s.cur → Idle (s.ptab p)

structure Single (s : State) : Prop extends Lone s where
  away : s.phase = .switchout ∨ s.phase = .getproc → s.me.status ≠ .running
  self : s.phase.nested s.me

/-! ## What happens to other processes -/

/-- A process that was woken up, or whose entry was freed. -/
structure Settled (q r : Proc) : Prop where
  status : r.status = q.status ∨ q.status.returns ∧ r.status = .ready ∨ r.status = .empty
  frames : r.frames = q.frames
  parent : r.parent = q.parent ∨ r.parent = 0

structure Settles (s t : State) : Prop where
  proc : ∀ p, Settled (s.ptab p) (t.ptab p)
  cur : t.cur = s.cur
  phase : t.phase = s.phase

section Steps
variable {s t : State} {p : Nat} {f : Proc → Proc}

theorem Settled.refl (q : Proc) : Settled q q := ⟨Or.inl rfl, rfl, Or.inl rfl⟩

theorem Settled.returns {q r : Proc} (h : Settled q r) (back : r.status.returns) :
    q.status.returns := by
  rcases h.status with same | ⟨parked, _⟩ | gone
  · rw [← same]
    exact back
  · exact parked
  · rw [gone] at back
    rcases back with no | no | no <;> cases no

theorem Settled.running {q r : Proc} (h : Settled q r) (runs : r.status = .running) :
    q.status = .running := by
  rcases h.status with same | ⟨_, ready⟩ | gone
  · rw [← same]
    exact runs
  · rw [runs] at ready
    cases ready
  · rw [runs] at gone
    cases gone

theorem Settled.trans {q r u : Proc} (h : Settled q r) (k : Settled r u) : Settled q u where
  status := by
    rcases k.status with same | ⟨parked, woken⟩ | gone
    · rw [same]
      exact h.status
    · exact Or.inr (Or.inl ⟨h.returns parked, woken⟩)
    · exact Or.inr (Or.inr gone)
  frames := k.frames.trans h.frames
  parent := by
    rcases k.parent with same | init
    · rw [same]
      exact h.parent
    · exact Or.inr init

theorem Stirred.settled {q r : Proc} (h : Stirred q r) : Settled q r where
  status := by
    rcases h.status with same | ⟨parked, woken⟩
    · exact Or.inl same
    · exact Or.inr (Or.inl ⟨Or.inr parked, woken⟩)
  frames := h.frames
  parent := Or.inl h.parent

theorem Settles.refl (s : State) : Settles s s := ⟨fun _ => Settled.refl _, rfl, rfl⟩

theorem Settles.trans {u : State} (h : Settles s t) (k : Settles t u) : Settles s u where
  proc := fun p => (h.proc p).trans (k.proc p)
  cur := k.cur.trans h.cur
  phase := k.phase.trans h.phase

theorem Stirs.settles (h : Stirs s t) : Settles s t where
  proc := fun p => (h.proc p).settled
  cur := h.cur
  phase := h.phase

theorem settles_modify (same : Settled (s.ptab p) (f (s.ptab p))) :
    Settles s (modifyProc s p f) where
  proc := fun j => by
    by_cases here : j = p
    · subst here
      rw [modifyProc_same]
      exact same
    · rw [modifyProc_other here]
      exact Settled.refl _
  cur := rfl
  phase := rfl

theorem settles_leaveFamily (hp : p < PTABSIZE) (s : State) : Settles s (leaveFamily s p) := by
  refine leaveFamily_keeps Settles.refl (fun _ _ _ => Settles.trans) ?_ ?_ ?_ ?_ ?_ hp s
  · intro s p sig hp
    exact (stirs_ssig hp s sig).settles
  · intro s event
    exact (stirs_wakeup event s).settles
  · intro s p
    exact settles_modify ⟨Or.inl rfl, rfl, Or.inr rfl⟩
  · intro s p
    exact settles_modify ⟨Or.inl rfl, rfl, Or.inl rfl⟩
  · intro s p
    exact settles_modify ⟨Or.inr (Or.inr rfl), rfl, Or.inl rfl⟩

/-! ## Keeping one process running -/

theorem Stirred.running {q r : Proc} (h : Stirred q r) (running : q.status = .running) :
    r.status = .running := by
  rcases h.status with same | ⟨parked, _⟩
  · exact same.trans running
  · rw [running] at parked
    rcases parked with no | no <;> cases no

theorem Stirred.nested {q r : Proc} (h : Stirred q r) {phase : Phase} (a : phase.nested q) :
    phase.nested r := by
  cases phase with
  | user =>
    obtain ⟨running, top⟩ := a
    exact ⟨h.running running, h.frames.trans top⟩
  | exec => exact h.frames.trans a
  | switchout =>
    show Outside r.frames
    rw [h.frames]
    exact a
  | rescan _ _ =>
    obtain ⟨running, inner⟩ := a
    refine ⟨h.running running, ?_⟩
    rw [h.frames]
    exact inner
  | getproc =>
    intro back
    rw [h.frames]
    exact a (h.settled.returns back)
  | doexit => trivial
  | exited => trivial

theorem Lone.start (a : Lone s) : 0 < PTABSIZE := Nat.lt_of_le_of_lt (Nat.zero_le _) a.cur

theorem Settled.keeps {q r : Proc} (h : Settled q r) (start : 0 < PTABSIZE)
    (parent : q.parent < PTABSIZE) : r.parent < PTABSIZE := by
  rcases h.parent with same | init
  · rw [same]
    exact parent
  · rw [init]
    exact start

theorem Settled.idle {q r : Proc} (h : Settled q r) (start : 0 < PTABSIZE) (a : Idle q) :
    Idle r where
  rests := fun runs => a.rests (h.running runs)
  outer := fun back => by
    rw [h.frames]
    exact a.outer (h.returns back)
  parent := h.keeps start a.parent

theorem Settles.lone (h : Settles s t) (a : Lone s) : Lone t where
  cur := h.cur ▸ a.cur
  parent := by
    unfold State.me
    rw [h.cur]
    exact (h.proc s.cur).keeps a.start a.parent
  others := fun p other => by
    rw [h.cur] at other
    exact (h.proc p).idle a.start (a.others p other)

/-- Another process, or the same one, is the current one now. -/
theorem Lone.turn {ptab : Nat → Proc} {q : Proc} (hp : p < PTABSIZE) (parent : q.parent < PTABSIZE)
    (others : ∀ j, j ≠ p → Idle (ptab j)) (entry : t.ptab = put ptab p q) (cur : t.cur = p) :
    Lone t where
  cur := cur ▸ hp
  parent := by
    unfold State.me
    rw [entry, cur, put_same]
    exact parent
  others := fun j other => by
    rw [cur] at other
    rw [entry, put_ne _ _ other]
    exact others j other

theorem Lone.modify (a : Lone s) (parent : (f s.me).parent = s.me.parent) :
    Lone (modifyProc s s.cur f) := by
  refine Lone.turn (q := f s.me) a.cur ?_ a.others rfl rfl
  rw [parent]
  exact a.parent

theorem Stirs.single (h : Stirs s t) (a : Single s) : Single t where
  toLone := h.settles.lone a.toLone
  away := fun leaving runs => by
    rw [h.phase] at leaving
    unfold State.me at runs
    rw [h.cur] at runs
    exact a.away leaving ((h.proc s.cur).settled.running runs)
  self := by
    unfold State.me
    rw [h.phase, h.cur]
    exact (h.proc s.cur).nested a.self

/-- The current process changes, and where the processor is. -/
theorem Lone.own {q : Proc} (a : Lone s) (ptab : t.ptab = put s.ptab s.cur q)
    (cur : t.cur = s.cur) (parent : q.parent = s.me.parent)
    (away : t.phase = .switchout ∨ t.phase = .getproc → q.status ≠ .running)
    (self : t.phase.nested q) : Single t where
  toLone := by
    refine Lone.turn a.cur ?_ a.others ptab cur
    rw [parent]
    exact a.parent
  away := by
    unfold State.me
    rw [ptab, cur, put_same]
    exact away
  self := by
    unfold State.me
    rw [ptab, cur, put_same]
    exact self

/-- The processor goes on elsewhere, and the current process does not change. -/
theorem Lone.moved (a : Lone s) (ptab : t.ptab = s.ptab) (cur : t.cur = s.cur)
    (away : t.phase = .switchout ∨ t.phase = .getproc → s.me.status ≠ .running)
    (self : t.phase.nested s.me) : Single t := by
  refine a.own (q := s.me) ?_ cur rfl away self
  rw [ptab]
  exact (put_self _ _).symm

theorem Lone.leaveChksigs (a : Lone s) (inner : Inside s.me.frames)
    (home : s.me.frames = [] → s.me.status = .running)
    (away : ∀ rest, s.me.frames = .switch :: rest → s.me.status ≠ .running) :
    Single (leaveChksigs s) := by
  unfold Sched.leaveChksigs
  split
  · rename_i rest frames
    rw [frames] at inner
    cases inner with
    | switch outer =>
      refine a.own (q := { s.me with frames := rest }) rfl rfl rfl ?_ ?_
      · intro _
        exact away rest frames
      · intro _
        exact outer
  · rename_i none
    refine a.moved rfl rfl ?_ ?_
    · intro leaving
      rcases leaving with no | no <;> cases no
    · have top : s.me.frames = [] := by
        cases frames : s.me.frames with
        | nil => rfl
        | cons top rest =>
          rw [frames] at inner
          cases inner with
          | switch _ => exact absurd frames (none rest)
      exact ⟨home top, top⟩

/-- How `chksigs` ends at `rescan`, when it returns. -/
def returnsFrom (s : State) (pending : Mask) (svec : Nat) : Prop :=
  s.me.cursig ≠ 0 ∨ noSignal pending = true ∨
    (scan s.me pending svec (NSIGS - 1) 1 s.me.pending).1 = .nothing ∨
    ∃ j, (scan s.me pending svec (NSIGS - 1) 1 s.me.pending).1 = .caught j

theorem Lone.chksigs (a : Lone s) (pending : Mask) (svec : Nat) (inner : Inside s.me.frames)
    (home : s.me.frames = [] → s.me.status = .running)
    (away : ∀ rest, s.me.frames = .switch :: rest → returnsFrom s pending svec →
      s.me.status ≠ .running) :
    Single (chksigs s pending svec) := by
  unfold Sched.chksigs
  split
  · rename_i done
    refine a.leaveChksigs inner home fun rest frames => ?_
    rcases done with caught | none | stopped
    · exact away rest frames (Or.inl caught)
    · exact away rest frames (Or.inr (Or.inl none))
    · rw [stopped]
      intro no
      cases no
  · have ends : ∀ rest, s.me.frames = .switch :: rest →
        ((scan s.me pending svec (NSIGS - 1) 1 s.me.pending).1 = .nothing ∨
          ∃ j, (scan s.me pending svec (NSIGS - 1) 1 s.me.pending).1 = .caught j) →
        s.me.status ≠ .running := fun rest frames verdict =>
      away rest frames (Or.inr (Or.inr verdict))
    generalize scan s.me pending svec (NSIGS - 1) 1 s.me.pending = found at ends
    obtain ⟨verdict, left⟩ := found
    have me := modifyProc_me s fun q => { q with pending := left }
    have taken : Settles s (modifyProc s s.cur fun q => { q with pending := left }) :=
      settles_modify ⟨Or.inl rfl, rfl, Or.inl rfl⟩
    have lone := taken.lone a
    dsimp only
    generalize (modifyProc s s.cur fun q => { q with pending := left }) = u at lone me
    have status : u.me.status = s.me.status := by rw [me]
    have frames : u.me.frames = s.me.frames := by rw [me]
    rw [← frames] at inner
    rw [← frames, ← status] at home ends
    cases verdict with
    | nothing => exact lone.leaveChksigs inner home fun rest top => ends rest top (Or.inl rfl)
    | caught j =>
      have noted : Settles u (modifyProc u u.cur fun q => { q with cursig := j }) :=
        settles_modify ⟨Or.inl rfl, rfl, Or.inl rfl⟩
      have now := modifyProc_me u fun q => { q with cursig := j }
      refine (noted.lone lone).leaveChksigs ?_ ?_ ?_
      · rw [now]
        exact inner
      · rw [now]
        exact home
      · rw [now]
        intro rest top
        exact ends rest top (Or.inr ⟨j, rfl⟩)
    | stop j =>
      refine lone.own (q := { u.me with
          status := .stopped
          event := j
          frames := .rescan pending (svec + j) :: u.me.frames }) rfl rfl rfl ?_ ?_
      · intro _ no
        cases no
      · exact Outside.rescan _ _ inner
    | kill j =>
      dsimp only
      split
      · refine lone.own (q := { u.me with status := .running }) rfl rfl rfl ?_ trivial
        intro leaving
        rcases leaving with no | no <;> cases no
      · refine lone.moved rfl rfl ?_ trivial
        intro leaving
        rcases leaving with no | no <;> cases no

theorem Single.switchout (a : Single s) (here : s.phase = .switchout) : Single (switchout s) := by
  have me := modifyProc_me s fun q => { q with frames := .switch :: q.frames }
  have outer := a.self
  rw [here] at outer
  have asleep := a.away (Or.inl here)
  unfold Sched.switchout
  refine Lone.chksigs (a.toLone.modify rfl) _ 0 ?_ ?_ ?_
  · rw [me]
    exact Inside.switch outer
  · rw [me]
    intro no
    cases no
  · rw [me]
    intro _ _ _
    exact asleep

theorem Single.rescan (a : Single s) {pending : Mask} {svec : Nat}
    (here : s.phase = .rescan pending svec)
    (sound : ∀ rest, s.me.frames = .switch :: rest → ¬ returnsFrom s pending svec) :
    Single (Sched.chksigs s pending svec) := by
  obtain ⟨running, inner⟩ : s.me.status = .running ∧ Inside s.me.frames := by
    have self := a.self
    rwa [here] at self
  refine a.toLone.chksigs pending svec inner (fun _ => running) ?_
  intro rest top back
  exact absurd back (sound rest top)

theorem Single.switchin (a : Single s) (here : s.phase = .getproc) (hp : p < PTABSIZE)
    (ready : (s.ptab p).status = .ready) : Single (switchin s p) := by
  have gone := a.away (Or.inr here)
  have back : s.me.status.returns → Outside s.me.frames := by
    have self := a.self
    rwa [here] at self
  have idle : ∀ j, Idle (s.ptab j) := by
    intro j
    by_cases same : j = s.cur
    · rw [same]
      exact ⟨gone, back, a.parent⟩
    · exact a.others j same
  have outer := (idle p).outer (Or.inl ready)
  have chosen : Lone (setStatus { s with cur := p } p .running) :=
    Lone.turn (q := { s.ptab p with status := .running }) hp (idle p).parent
      (fun j _ => idle j) rfl rfl
  have me : (setStatus { s with cur := p } p .running).ptab p =
      { s.ptab p with status := .running } := put_same _ _ _
  unfold Sched.switchin
  dsimp only
  rw [me]
  split
  · rename_i pending svec rest frames
    replace frames : (s.ptab p).frames = .rescan pending svec :: rest := frames
    rw [frames] at outer
    cases outer with
    | rescan _ _ inner =>
      refine chosen.own (q := { (setStatus { s with cur := p } p .running).ptab p with
        frames := rest }) rfl rfl rfl ?_ ?_
      · intro leaving
        rcases leaving with no | no <;> cases no
      · rw [me]
        exact ⟨rfl, inner⟩
  · rename_i none
    have top : (s.ptab p).frames = [] := by
      cases frames : (s.ptab p).frames with
      | nil => rfl
      | cons top rest =>
        rw [frames] at outer
        cases outer with
        | rescan pending svec _ => exact absurd frames (none pending svec rest)
    refine chosen.moved rfl rfl ?_ ?_
    · intro leaving
      rcases leaving with no | no <;> cases no
    · show Phase.user.nested ((setStatus { s with cur := p } p .running).ptab p)
      rw [me]
      exact ⟨rfl, top⟩

/-- An entry that is not in use changes. -/
theorem Single.freed {q : Proc} (a : Single s) (ptab : t.ptab = put s.ptab p q)
    (cur : t.cur = s.cur) (phase : t.phase = s.phase) (other : p ≠ s.cur) (gone : q.status = .empty)
    (parent : q.parent < PTABSIZE) : Single t where
  cur := cur ▸ a.cur
  parent := by
    unfold State.me
    rw [ptab, cur, put_ne _ _ (Ne.symm other)]
    exact a.parent
  others := fun j notMe => by
    rw [cur] at notMe
    rw [ptab]
    by_cases entry : j = p
    · rw [entry, put_same]
      refine ⟨?_, ?_, parent⟩
      · rw [gone]
        intro no
        cases no
      · rw [gone]
        intro back
        rcases back with no | no | no <;> cases no
    · rw [put_ne _ _ entry]
      exact a.others j notMe
  away := by
    unfold State.me
    rw [phase, ptab, cur, put_ne _ _ (Ne.symm other)]
    exact a.away
  self := by
    unfold State.me
    rw [phase, ptab, cur, put_ne _ _ (Ne.symm other)]
    exact a.self

theorem Single.fork (a : Single s) (here : s.phase = .user) {pid : Nat} {memory copied : Bool} :
    Single (fork pid memory copied s) := by
  obtain ⟨running, top⟩ : s.me.status = .running ∧ s.me.frames = [] := by
    have self := a.self
    rwa [here] at self
  unfold Sched.fork
  split
  · exact a
  · rename_i p free
    obtain ⟨hp, empty⟩ := freeSlot_some free
    have other : p ≠ s.cur := by
      rintro rfl
      rw [State.me, empty] at running
      cases running
    dsimp only
    split
    · exact a.freed rfl rfl rfl other rfl a.start
    · split
      · have others : ∀ j, j ≠ p → Idle ((setStatus s.more s.cur .ready).ptab j) := by
          intro j _
          by_cases parent : j = s.cur
          · have entry : (setStatus s.more s.cur .ready).ptab j =
                { s.me with status := .ready } := by
              rw [parent]
              exact put_same _ _ _
            rw [entry]
            refine ⟨(fun no => by cases no), fun _ => ?_, a.parent⟩
            show Outside s.me.frames
            rw [top]
            exact Outside.nil
          · have entry : (setStatus s.more s.cur .ready).ptab j = s.ptab j :=
              modifyProc_other parent
            rw [entry]
            exact a.others j parent
        refine ⟨Lone.turn hp ?_ others rfl rfl, ?_, ?_⟩
        · exact a.cur
        · intro leaving
          replace leaving : s.phase = .switchout ∨ s.phase = .getproc := leaving
          rw [here] at leaving
          rcases leaving with no | no <;> cases no
        · show s.phase.nested (put (setStatus s.more s.cur .ready).ptab p _ p)
          rw [here, put_same]
          exact ⟨rfl, rfl⟩
      · exact a.freed rfl rfl rfl other rfl a.start

theorem Single.doexit (a : Single s) (run : doexit s = .ok t) : Single t := by
  unfold Sched.doexit at run
  split at run
  · cases run
  · injection run with run
    subst run
    have rounds : Settles (modifyProc s s.cur fun q => { q with held := fun _ => true, cursig := 0 })
        (forProcs leaveFamily PTABSIZE
          (modifyProc s s.cur fun q => { q with held := fun _ => true, cursig := 0 })) :=
      forProcs_keeps Settles.refl (fun _ _ _ => Settles.trans)
        (fun s p hp => settles_leaveFamily hp s) _ PTABSIZE (Nat.le_refl _)
    have left := rounds.lone (a.toLone.modify rfl)
    refine left.moved rfl rfl ?_ trivial
    intro leaving
    rcases leaving with no | no <;> cases no

theorem Single.endProcess (a : Single s) : Single (endProcess s) := by
  unfold Sched.endProcess
  dsimp only
  split
  · refine a.toLone.own (q := { s.me with status := .empty }) rfl rfl rfl ?_ ?_
    · intro _ no
      cases no
    · intro back
      rcases back with no | no | no <;> cases no
  · have told : Stirs s (wakeup (ptabEvent s.me.parent) (ssig s s.me.parent SIGCHLD)) :=
      (stirs_ssig a.parent s SIGCHLD).trans (stirs_wakeup _ _)
    have cur := told.cur
    have lone := told.settles.lone a.toLone
    generalize wakeup (ptabEvent s.me.parent) (ssig s s.me.parent SIGCHLD) = u at cur lone ⊢
    rw [← cur]
    refine lone.own (q := { u.me with status := .zombie }) rfl rfl rfl ?_ ?_
    · intro _ no
      cases no
    · intro back
      rcases back with no | no | no <;> cases no

theorem Single.advance (a : Single s)
    (sound : ∀ pending svec rest, s.phase = .rescan pending svec → s.me.frames = .switch :: rest →
      ¬ returnsFrom s pending svec)
    (run : advance s = .ok t) : Single t := by
  unfold Sched.advance at run
  split at run
  · rename_i here
    injection run with run
    subst run
    exact a.switchout here
  · rename_i pending svec here
    injection run with run
    subst run
    exact a.rescan here fun rest => sound pending svec rest here
  · rename_i here
    rcases getproc_cases run with ⟨p, rfl⟩ | ⟨p, hp, ready, rfl⟩
    · exact a.toLone.moved rfl rfl a.away a.self
    · exact Single.switchin (s := { s with nextp := p })
        (a.toLone.moved rfl rfl a.away a.self) here (hp a.start) ready
  · exact a.doexit run
  · injection run with run
    subst run
    exact a.endProcess
  · injection run with run
    subst run
    exact a

/-- The process changes something of its own that is not its status. -/
theorem Single.own (a : Single s) (here : s.phase = .user)
    (same : Settled s.me (f s.me)) (status : (f s.me).status = s.me.status)
    (parent : (f s.me).parent = s.me.parent) : Single (modifyProc s s.cur f) := by
  have self := a.self
  rw [here] at self
  refine a.toLone.own (q := f s.me) rfl rfl parent ?_ ?_
  · intro leaving
    rw [show (modifyProc s s.cur f).phase = .user from here] at leaving
    rcases leaving with no | no <;> cases no
  · rw [show (modifyProc s s.cur f).phase = .user from here]
    exact ⟨status.trans self.1, same.frames.trans self.2⟩

end Steps

/-! ## Runs -/

/-- A process that was stopped in `switchout` goes on there. -/
def rejoins (s : State) : Prop :=
  ∃ pending svec rest, s.phase = .rescan pending svec ∧ s.me.frames = .switch :: rest ∧
    returnsFrom s pending svec

/-- No process yields the processor, and none that was stopped in `switchout` goes on
there. -/
def Action.aloneSound (s : State) : Action → Prop
  | .schedYield => s.nready ≤ 1
  | .go => ¬ rejoins s
  | _ => True

def Action.aloneStep (s : State) (a : Action) (t : State) : Prop :=
  a.aloneSound s ∧ a.step s t

section Runs
variable {s t : State}

theorem Single.home (a : Single s) (here : s.phase = .user) :
    s.me.status = .running ∧ s.me.frames = [] := by
  have self := a.self
  rwa [here] at self

theorem Single.step (a : Single s) {act : Action} (step : act.aloneStep s t) : Single t := by
  obtain ⟨sound, enabled, run⟩ := step
  cases act with
  | psleep event =>
    obtain ⟨running, top⟩ := a.home enabled
    replace run : psleep event s = .ok t := run
    unfold psleep at run
    rw [running] at run
    injection run with run
    subst run
    refine a.toLone.own (q := { s.me with status := .sleep, wait := event }) rfl rfl rfl ?_ ?_
    · intro _ no
      cases no
    · show Outside s.me.frames
      rw [top]
      exact Outside.nil
  | schedYield =>
    injection run with run
    subst run
    unfold schedYield
    rw [if_neg (by have few : s.nready ≤ 1 := sound; omega)]
    exact a
  | preempt =>
    obtain ⟨_, top⟩ := a.home enabled
    injection run with run
    subst run
    unfold preempt
    split
    · refine a.toLone.own (q := { s.me with status := .ready }) rfl rfl rfl ?_ ?_
      · intro _ no
        cases no
      · show Outside s.me.frames
        rw [top]
        exact Outside.nil
    · exact a
  | chksigs =>
    obtain ⟨running, top⟩ := a.home enabled
    injection run with run
    subst run
    refine a.toLone.chksigs _ 0 ?_ ?_ ?_
    · rw [top]
      exact Inside.nil
    · intro _
      exact running
    · rw [top]
      intro _ no
      cases no
  | deliver =>
    injection run with run
    subst run
    have same : Settled s.me (callHandler s.me) := by
      unfold callHandler
      split
      · exact Settled.refl _
      · exact ⟨Or.inl rfl, rfl, Or.inl rfl⟩
    refine a.own enabled same ?_ ?_
    · unfold callHandler
      split <;> rfl
    · unfold callHandler
      split <;> rfl
  | signal sig func =>
    injection run with run
    subst run
    exact a.own enabled.1 ⟨Or.inl rfl, rfl, Or.inl rfl⟩ rfl rfl
  | sigdisp sig hold =>
    injection run with run
    subst run
    exact a.own enabled.1 ⟨Or.inl rfl, rfl, Or.inl rfl⟩ rfl rfl
  | setpgrp =>
    injection run with run
    subst run
    exact a.own enabled ⟨Or.inl rfl, rfl, Or.inl rfl⟩ rfl rfl
  | fork pid memory copied =>
    injection run with run
    subst run
    exact a.fork enabled.1
  | reap p =>
    obtain ⟨here, _, zombie, _⟩ := enabled
    obtain ⟨running, _⟩ := a.home here
    injection run with run
    subst run
    have other : p ≠ s.cur := by
      rintro rfl
      rw [State.me, zombie] at running
      cases running
    exact a.freed rfl rfl rfl other rfl (a.others p other).parent
  | execBegin =>
    obtain ⟨_, top⟩ := a.home enabled
    injection run with run
    subst run
    refine a.toLone.own (q := { s.me with status := .nosleep }) rfl rfl rfl ?_ top
    intro _ no
    cases no
  | execEnd loaded =>
    have top : s.me.frames = [] := by
      have self := a.self
      rwa [show s.phase = .exec from enabled] at self
    injection run with run
    subst run
    refine a.toLone.own (q := { s.me with
      status := .running
      sigvec := if loaded then fun _ => .dfl else s.me.sigvec }) rfl rfl rfl ?_ ⟨rfl, top⟩
    intro leaving
    rcases leaving with no | no <;> cases no
  | exit =>
    injection run with run
    subst run
    refine a.toLone.moved rfl rfl ?_ trivial
    intro leaving
    rcases leaving with no | no <;> cases no
  | go =>
    refine a.advance ?_ run
    intro pending svec rest here frames back
    exact sound ⟨pending, svec, rest, here, frames, back⟩
  | ssig p sig =>
    injection run with run
    subst run
    exact (stirs_ssig enabled.1 s sig).single a
  | wakeup event =>
    injection run with run
    subst run
    exact (stirs_wakeup event s).single a
  | pwake p =>
    injection run with run
    subst run
    exact (stirs_pwake enabled s).single a

theorem Single.none_running (a : Single s) (here : s.phase = .getproc) (p : Nat) :
    (s.ptab p).status ≠ .running := by
  by_cases me : p = s.cur
  · rw [me]
    exact a.away (Or.inr here)
  · exact (a.others p me).rests

/-- Only `getproc` panics as it does. -/
theorem getproc_panics (a : Single s) {act : Action} : act.run s ≠ .error .getproc := by
  intro panics
  cases act with
  | psleep event =>
    replace panics : psleep event s = .error .getproc := panics
    unfold psleep at panics
    split at panics <;> cases panics
  | go =>
    replace panics : advance s = .error .getproc := panics
    unfold advance at panics
    split at panics
    · cases panics
    · cases panics
    · rename_i here
      unfold getproc at panics
      dsimp only at panics
      split at panics
      · rename_i runs
        exact a.none_running here _ runs
      · cases panics
      · cases panics
    · unfold doexit at panics
      split at panics <;> cases panics
    · cases panics
    · cases panics
  | _ => cases panics

/-- Along every run of sound steps at most one process is running, none when `getproc` is
entered, the current one is no longer when it calls `switchout`, and `getproc` makes a
ready process the running one. -/
theorem one_running {as : List Action} (start : Single s) (run : Steps Action.aloneStep s as t) :
    (∀ p q, (t.ptab p).status = .running → (t.ptab q).status = .running → p = q) ∧
    (t.phase = .switchout → t.me.status ≠ .running) ∧
    (t.phase = .getproc → ∀ p, (t.ptab p).status ≠ .running) ∧
    (∀ a : Action, a.run t ≠ .error .getproc) ∧
    ∀ u, t.phase = .getproc → getproc t = .ok u → u.phase ≠ .getproc →
      (t.ptab u.cur).status = .ready ∧ (u.ptab u.cur).status = .running := by
  have single : Single t :=
    run.keeps (I := Single) (fun _ _ _ a step => a.step step) start
  refine ⟨?_, fun here => single.away (Or.inl here), fun here p => single.none_running here p,
    fun a => getproc_panics single, ?_⟩
  · intro p q pRuns qRuns
    by_cases pMe : p = t.cur
    · by_cases qMe : q = t.cur
      · rw [pMe, qMe]
      · exact absurd qRuns (single.others q qMe).rests
    · exact absurd pRuns (single.others p pMe).rests
  · intro u here chosen left
    rcases getproc_cases chosen with ⟨p, rfl⟩ | ⟨p, hp, ready, rfl⟩
    · exact absurd here left
    · have me : (setStatus { t with nextp := p, cur := p } p .running).ptab p =
          { t.ptab p with status := .running } := put_same _ _ _
      unfold switchin
      dsimp only
      split
      · refine ⟨ready, ?_⟩
        show (put (setStatus { t with nextp := p, cur := p } p .running).ptab p _ p).status = _
        rw [put_same, me]
      · refine ⟨ready, ?_⟩
        show ((setStatus { t with nextp := p, cur := p } p .running).ptab p).status = _
        rw [me]

end Runs

end Machine

/-! ## After the boot -/

theorem booted_single : @Single pair booted := by
  let _ := pair
  have entry : ∀ p, (booted.ptab p).parent = 0 := by
    intro p
    show (if p = 0 then _ else _ : Proc).parent = 0
    split <;> rfl
  refine ⟨⟨by decide, by decide, ?_⟩, (fun no => by rcases no with no | no <;> cases no), rfl, rfl⟩
  intro p other
  have empty : booted.ptab p = blank 0 0 := if_neg other
  rw [empty]
  refine ⟨(fun no => by cases no), ?_, by decide⟩
  intro back
  rcases back with no | no | no <;> cases no

/-- Init forks, and its child sleeps. -/
theorem one_running_after_fork : ∃ t, @Steps State Action (@Action.aloneStep pair) booted
    [.fork 2 true true, .psleep 7, .go] t ∧ t.phase = .getproc ∧
    ∀ p, (t.ptab p).status ≠ .running := by
  let _ := pair
  have steps : ∃ t, Action.aloneStep booted (.fork 2 true true) t ∧
      ∃ u, Action.aloneStep t (.psleep 7) u ∧
      ∃ w, Action.aloneStep u .go w ∧ w.phase = .getproc := by
    refine ⟨_, ⟨trivial, ⟨rfl, by decide⟩, rfl⟩, _, ⟨trivial, rfl, rfl⟩, _,
      ⟨?_, ⟨fun no => (by cases no), fun no => (by cases no)⟩, rfl⟩, rfl⟩
    rintro ⟨pending, svec, rest, no, _⟩
    cases no
  obtain ⟨t, first, u, second, w, third, here⟩ := steps
  have run := Steps.snoc (Steps.snoc (Steps.snoc (Steps.nil booted) first) second) third
  exact ⟨w, run, here, (one_running booted_single run).2.2.1 here⟩

/-- The child yields the processor to its parent. -/
theorem yield_panics : ∃ (_ : Machine) (t : State), Single booted ∧
    Steps Action.step booted [.fork 2 true true, .schedYield, .go] t ∧
    t.phase = .getproc ∧ t.me.status = .running ∧ Action.go.run t = .error .getproc := by
  let _ := pair
  have steps : ∃ t, Action.step booted (.fork 2 true true) t ∧
      ∃ u, Action.step t .schedYield u ∧
      ∃ w, Action.step u .go w ∧ w.phase = .getproc ∧ w.me.status = .running ∧
        Action.go.run w = .error .getproc :=
    ⟨_, ⟨⟨rfl, by decide⟩, rfl⟩, _, ⟨rfl, rfl⟩, _, ⟨⟨fun no => (by cases no), fun no => (by cases no)⟩, rfl⟩, rfl, rfl, rfl⟩
  obtain ⟨t, first, u, second, w, third, here, running, panics⟩ := steps
  exact ⟨pair, w, booted_single, Steps.snoc (Steps.snoc (Steps.snoc (Steps.nil booted)
    first) second) third, here, running, panics⟩

end Sched
