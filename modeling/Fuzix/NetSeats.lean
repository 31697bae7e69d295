import Fuzix.NetNative

/-!
# What holds of a slot

The invariant of one slot: its request, who sleeps on it, what the daemon has read of it and
what it has answered. It speaks of a slot, its open file and the processes at it, so that a
step at one slot leaves it alone at the others.
-/

namespace NetNative

open Table
open Sock (SS_UNUSED SS_INIT SS_UNCONNECTED SS_BOUND SS_LISTENING SS_CONNECTING SS_CLOSED)

/-- A process sleeps until the daemon has answered. -/
def Stage.waits : Stage → Prop
  | .request _ _ _ => True
  | .closing => True
  | _ => False

/-- No other process can be at the slot. -/
def Stage.sole : Stage → Prop
  | .request purpose _ _ => purpose = .socket
  | .connecting _ => False
  | _ => True

/-- The processes at slot `i`. -/
def seats (s : State) (i : Nat) : Nat → Option Stage :=
  fun r => (s.procs r).bind fun p => if p.slot = i then some p.stage else none

structure Fit (sl : Slot) (file : Bool) (seat : Nat → Option Stage) : Prop where
  fresh : ∀ k, sl.asked < k → sl.answers k = none
  unread : sl.unread = true → sl.nev_state = true ∧
    (sl.orphan = false → sl.nevw_state = true ∧ sl.taken = none ∧ sl.answers sl.asked = none)
  taken : ∀ a, sl.taken = some a → a.number = sl.asked ∧ a.user = sl.user ∧ sl.unread = false ∧
    sl.nevw_state = true ∧ sl.orphan = false
  served : ∀ u, sl.served = some u → u = sl.user ∧ sl.orphan = false
  unused : sl.s_state = SS_UNUSED → file = false ∧ (∀ r, seat r = none) ∧ sl.served = none ∧
    sl.taken = none ∧ (sl.orphan = true ∨ sl.nevw_state = false)
  waits : sl.nevw_state = true → sl.orphan = false → ∃ r stage, seat r = some stage ∧ stage.waits
  closed : sl.nevw_state = true → sl.s_state = SS_CLOSED → sl.orphan = true
  request : ∀ r purpose n erred, seat r = some (.request purpose n erred) → n = sl.asked ∧
    erred = false ∧ (sl.nevw_state = true → sl.answers n = none) ∧
    (sl.nevw_state = false → sl.answers n = some sl.ret) ∧
    (sl.unread = true → sl.newstate ≠ SS_CLOSED) ∧ (∀ a, sl.taken = some a → a.closing = false)
  connecting : ∀ r erred, seat r = some (.connecting erred) → erred = false
  one : ∀ r r' stage stage', seat r = some stage → seat r' = some stage' → stage.waits →
    stage'.waits → r = r'
  sole : ∀ r stage, seat r = some stage → stage.sole → file = false ∧
    ∀ r' stage', seat r' = some stage' → r' = r
  closing : ∀ r, seat r = some .closing → (sl.nevw_state = false → sl.acked = true) ∧
    (sl.unread = true → sl.newstate = SS_CLOSED) ∧ (∀ a, sl.taken = some a → a.closing = true)
  acked : sl.acked = true → file = false ∧ sl.served = none ∧ sl.nevw_state = false ∧
    ∀ r stage, seat r = some stage → stage = .closing

section Slots
variable {sl : Slot} {file : Bool} {seat : Nat → Option Stage} {r : Nat} {stage : Stage}

/-- The daemon has read the last request when no one waits for its answer. -/
theorem Fit.heard (fit : Fit sl file seat) (quiet : sl.nevw_state = false ∨ sl.orphan = true) :
    sl.heard = true := by
  unfold Slot.heard
  rcases quiet with quiet | orphan
  · cases unread : sl.unread with
    | false => rfl
    | true =>
      cases gone : sl.orphan with
      | true => rfl
      | false =>
        have waiting := ((fit.unread unread).2 gone).1
        rw [quiet] at waiting
        cases waiting
  · simp [orphan]

theorem Fit.quiet (fit : Fit sl file seat) (none_waits : ∀ r stage, seat r = some stage → ¬ stage.waits) :
    sl.nevw_state = false ∨ sl.orphan = true := by
  cases waiting : sl.nevw_state with
  | false => exact Or.inl rfl
  | true =>
    cases orphan : sl.orphan with
    | true => exact Or.inr rfl
    | false =>
      obtain ⟨r, stage, here, waits⟩ := fit.waits waiting orphan
      exact absurd waits (none_waits r stage here)

theorem Fit.used (fit : Fit sl file seat) (here : seat r = some stage) : sl.s_state ≠ SS_UNUSED := by
  intro unused
  rw [(fit.unused unused).2.1 r] at here
  cases here

theorem Fit.taken_none (fit : Fit sl file seat) (quiet : sl.nevw_state = false ∨ sl.orphan = true) :
    sl.taken = none := by
  rcases taken : sl.taken with _ | a
  · rfl
  · obtain ⟨_, _, _, waiting, here⟩ := fit.taken a taken
    rcases quiet with quiet | orphan
    · rw [quiet] at waiting
      cases waiting
    · rw [here] at orphan
      cases orphan

/-- An error for the next call changes nothing else. -/
theorem Fit.fault (fit : Fit sl file seat) (e : Nat) : Fit { sl with s_error := e } file seat :=
  ⟨fit.fresh, fit.unread, fit.taken, fit.served, fit.unused, fit.waits, fit.closed, fit.request,
    fit.connecting, fit.one, fit.sole, fit.closing, fit.acked⟩

/-! ## Processes come and go -/

/-- Who sits where after the seat of `r` was changed. -/
theorem put_cases {x : Option Stage} {r' : Nat} {stage' : Stage} (here : put seat r x r' = some stage') :
    r' = r ∧ x = some stage' ∨ r' ≠ r ∧ seat r' = some stage' := by
  by_cases same : r' = r
  · rw [same, put_same] at here
    exact Or.inl ⟨same, here⟩
  · rw [put_ne seat x same] at here
    exact Or.inr ⟨same, here⟩

/-- A process leaves, or goes on to a sleep of another kind, when no answer is due. -/
theorem Fit.move (fit : Fit sl file seat) (here : seat r = some stage) (x : Option Stage)
    (quiet : ¬ stage.waits ∨ sl.nevw_state = false ∨ sl.orphan = true)
    (next : ∀ stage', x = some stage' → ¬ stage'.waits ∧ stage ≠ .closing ∧
      (∀ erred, stage' = .connecting erred → erred = false) ∧ (stage'.sole → stage.sole)) :
    Fit sl file (put seat r x) := by
  have left : ∀ r' stage', put seat r x r' = some stage' → stage'.waits → seat r' = some stage' := by
    intro r' stage' sits waits
    rcases put_cases sits with ⟨_, now⟩ | ⟨_, old⟩
    · exact absurd waits (next stage' now).1
    · exact old
  constructor
  · exact fit.fresh
  · exact fit.unread
  · exact fit.taken
  · exact fit.served
  · intro unused
    exact absurd unused (fit.used here)
  · intro waiting orphan
    obtain ⟨r', stage', sits, waits⟩ := fit.waits waiting orphan
    have other : r' ≠ r := by
      intro same
      rw [same, here] at sits
      injection sits with same_stage
      rcases quiet with no | no | no
      · rw [same_stage] at no
        exact no waits
      · rw [waiting] at no
        cases no
      · rw [orphan] at no
        cases no
    exact ⟨r', stage', (put_ne seat x other).trans sits, waits⟩
  · exact fit.closed
  · intro r' purpose n erred sits
    exact fit.request r' purpose n erred (left r' _ sits trivial)
  · intro r' erred sits
    rcases put_cases sits with ⟨_, now⟩ | ⟨_, old⟩
    · exact (next _ now).2.2.1 erred rfl
    · exact fit.connecting r' erred old
  · intro r₁ r₂ stage₁ stage₂ sits₁ sits₂ waits₁ waits₂
    exact fit.one r₁ r₂ stage₁ stage₂ (left r₁ _ sits₁ waits₁) (left r₂ _ sits₂ waits₂) waits₁ waits₂
  · intro r' stage' sits sole
    have sole' : file = false ∧ ∀ r'' stage'', seat r'' = some stage'' → r'' = r' := by
      rcases put_cases sits with ⟨same, now⟩ | ⟨_, old⟩
      · rw [same]
        exact fit.sole r stage here ((next stage' now).2.2.2 sole)
      · exact fit.sole r' stage' old sole
    refine ⟨sole'.1, fun r'' stage'' sits'' => ?_⟩
    rcases put_cases sits'' with ⟨same, _⟩ | ⟨_, old⟩
    · rw [same]
      exact sole'.2 r stage here
    · exact sole'.2 r'' stage'' old
  · intro r' sits
    exact fit.closing r' (left r' _ sits trivial)
  · intro acked
    obtain ⟨closed, unserved, answered, all⟩ := fit.acked acked
    refine ⟨closed, unserved, answered, fun r' stage' sits => ?_⟩
    rcases put_cases sits with ⟨_, now⟩ | ⟨_, old⟩
    · exact absurd (all r stage here) (next stage' now).2.1
    · exact all r' stage' old

/-- The new socket gets its descriptor. -/
theorem Fit.opened (fit : Fit sl file seat) (here : seat r = some stage) (sole : stage.sole)
    (open_ : stage ≠ .closing) (quiet : ¬ stage.waits ∨ sl.nevw_state = false ∨ sl.orphan = true) :
    Fit sl true (put seat r none) := by
  have moved := fit.move here none quiet fun _ no => by cases no
  have gone : ∀ r', put seat r none r' = none := by
    intro r'
    by_cases same : r' = r
    · rw [same, put_same]
    · rw [put_ne seat none same]
      rcases sits : seat r' with _ | stage'
      · rfl
      · exact absurd ((fit.sole r stage here sole).2 r' stage' sits) same
  refine ⟨moved.fresh, moved.unread, moved.taken, moved.served, fun unused => ?_, moved.waits, moved.closed,
    moved.request, moved.connecting, moved.one, fun r' stage' sits => ?_, moved.closing, fun acked => ?_⟩
  · exact absurd unused (fit.used here)
  · rw [gone r'] at sits
    cases sits
  · exact absurd ((fit.acked acked).2.2.2 r stage here) open_

/-- The slot of a process that leaves returns to unused. -/
theorem Fit.freed (fit : Fit sl file seat) (here : seat r = some stage) (sole : stage.sole)
    (done : sl.acked = true ∨ sl.orphan = true) :
    Fit { sl with s_state := SS_UNUSED } file (put seat r none) := by
  have quiet : sl.nevw_state = false ∨ sl.orphan = true := by
    rcases done with acked | orphan
    · exact Or.inl (fit.acked acked).2.2.1
    · exact Or.inr orphan
  have moved := fit.move here none (Or.inr quiet) fun _ no => by cases no
  have gone : ∀ r', put seat r none r' = none := by
    intro r'
    by_cases same : r' = r
    · rw [same, put_same]
    · rw [put_ne seat none same]
      rcases sits : seat r' with _ | stage'
      · rfl
      · exact absurd ((fit.sole r stage here sole).2 r' stage' sits) same
  have unserved : sl.served = none := by
    rcases done with acked | orphan
    · exact (fit.acked acked).2.1
    · rcases served : sl.served with _ | u
      · rfl
      · have no := (fit.served u served).2
        rw [orphan] at no
        cases no
  refine ⟨moved.fresh, moved.unread, moved.taken, moved.served, fun _ => ?_, moved.waits, fun _ no => ?_,
    moved.request, moved.connecting, moved.one, moved.sole, moved.closing, moved.acked⟩
  · exact ⟨(fit.sole r stage here sole).1, gone, unserved, fit.taken_none quiet, quiet.symm⟩
  · cases no

/-! ## Requests -/

/-- A request is posted by a process that will wait for the answer. -/
theorem Fit.post (fit : Fit sl file seat) {file' : Bool} {state : Nat}
    (quiet : sl.nevw_state = false ∨ sl.orphan = true) (used : sl.s_state ≠ SS_UNUSED)
    (open_ : sl.s_state ≠ SS_CLOSED ∨ sl.orphan = true) (live : sl.acked = false) (waits : stage.waits)
    (others : ∀ r' stage', seat r' = some stage' → r' ≠ r → ¬ stage'.waits)
    (apart : ∀ r' stage', seat r' = some stage' → r' ≠ r → ¬ stage'.sole)
    (alone : stage.sole → file' = false ∧ ∀ r' stage', seat r' = some stage' → r' = r)
    (asks : ∀ purpose n erred, stage = .request purpose n erred → n = sl.asked + 1 ∧ erred = false ∧
      state ≠ SS_CLOSED) (closes : stage = .closing → state = SS_CLOSED) :
    Fit (sl.post state) file' (put seat r (some stage)) := by
  have none_taken := fit.taken_none quiet
  have mine : ∀ r' stage', put seat r (some stage) r' = some stage' → stage'.waits →
      r' = r ∧ stage' = stage := by
    intro r' stage' sits waits'
    rcases put_cases sits with ⟨same, now⟩ | ⟨other, old⟩
    · injection now with now
      exact ⟨same, now.symm⟩
    · exact absurd waits' (others r' stage' old other)
  constructor
  · intro k later
    exact fit.fresh k (Nat.lt_of_succ_lt later)
  · intro _
    exact ⟨rfl, fun _ => ⟨rfl, none_taken, fit.fresh _ (Nat.lt_succ_self _)⟩⟩
  · intro a taken
    rw [show (sl.post state).taken = none from none_taken] at taken
    cases taken
  · exact fit.served
  · intro unused
    exact absurd unused used
  · intro _ _
    exact ⟨r, stage, put_same .., waits⟩
  · intro _ closed
    rcases open_ with no | orphan
    · exact absurd closed no
    · exact orphan
  · intro r' purpose n erred sits
    obtain ⟨_, same⟩ := mine r' _ sits trivial
    obtain ⟨number, fine, other⟩ := asks purpose n erred same.symm
    refine ⟨number, fine, fun _ => ?_, fun no => (by cases no), fun _ => other, fun a taken => ?_⟩
    · rw [number]
      exact fit.fresh _ (Nat.lt_succ_self _)
    · rw [show (sl.post state).taken = none from none_taken] at taken
      cases taken
  · intro r' erred sits
    rcases put_cases sits with ⟨_, now⟩ | ⟨_, old⟩
    · injection now with now
      rw [now] at waits
      exact absurd waits id
    · exact fit.connecting r' erred old
  · intro r₁ r₂ stage₁ stage₂ sits₁ sits₂ waits₁ waits₂
    exact (mine r₁ _ sits₁ waits₁).1.trans (mine r₂ _ sits₂ waits₂).1.symm
  · intro r' stage' sits sole
    rcases put_cases sits with ⟨same, now⟩ | ⟨other, old⟩
    · injection now with now
      rw [← now] at sole
      refine ⟨(alone sole).1, fun r'' stage'' sits'' => ?_⟩
      rcases put_cases sits'' with ⟨same', _⟩ | ⟨_, old⟩
      · rw [same, same']
      · rw [same]
        exact (alone sole).2 r'' stage'' old
    · exact absurd sole (apart r' stage' old other)
  · intro r' sits
    obtain ⟨_, same⟩ := mine r' _ sits trivial
    refine ⟨fun no => (by cases no), fun _ => closes same.symm, fun a taken => ?_⟩
    rw [show (sl.post state).taken = none from none_taken] at taken
    cases taken
  · intro acked
    rw [show (sl.post state).acked = false from live] at acked
    cases acked

/-- A new user comes, and its first request is posted. -/
theorem Fit.init [Limits] (fit : Fit sl file seat) (unused : sl.s_state = SS_UNUSED) (type : Sock.SockType)
    (r : Nat) : Fit ((sl.init type).post SS_UNCONNECTED) file
      (put seat r (some (.request .socket (sl.asked + 1) false))) := by
  obtain ⟨closed, empty, unserved, untaken, _⟩ := fit.unused unused
  have nobody : ∀ r' stage', seat r' ≠ some stage' := by
    intro r' stage' sits
    rw [empty r'] at sits
    cases sits
  have begun : Fit (sl.init type) file seat := by
    refine ⟨fit.fresh, fun no => (by cases no), fun a taken => ?_, fun u served => ?_, fun no => (by cases no),
      fun no => (by cases no), fun no => (by cases no), fun r' p n e sits => absurd sits (nobody _ _),
      fun r' e sits => absurd sits (nobody _ _), fun r₁ _ _ _ sits => absurd sits (nobody _ _),
      fun r' _ sits => absurd sits (nobody _ _), fun r' sits => absurd sits (nobody _ _), fun no => by cases no⟩
    · rw [show (sl.init type).taken = none from untaken] at taken
      cases taken
    · rw [show (sl.init type).served = none from unserved] at served
      cases served
  refine begun.post (Or.inl rfl) (by show SS_INIT ≠ SS_UNUSED; decide)
    (Or.inl (by show SS_INIT ≠ SS_CLOSED; decide)) rfl trivial
    (fun r' stage' sits => absurd sits (nobody _ _)) (fun r' stage' sits => absurd sits (nobody _ _))
    (fun _ => ⟨closed, fun r' stage' sits => absurd sits (nobody _ _)⟩) (fun p n e same => ?_)
    (fun no => by cases no)
  injection same with _ number erred
  exact ⟨number.symm, erred.symm, by decide⟩

/-! ## Messages of the daemon -/

theorem Fit.answer (fit : Fit sl file seat) {a : Taken} (taken : sl.taken = some a) {state : Nat}
    (ret : Nat) (used : state ≠ SS_UNUSED) : Fit (sl.answer state ret) file seat := by
  obtain ⟨number, user, read, waiting, here⟩ := fit.taken a taken
  have answers : (sl.answer state ret).answers = put sl.answers sl.asked (some ret) := by
    simp only [Slot.answer, taken, Option.elim, number]
  have served : (sl.answer state ret).served = if a.closing then none else sl.served := by
    simp only [Slot.answer, taken, Option.elim]
  have acked : (sl.answer state ret).acked = (sl.acked || a.closing) := by
    simp only [Slot.answer, taken, Option.elim, user, decide_true, Bool.and_true]
  have not_acked : sl.acked = false := by
    cases known : sl.acked with
    | false => rfl
    | true =>
      have no := (fit.acked known).2.2.1
      rw [waiting] at no
      cases no
  constructor
  · intro k later
    have later' : sl.asked < k := later
    rw [answers, put_ne _ _ (Nat.ne_of_gt later')]
    exact fit.fresh k later'
  · intro unread
    rw [show (sl.answer state ret).unread = false from read] at unread
    cases unread
  · intro b no
    cases no
  · intro u serves
    rw [served] at serves
    split at serves
    · cases serves
    · exact fit.served u serves
  · intro unused
    exact absurd unused used
  · intro no
    cases no
  · intro no
    cases no
  · intro r purpose n erred sits
    obtain ⟨same, fine, _⟩ := fit.request r purpose n erred sits
    refine ⟨same, fine, fun no => (by cases no), fun _ => ?_, fun unread => ?_, fun b no => (by cases no)⟩
    · rw [answers, same, put_same]
      rfl
    · rw [show (sl.answer state ret).unread = false from read] at unread
      cases unread
  · exact fit.connecting
  · exact fit.one
  · exact fit.sole
  · intro r sits
    obtain ⟨_, _, closing⟩ := fit.closing r sits
    refine ⟨fun _ => ?_, fun unread => ?_, fun b no => (by cases no)⟩
    · rw [acked, closing a taken, Bool.or_true]
    · rw [show (sl.answer state ret).unread = false from read] at unread
      cases unread
  · intro done
    rw [acked, not_acked, Bool.false_or] at done
    obtain ⟨r, stage, sits, waits⟩ := fit.waits waiting here
    have stage_closing : stage = .closing := by
      cases stage with
      | request purpose n erred =>
        have no := (fit.request r purpose n erred sits).2.2.2.2.2 a taken
        rw [done] at no
        cases no
      | opening _ => exact absurd waits id
      | connecting _ => exact absurd waits id
      | closing => rfl
    rw [stage_closing] at sits
    obtain ⟨closed, only⟩ := fit.sole r .closing sits trivial
    refine ⟨closed, by rw [served, if_pos done], rfl, fun r' stage' sits' => ?_⟩
    rw [only r' stage' sits', sits] at sits'
    injection sits' with same
    exact same.symm

/-- A state change that was not asked for. -/
theorem Fit.enter (fit : Fit sl file seat) {state : Nat} (used : state ≠ SS_UNUSED)
    (open_ : state = SS_CLOSED → sl.nevw_state = false) : Fit { sl with s_state := state } file seat := by
  refine ⟨fit.fresh, fit.unread, fit.taken, fit.served, fun unused => absurd unused used, fit.waits,
    fun waiting closed => ?_, fit.request, fit.connecting, fit.one, fit.sole, fit.closing, fit.acked⟩
  have no : sl.nevw_state = true := waiting
  rw [open_ closed] at no
  cases no

theorem Fit.faulty (fit : Fit sl file seat) (ret : Nat) : Fit (sl.fault ret) file seat := by
  unfold Slot.fault
  split
  · exact fit
  · exact fit.fault ret

/-- The daemon reads a slot whose request is for it. -/
theorem Fit.report (fit : Fit sl file seat) (mine : sl.nev_state = true → sl.orphan = false) :
    Fit sl.report file seat := by
  cases unread : sl.unread with
  | false =>
    have same : sl.report = { sl with nev_state := false } := by
      unfold Slot.report
      simp [unread]
    rw [same]
    refine ⟨fit.fresh, fun no => ?_, fit.taken, fit.served, fit.unused, fit.waits, fit.closed, fit.request,
      fit.connecting, fit.one, fit.sole, fit.closing, fit.acked⟩
    have no' : sl.unread = true := no
    rw [unread] at no'
    cases no'
  | true =>
    have here := mine (fit.unread unread).1
    obtain ⟨waiting, untaken, unanswered⟩ := (fit.unread unread).2 here
    have taken : sl.report.taken = some ⟨sl.asked, sl.user, decide (sl.newstate = SS_CLOSED)⟩ := by
      simp [Slot.report, unread]
    constructor
    · exact fit.fresh
    · intro no
      cases no
    · intro a known
      rw [taken] at known
      injection known with same
      rw [← same]
      exact ⟨rfl, rfl, rfl, waiting, here⟩
    · intro u served
      have known : (if sl.unread = true ∧ sl.newstate = SS_UNCONNECTED then some sl.user
        else sl.served) = some u := served
      split at known
      · injection known with same
        exact ⟨same.symm, here⟩
      · exact fit.served u known
    · intro unused
      obtain ⟨_, _, _, _, quiet⟩ := fit.unused unused
      rcases quiet with no | no
      · rw [here] at no
        cases no
      · rw [waiting] at no
        cases no
    · exact fit.waits
    · exact fit.closed
    · intro r purpose n erred sits
      obtain ⟨number, fine, unanswered', answered, other, _⟩ := fit.request r purpose n erred sits
      refine ⟨number, fine, unanswered', answered, fun no => (by cases no), fun a known => ?_⟩
      rw [taken] at known
      injection known with same
      rw [← same]
      exact decide_eq_false (other unread)
    · exact fit.connecting
    · exact fit.one
    · exact fit.sole
    · intro r sits
      obtain ⟨done, closes, _⟩ := fit.closing r sits
      refine ⟨done, fun no => (by cases no), fun a known => ?_⟩
      rw [taken] at known
      injection known with same
      rw [← same]
      exact decide_eq_true (closes unread)
    · intro acked
      have no := (fit.acked acked).2.2.1
      rw [waiting] at no
      cases no

/-- The daemon goes. -/
theorem Fit.down (fit : Fit sl file seat) : Fit sl.down file seat := by
  by_cases unused : sl.s_state = SS_UNUSED
  · obtain ⟨_, _, unserved, untaken, _⟩ := fit.unused unused
    have same : sl.down = sl := by
      unfold Slot.down
      dsimp only
      rw [if_pos unused, ← unserved, ← untaken]
    rw [same]
    exact fit
  · have shape : sl.down = { sl with
        taken := none, served := none, s_state := SS_CLOSED, s_error := ENETDOWN, orphan := true } :=
      if_neg unused
    rw [shape]
    constructor
    · exact fit.fresh
    · intro unread
      exact ⟨(fit.unread unread).1, fun no => by cases no⟩
    · intro a no
      cases no
    · intro u no
      cases no
    · intro no
      cases no
    · intro _ no
      cases no
    · intro _ _
      rfl
    · intro r purpose n erred sits
      obtain ⟨number, fine, unanswered, answered, other, _⟩ := fit.request r purpose n erred sits
      exact ⟨number, fine, unanswered, answered, other, fun a no => by cases no⟩
    · exact fit.connecting
    · exact fit.one
    · exact fit.sole
    · intro r sits
      obtain ⟨done, closes, _⟩ := fit.closing r sits
      exact ⟨done, closes, fun a no => by cases no⟩
    · intro acked
      obtain ⟨closed, _, answered, all⟩ := fit.acked acked
      exact ⟨closed, rfl, answered, all⟩

end Slots

/-! ## One process at one slot -/

section Places
variable {s t : State} {r i : Nat} {stage : Stage}

theorem seats_some : seats s i r = some stage ↔ s.procs r = some ⟨i, stage⟩ := by
  unfold seats
  rcases known : s.procs r with _ | ⟨j, stage'⟩
  · simp
  · by_cases same : j = i
    · simp [same]
    · simp [same]

/-- The process is at the slot, or in no call. -/
def Near (s : State) (r i : Nat) : Prop := s.procs r = none ∨ ∃ stage, s.procs r = some ⟨i, stage⟩

theorem seats_put {x : Option Stage} (procs : t.procs = put s.procs r (x.map fun stage => ⟨i, stage⟩)) :
    seats t i = put (seats s i) r x := by
  funext r'
  by_cases same : r' = r
  · rw [same, put_same]
    unfold seats
    rw [procs, put_same]
    cases x <;> simp
  · unfold seats
    rw [procs, put_ne _ _ same, put_ne _ _ same]

theorem seats_else {x : Option Stage} (procs : t.procs = put s.procs r (x.map fun stage => ⟨i, stage⟩))
    (near : Near s r i) {j : Nat} (other : j ≠ i) : seats t j = seats s j := by
  funext r'
  by_cases same : r' = r
  · rw [same]
    have after : seats t j r = none := by
      unfold seats
      rw [procs, put_same]
      cases x <;> simp [other.symm]
    have before : seats s j r = none := by
      unfold seats
      rcases near with here | ⟨stage, here⟩
      · rw [here]
        rfl
      · rw [here]
        simp [other.symm]
    rw [after, before]
  · unfold seats
    rw [procs, put_ne _ _ same]

/-- What a step of process `r` at slot `i` comes to. -/
structure Turn (s t : State) (r i : Nat) (sl : Slot) (file : Bool) (x : Option Stage) (ds : List Deed) :
    Prop where
  slot : t.slot = put s.slot i sl
  file : t.file = put s.file i file
  procs : t.procs = put s.procs r (x.map fun stage => ⟨i, stage⟩)
  deeds : t.deeds = s.deeds ++ ds

end Places

end NetNative
