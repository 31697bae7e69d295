import Fuzix.NetSeats

/-!
# Every request is answered, every slot is given back

In a run in which no two calls ask at one socket at a time, no socket is closed that the
daemon closed already, no close is interrupted, a new socket finds room for its descriptor,
no call goes on after an answer with an error, and the daemon answers what it has read and
speaks of the users it serves, each request is heard and answered, and a slot has no
user but the one the daemon knows.
-/

namespace NetNative

open Table Run
open Sock (SS_UNUSED SS_INIT SS_UNCONNECTED SS_BOUND SS_LISTENING SS_CONNECTING SS_CLOSED)

/-- What should come of it: a request is posted when the one before was read; a caller goes
on after the answer to its own request, and fails if that is an error, or if the daemon is
gone; a call with such an answer fails; a slot is given back when the daemon has answered
the close, or is gone; a message changes the state of the user it is about. -/
def Deed.right : Deed → Prop
  | .posts heard => heard = true
  | .resumes (some ret) _ failed => failed = true ↔ ret ≠ 0
  | .resumes none gone failed => gone = true ∧ failed = true
  | .ends erred failed => erred = true → failed = true
  | .frees acked gone => acked = true ∨ gone = true
  | .moves about user => about = some user

instance (stage : Stage) : Decidable stage.waits := by
  cases stage
  · exact Decidable.isTrue trivial
  · exact Decidable.isFalse id
  · exact Decidable.isFalse id
  · exact Decidable.isTrue trivial

theorem Purpose.open_ (purpose : Purpose) : purpose.state ≠ SS_CLOSED := by
  unfold Purpose.state
  split <;> decide

/-- The answer lets the call come to its end, and a new socket finds room. -/
def Purpose.fair (sl : Slot) (room : Bool) : Purpose → Prop
  | .socket => room = true
  | .connect => sl.ret = 0
  | .bindFor _ => sl.ret = 0
  | _ => True

def Stage.fair (sl : Slot) (room : Bool) : Stage → Prop
  | .request purpose _ _ => sl.nevw_state = true ∨ purpose.fair sl room
  | _ => True

/-- The daemon answers what it has read, speaks of the user it serves, and does not close a
socket by itself while a request is open. -/
def Message.fair (sl : Slot) : Message → Prop
  | .init _ => sl.taken.isSome
  | .newstate data _ => sl.taken.isSome ∧ data % 256 ≠ SS_UNUSED
  | .event data _ => sl.served.isSome ∧ data % 256 ≠ SS_UNUSED ∧
      (data % 256 = SS_CLOSED → sl.nevw_state = false)
  | .reset _ => sl.served.isSome ∧ sl.nevw_state = false
  | .shutr _ => True

instance (sl : Slot) (room : Bool) (purpose : Purpose) : Decidable (purpose.fair sl room) := by
  unfold Purpose.fair
  cases purpose <;> infer_instance

instance (sl : Slot) (room : Bool) (stage : Stage) : Decidable (stage.fair sl room) := by
  unfold Stage.fair
  cases stage <;> infer_instance

instance (sl : Slot) (m : Message) : Decidable (m.fair sl) := by
  unfold Message.fair
  cases m <;> infer_instance

theorem Fit.message {sl : Slot} {file : Bool} {seat : Nat → Option Stage} (fit : Fit sl file seat)
    {m : Message} (fine : m.fair sl) : Fit (m.change sl) file seat := by
  cases m with
  | init ret =>
    obtain ⟨a, taken⟩ := Option.isSome_iff_exists.mp fine
    exact fit.answer taken ret (by decide)
  | newstate data ret =>
    obtain ⟨a, taken⟩ := Option.isSome_iff_exists.mp fine.1
    exact fit.answer taken ret fine.2
  | event data ret => exact (fit.enter fine.2.1 fine.2.2).faulty ret
  | reset ret => exact (fit.enter (by decide) fun _ => fine.2).faulty ret
  | shutr ret => exact fit.faulty ret

/-- A message that changes the state is about the user of the slot. -/
theorem Fit.about {sl : Slot} {file : Bool} {seat : Nat → Option Stage} (fit : Fit sl file seat)
    {m : Message} (fine : m.fair sl) (moved : (m.change sl).s_state ≠ sl.s_state) :
    m.about sl = some sl.user := by
  have taken : sl.taken.isSome → sl.taken.map Taken.user = some sl.user := by
    intro known
    obtain ⟨a, taken⟩ := Option.isSome_iff_exists.mp known
    rw [taken, Option.map_some, (fit.taken a taken).2.1]
  have served : sl.served.isSome → sl.served = some sl.user := by
    intro known
    obtain ⟨u, served⟩ := Option.isSome_iff_exists.mp known
    rw [served, (fit.served u served).1]
  cases m with
  | init ret => exact taken fine
  | newstate data ret => exact taken fine.1
  | event data ret => exact served fine.1
  | reset ret => exact served fine.1
  | shutr ret =>
    refine absurd ?_ moved
    show (sl.fault ret).s_state = sl.s_state
    unfold Slot.fault
    split <;> rfl

section Fairness
variable [Limits]

/-- No call waits for an answer at the socket. -/
def unasked (s : State) (i : Nat) : Prop := ∀ r < PTABSIZE, ∀ stage ∈ seats s i r, ¬ stage.waits

def fair (s : State) : Action → Prop
  | .bind _ i _ => unasked s i
  | .listen _ i => unasked s i
  | .connect _ i _ => unasked s i
  | .close _ i => (s.slot i).s_state ≠ SS_CLOSED ∨ (s.slot i).orphan = true
  | .run r room => ∀ p ∈ s.procs r, p.stage.fair (s.slot p.slot) room
  | .signal r => ∀ p ∈ s.procs r, p.stage = .closing →
      (s.slot p.slot).acked = true ∨ (s.slot p.slot).orphan = true
  | .message i m => s.net_ino = true → i < NSOCKET → m.fair (s.slot i)
  | .read => ∀ i ∈ netdev_findevent s, (s.slot i).nev_state = true → (s.slot i).orphan = false
  | _ => True

instance (s : State) (i : Nat) : Decidable (unasked s i) := by unfold unasked; infer_instance

instance (s : State) (a : Action) : Decidable (fair s a) := by
  unfold fair
  cases a <;> infer_instance

structure Sound (s : State) : Prop where
  fit : ∀ i, Fit (s.slot i) (s.file i) (seats s i)
  bound : ∀ r p, s.procs r = some p → r < PTABSIZE
  right : ∀ d ∈ s.deeds, d.right

/-! ## The parts of a step -/

variable {s t : State} {r i : Nat} {stage : Stage} {erred room : Bool}

theorem Sound.turn (sound : Sound s) {sl : Slot} {file : Bool} {x : Option Stage} {ds : List Deed}
    (turn : Turn s t r i sl file x ds) (near : Near s r i) (bound : r < PTABSIZE)
    (fit : Fit sl file (put (seats s i) r x)) (right : ∀ d ∈ ds, d.right) : Sound t := by
  constructor
  · intro j
    by_cases same : j = i
    · rw [same, turn.slot, turn.file, seats_put turn.procs, put_same, put_same]
      exact fit
    · rw [turn.slot, turn.file, seats_else turn.procs near same, put_ne _ _ same, put_ne _ _ same]
      exact sound.fit j
  · intro r' p known
    rw [turn.procs] at known
    by_cases same : r' = r
    · rw [same]
      exact bound
    · rw [put_ne _ _ same] at known
      exact sound.bound r' p known
  · intro d member
    rw [turn.deeds] at member
    rcases List.mem_append.mp member with old | new
    · exact sound.right d old
    · exact right d new

theorem Sound.note (sound : Sound s) {d : Deed} (right : d.right) : Sound (note s d) := by
  refine ⟨sound.fit, sound.bound, fun d' member => ?_⟩
  rcases List.mem_append.mp member with old | new
  · exact sound.right d' old
  · rw [List.mem_singleton.mp new]
    exact right

theorem Sound.finish (sound : Sound s) (near : Near s r i) (bound : r < PTABSIZE) {failed : Bool}
    (quiet : ∀ stage, seats s i r = some stage → ¬ stage.waits ∨ (s.slot i).nevw_state = false ∨
      (s.slot i).orphan = true) (right : erred = true → failed = true) :
    Sound (finish s r erred failed) := by
  have turn : Turn s (NetNative.finish s r erred failed) r i (s.slot i) (s.file i) none
      [.ends erred failed] := by
    constructor
    · exact (put_self ..).symm
    · exact (put_self ..).symm
    · rfl
    · rfl
  refine sound.turn turn near bound ?_ ?_
  · rcases near with nowhere | ⟨stage, here⟩
    · have empty : seats s i r = none := by
        unfold seats
        rw [nowhere]
        rfl
      have same : put (seats s i) r none = seats s i := by
        rw [← empty, put_self]
      rw [same]
      exact sound.fit i
    · have sits := seats_some.mpr here
      exact (sound.fit i).move sits none (quiet stage sits) fun _ no => by cases no
  · intro d member
    rw [List.mem_singleton.mp member]
    exact right

theorem Sound.ask (sound : Sound s) (near : Near s r i) (bound : r < PTABSIZE) {purpose : Purpose}
    (old : purpose ≠ .socket) (quiet : (s.slot i).nevw_state = false ∨ (s.slot i).orphan = true)
    (used : (s.slot i).s_state ≠ SS_UNUSED) (open_ : (s.slot i).s_state ≠ SS_CLOSED)
    (live : (s.slot i).acked = false)
    (others : ∀ r' stage', seats s i r' = some stage' → r' ≠ r → ¬ stage'.waits ∧ ¬ stage'.sole) :
    Sound (ask s r i purpose false) := by
  have shape : NetNative.ask s r i purpose false = sleep (post s i purpose.state) r i
      (.request purpose ((s.slot i).asked + 1) false) := by
    have posted : (post s i purpose.state).slot i = (s.slot i).post purpose.state := put_same ..
    unfold NetNative.ask loop
    dsimp only
    rw [posted]
    exact if_neg open_
  have turn : Turn s (NetNative.ask s r i purpose false) r i ((s.slot i).post purpose.state) (s.file i)
      (some (.request purpose ((s.slot i).asked + 1) false)) [.posts (s.slot i).heard] := by
    rw [shape]
    constructor
    · rfl
    · exact (put_self ..).symm
    · rfl
    · rfl
  refine sound.turn turn near bound ?_ ?_
  · refine (sound.fit i).post quiet used (Or.inl open_) live trivial
      (fun r' stage' sits other => (others r' stage' sits other).1)
      (fun r' stage' sits other => (others r' stage' sits other).2) (fun no => absurd no old)
      (fun purpose' n erred' same => ?_) (fun no => by cases no)
    injection same with _ number erred'
    exact ⟨number.symm, erred'.symm, purpose.open_⟩
  · intro d member
    rw [List.mem_singleton.mp member]
    exact (sound.fit i).heard quiet

theorem Sound.proceed (sound : Sound s) (near : Near s r i) (bound : r < PTABSIZE) {next : Next}
    (quiet : (s.slot i).nevw_state = false ∨ (s.slot i).orphan = true) (live : (s.slot i).acked = false)
    (others : ∀ r' stage', seats s i r' = some stage' → r' ≠ r → ¬ stage'.waits ∧ ¬ stage'.sole) :
    Sound (proceed s r i next false) := by
  have stops : Sound (NetNative.finish s r false true) :=
    sound.finish near bound (fun _ _ => Or.inr quiet) fun _ => rfl
  have asks : (s.slot i).s_state = SS_BOUND → ∀ purpose, purpose ≠ .socket →
      Sound (NetNative.ask s r i purpose false) := by
    intro at_bound purpose old
    exact sound.ask near bound old quiet (by rw [at_bound]; decide) (by rw [at_bound]; decide) live others
  cases next with
  | listen =>
    unfold NetNative.proceed
    dsimp only
    split
    · rename_i fine
      exact asks fine.2 _ (by decide)
    · exact stops
  | connect ok =>
    unfold NetNative.proceed
    dsimp only
    split
    · rename_i fine
      exact asks fine.1 _ (by decide)
    · exact stops

/-- A process goes on to another sleep. -/
theorem Sound.sleep (sound : Sound s) (here : s.procs r = some ⟨i, stage⟩) {stage' : Stage}
    (fit : Fit (s.slot i) (s.file i) (put (seats s i) r (some stage'))) : Sound (sleep s r i stage') := by
  have turn : Turn s (NetNative.sleep s r i stage') r i (s.slot i) (s.file i) (some stage') [] := by
    constructor
    · exact (put_self ..).symm
    · exact (put_self ..).symm
    · rfl
    · exact (List.append_nil _).symm
  exact sound.turn turn (Or.inr ⟨stage, here⟩) (sound.bound r _ here) fit fun d no => absurd no (List.not_mem_nil)

theorem Sound.opened (sound : Sound s) (here : s.procs r = some ⟨i, stage⟩) (sole : stage.sole)
    (goes_on : stage ≠ .closing)
    (quiet : ¬ stage.waits ∨ (s.slot i).nevw_state = false ∨ (s.slot i).orphan = true) (interrupted : Bool) :
    Sound (opened s r i erred interrupted) := by
  have turn : Turn s (NetNative.opened s r i erred interrupted) r i (s.slot i) true none
      [.ends erred (erred || interrupted)] := by
    constructor
    · exact (put_self ..).symm
    · rfl
    · rfl
    · rfl
  refine sound.turn turn (Or.inr ⟨stage, here⟩) (sound.bound r _ here)
    ((sound.fit i).opened (seats_some.mpr here) sole goes_on quiet) fun d member => ?_
  rw [List.mem_singleton.mp member]
  intro yes
  rw [yes]
  rfl

theorem Sound.connected (sound : Sound s) (here : s.procs r = some ⟨i, stage⟩)
    (quiet : ¬ stage.waits ∨ (s.slot i).nevw_state = false ∨ (s.slot i).orphan = true) :
    Sound (connected s r i false) := by
  have turn : Turn s (NetNative.connected s r i false) r i { s.slot i with s_error := 0 } (s.file i) none
      [.ends false ((s.slot i).s_error ≠ 0)] := by
    constructor
    · rfl
    · exact (put_self ..).symm
    · rfl
    · rfl
  have moved := (sound.fit i).move (seats_some.mpr here) none quiet fun _ no => by cases no
  refine sound.turn turn (Or.inr ⟨stage, here⟩) (sound.bound r _ here) (moved.fault 0) fun d member => ?_
  rw [List.mem_singleton.mp member]
  intro no
  cases no

/-- The slot is given back, and the call that does it ends. -/
theorem Sound.freed (sound : Sound s) (here : s.procs r = some ⟨i, stage⟩) (sole : stage.sole)
    (done : (s.slot i).acked = true ∨ (s.slot i).orphan = true) (ds : List Deed)
    (right : ∀ d ∈ ds, d.right) (slot : t.slot = (free s i).slot) (file : t.file = s.file)
    (procs : t.procs = put s.procs r none) (deeds : t.deeds = (free s i).deeds ++ ds) : Sound t := by
  have turn : Turn s t r i { s.slot i with s_state := SS_UNUSED } (s.file i) none
      (.frees (s.slot i).acked (s.slot i).orphan :: ds) := by
    constructor
    · exact slot
    · exact file.trans (put_self ..).symm
    · exact procs
    · rw [deeds]
      exact List.append_assoc ..
  refine sound.turn turn (Or.inr ⟨stage, here⟩) (sound.bound r _ here)
    ((sound.fit i).freed (seats_some.mpr here) sole done) fun d member => ?_
  rcases List.mem_cons.mp member with first | rest
  · rw [first]
    exact done
  · exact right d rest

/-! ## Steps of processes -/

theorem Sound.fails (sound : Sound s) {purpose : Purpose} {n : Nat}
    (here : s.procs r = some ⟨i, .request purpose n erred⟩) (waiting : (s.slot i).nevw_state = true)
    (gone : (s.slot i).orphan = true) : Sound (fails s r i purpose n erred) := by
  have unanswered : (s.slot i).answers n = none :=
    ((sound.fit i).request r purpose n erred (seats_some.mpr here)).2.2.1 waiting
  have noted : Sound (NetNative.note s (.resumes ((s.slot i).answers n) (s.slot i).orphan true)) := by
    refine sound.note ?_
    rw [unanswered, gone]
    exact ⟨rfl, rfl⟩
  unfold NetNative.fails
  dsimp only
  by_cases new : purpose = .socket
  · rw [if_pos new]
    refine noted.freed here new (Or.inr gone) [.ends erred true] (fun d member => ?_) rfl rfl rfl rfl
    rw [List.mem_singleton.mp member]
    exact fun _ => rfl
  · rw [if_neg new]
    exact noted.finish (Or.inr ⟨_, here⟩) (sound.bound r _ here) (fun _ _ => Or.inr (Or.inr gone)) fun _ => rfl

theorem Sound.returns (sound : Sound s) {purpose : Purpose} {n : Nat}
    (here : s.procs r = some ⟨i, .request purpose n false⟩) (answered : (s.slot i).nevw_state = false)
    (fine : purpose.fair (s.slot i) room) :
    Sound (returns s r i purpose (decide ((s.slot i).ret ≠ 0)) room) := by
  have sits := seats_some.mpr here
  have bound := sound.bound r _ here
  have quiet : (s.slot i).nevw_state = false ∨ (s.slot i).orphan = true := Or.inl answered
  have near : Near s r i := Or.inr ⟨_, here⟩
  have others : ∀ r' stage', seats s i r' = some stage' → r' ≠ r → ¬ stage'.waits ∧ ¬ stage'.sole := by
    intro r' stage' sits' other
    constructor
    · intro waits
      exact other ((sound.fit i).one r' r stage' _ sits' sits waits trivial)
    · intro sole
      exact other (((sound.fit i).sole r' stage' sits' sole).2 r _ sits).symm
  have live : (s.slot i).acked = false := by
    cases acked : (s.slot i).acked with
    | false => rfl
    | true =>
      have no := ((sound.fit i).acked acked).2.2.2 r _ sits
      cases no
  have no_error : (s.slot i).ret = 0 → decide ((s.slot i).ret ≠ 0) = false := by
    intro none_ret
    rw [none_ret]
    rfl
  cases purpose with
  | socket =>
    have room' : room = true := fine
    unfold NetNative.returns
    dsimp only
    rw [if_pos room']
    split
    · refine sound.sleep here ((sound.fit i).move sits _ (Or.inr quiet) fun stage' same => ?_)
      injection same with same
      rw [← same]
      exact ⟨id, fun no => (by cases no), fun _ no => (by cases no), fun _ => rfl⟩
    · exact sound.opened here rfl (fun no => by cases no) (Or.inr quiet) false
  | bind => exact sound.finish near bound (fun _ _ => Or.inr quiet) id
  | listen => exact sound.finish near bound (fun _ _ => Or.inr quiet) id
  | connect =>
    unfold NetNative.returns
    dsimp only
    rw [no_error fine]
    split
    · refine sound.sleep here ((sound.fit i).move sits _ (Or.inr quiet) fun stage' same => ?_)
      injection same with same
      rw [← same]
      refine ⟨id, fun no => (by cases no), fun _ same' => ?_, fun no => False.elim no⟩
      injection same' with same'
      exact same'.symm
    · exact sound.connected here (Or.inr quiet)
  | bindFor next =>
    unfold NetNative.returns
    dsimp only
    rw [no_error fine]
    exact sound.proceed near bound quiet live others

theorem Sound.resume (sound : Sound s) {purpose : Purpose} {n : Nat}
    (here : s.procs r = some ⟨i, .request purpose n erred⟩)
    (fine : (s.slot i).nevw_state = true ∨ purpose.fair (s.slot i) room) :
    Sound (resume s r i purpose n erred room) := by
  have sits := seats_some.mpr here
  obtain ⟨_, none_erred, _, answer, _⟩ := (sound.fit i).request r purpose n erred sits
  unfold NetNative.resume
  by_cases waiting : (s.slot i).nevw_state = true
  · rw [if_pos waiting]
    unfold loop
    split
    · rename_i closed
      exact sound.fails here waiting ((sound.fit i).closed waiting closed)
    · have same : put (seats s i) r (some (.request purpose n erred)) = seats s i := by
        rw [← sits, put_self]
      refine sound.sleep here ?_
      rw [same]
      exact sound.fit i
  · rw [if_neg waiting]
    have answered : (s.slot i).nevw_state = false := Bool.eq_false_of_not_eq_true waiting
    have noted : Sound (NetNative.note s (.resumes ((s.slot i).answers n) (s.slot i).orphan
        ((s.slot i).ret ≠ 0))) := by
      refine sound.note ?_
      rw [answer answered]
      exact decide_eq_true_iff
    rw [none_erred] at here ⊢
    dsimp only
    rw [Bool.false_or]
    exact noted.returns here answered (fine.resolve_left waiting)

theorem Sound.wake (sound : Sound s) (here : s.procs r = some ⟨i, stage⟩)
    (fine : stage.fair (s.slot i) room) : Sound (wake s r i room stage) := by
  cases stage with
  | request purpose n erred => exact sound.resume here fine
  | opening erred =>
    unfold NetNative.wake
    dsimp only
    split
    · exact sound
    · exact sound.opened here trivial (fun no => by cases no) (Or.inl id) false
  | connecting erred =>
    have none_erred := (sound.fit i).connecting r erred (seats_some.mpr here)
    unfold NetNative.wake
    dsimp only
    split
    · exact sound
    · rw [none_erred]
      exact sound.connected here (Or.inl id)
  | closing =>
    unfold NetNative.wake
    dsimp only
    split
    · rename_i closed
      have done : (s.slot i).acked = true ∨ (s.slot i).orphan = true := by
        cases waiting : (s.slot i).nevw_state with
        | true => exact Or.inr ((sound.fit i).closed waiting closed)
        | false => exact Or.inl (((sound.fit i).closing r (seats_some.mpr here)).1 waiting)
      exact sound.freed here trivial done [] (fun d no => absurd no (List.not_mem_nil)) rfl rfl rfl
        (List.append_nil _).symm
    · exact sound

theorem Sound.interrupt (sound : Sound s) (here : s.procs r = some ⟨i, stage⟩)
    (fine : stage = .closing → (s.slot i).acked = true ∨ (s.slot i).orphan = true) :
    Sound (interrupt s r i stage) := by
  cases stage with
  | request purpose n erred => exact sound
  | opening erred => exact sound.opened here trivial (fun no => by cases no) (Or.inl id) true
  | connecting erred =>
    refine sound.finish (Or.inr ⟨_, here⟩) (sound.bound r _ here) (fun stage sits => Or.inl ?_) fun _ => rfl
    rw [seats_some.mpr here] at sits
    injection sits with same
    rw [← same]
    exact id
  | closing =>
    exact sound.freed here trivial (fine rfl) [] (fun d no => absurd no (List.not_mem_nil)) rfl rfl rfl
      (List.append_nil _).symm

/-- The state in which a new socket waits for the daemon. -/
def begun (s : State) (i : Nat) (type : Sock.SockType) : State :=
  NetNative.note (modify s i fun sl => (sl.init type).post SS_UNCONNECTED) (.posts (s.slot i).heard)

theorem Sound.socket (sound : Sound s) (idle : idle s r) (type : Sock.SockType) :
    Sound (NetNative.socket s r type) := by
  unfold NetNative.socket
  rcases found : (List.range NSOCKET).find? (fun i => decide ((s.slot i).s_state = SS_UNUSED)) with _ | i
  · exact sound
  · dsimp only
    split
    · have unused : (s.slot i).s_state = SS_UNUSED := by
        have fits := List.find?_some found
        exact of_decide_eq_true fits
      obtain ⟨_, _, _, _, quiet⟩ := (sound.fit i).unused unused
      have posted : (begun s i type).slot i = ((s.slot i).init type).post SS_UNCONNECTED := put_same ..
      have first : loop (begun s i type) r i .socket ((begun s i type).slot i).asked false =
          NetNative.sleep (begun s i type) r i (.request .socket ((s.slot i).asked + 1) false) := by
        have new : (((s.slot i).init type).post SS_UNCONNECTED).s_state ≠ SS_CLOSED := by
          show SS_INIT ≠ SS_CLOSED
          decide
        unfold loop
        rw [posted]
        exact if_neg new
      have turn : Turn s (NetNative.sleep (begun s i type) r i (.request .socket ((s.slot i).asked + 1) false))
          r i (((s.slot i).init type).post SS_UNCONNECTED) (s.file i)
          (some (.request .socket ((s.slot i).asked + 1) false)) [.posts (s.slot i).heard] := by
        constructor
        · rfl
        · exact (put_self ..).symm
        · rfl
        · rfl
      show Sound (loop (begun s i type) r i .socket ((begun s i type).slot i).asked false)
      rw [first]
      refine sound.turn turn (Or.inl idle.2) idle.1 ((sound.fit i).init unused type r) fun d member => ?_
      rw [List.mem_singleton.mp member]
      exact (sound.fit i).heard quiet.symm
    · exact sound

/-- What a call finds that no other call asks at the socket. -/
theorem Sound.call (sound : Sound s) (r : Nat) (open_ : s.file i = true) (alone : unasked s i) :
    ((s.slot i).nevw_state = false ∨ (s.slot i).orphan = true) ∧ (s.slot i).acked = false ∧
    (s.slot i).s_state ≠ SS_UNUSED ∧
    ∀ r' stage', seats s i r' = some stage' → r' ≠ r → ¬ stage'.waits ∧ ¬ stage'.sole := by
  have none_waits : ∀ r' stage', seats s i r' = some stage' → ¬ stage'.waits := by
    intro r' stage' sits
    exact alone r' (sound.bound r' _ (seats_some.mp sits)) stage' sits
  refine ⟨(sound.fit i).quiet none_waits, ?_, fun unused => ?_, fun r' stage' sits _ =>
    ⟨none_waits r' stage' sits, fun sole => ?_⟩⟩
  · cases acked : (s.slot i).acked with
    | false => rfl
    | true =>
      have no := ((sound.fit i).acked acked).1
      rw [open_] at no
      cases no
  · have no := ((sound.fit i).unused unused).1
    rw [open_] at no
    cases no
  · have no := ((sound.fit i).sole r' stage' sits sole).1
    rw [open_] at no
    cases no

theorem Sound.sock_close (sound : Sound s) (idle : idle s r) (open_ : s.file i = true) (alone : alone s i)
    (fine : (s.slot i).s_state ≠ SS_CLOSED ∨ (s.slot i).orphan = true) : Sound (sock_close s r i) := by
  have nobody : ∀ r' stage', seats s i r' ≠ some stage' := by
    intro r' stage' sits
    have known := seats_some.mp sits
    refine alone r' (sound.bound r' _ known) ?_
    rw [known]
    rfl
  obtain ⟨quiet, live, used, _⟩ := sound.call r open_ fun r' _ stage' sits _ => nobody r' stage' sits
  have near : Near s r i := Or.inl idle.2
  have posted : (post s i SS_CLOSED).slot i = (s.slot i).post SS_CLOSED := put_same ..
  have fit : Fit ((s.slot i).post SS_CLOSED) false (put (seats s i) r (some .closing)) := by
    refine (sound.fit i).post quiet used fine live trivial (fun r' stage' sits => absurd sits (nobody _ _))
      (fun r' stage' sits => absurd sits (nobody _ _))
      (fun _ => ⟨rfl, fun r' stage' sits => absurd sits (nobody _ _)⟩) (fun _ _ _ no => (by cases no))
      fun _ => rfl
  have heard : (s.slot i).heard = true := (sound.fit i).heard quiet
  -- the slot as it is when the process sleeps
  have asleep : Sound (NetNative.sleep { post s i SS_CLOSED with file := put s.file i false } r i .closing) := by
    have turn : Turn s (NetNative.sleep { post s i SS_CLOSED with file := put s.file i false } r i .closing) r i
        ((s.slot i).post SS_CLOSED) false (some .closing) [.posts (s.slot i).heard] := ⟨rfl, rfl, rfl, rfl⟩
    refine sound.turn turn near idle.1 fit fun d member => ?_
    rw [List.mem_singleton.mp member]
    exact heard
  unfold NetNative.sock_close
  dsimp only
  split
  · rename_i closed
    have closed' : (s.slot i).s_state = SS_CLOSED := by
      rw [posted] at closed
      exact closed
    have gone : (s.slot i).orphan = true := fine.resolve_left fun no => no closed'
    have gone' : ((post s i SS_CLOSED).slot i).orphan = true := by
      rw [posted]
      exact gone
    have here : (NetNative.sleep { post s i SS_CLOSED with file := put s.file i false } r i .closing).procs r =
        some ⟨i, .closing⟩ := put_same ..
    refine asleep.freed here trivial (Or.inr gone') [] (fun d no => absurd no (List.not_mem_nil)) rfl rfl
      ?_ (List.append_nil _).symm
    exact (put_put ..).symm
  · exact asleep

/-! ## Steps of the daemon -/

theorem Sound.modify (sound : Sound s) {f : Slot → Slot} (fit : Fit (f (s.slot i)) (s.file i) (seats s i)) :
    Sound (modify s i f) := by
  refine ⟨fun j => ?_, sound.bound, sound.right⟩
  by_cases same : j = i
  · rw [same]
    show Fit (put s.slot i (f (s.slot i)) i) (s.file i) (seats s i)
    rw [put_same]
    exact fit
  · show Fit (put s.slot i (f (s.slot i)) j) (s.file j) (seats s j)
    rw [put_ne _ _ same]
    exact sound.fit j

theorem Sound.netdev_write (sound : Sound s) {m : Message}
    (fine : s.net_ino = true → i < NSOCKET → m.fair (s.slot i)) : Sound (netdev_write s i m) := by
  unfold NetNative.netdev_write
  split
  · rename_i heard
    have fine' := fine heard.1 heard.2
    have changed : Sound (NetNative.modify s i m.change) := sound.modify ((sound.fit i).message fine')
    dsimp only
    split
    · exact changed
    · rename_i moved
      exact changed.note ((sound.fit i).about fine' moved)
  · exact sound

theorem Sound.netdev_read (sound : Sound s)
    (fine : ∀ i ∈ netdev_findevent s, (s.slot i).nev_state = true → (s.slot i).orphan = false) :
    Sound (netdev_read s) := by
  unfold NetNative.netdev_read
  split
  · rcases found : netdev_findevent s with _ | i
    · exact sound
    · exact sound.modify ((sound.fit i).report (fine i found))
  · exact sound

theorem Sound.netdev_close (sound : Sound s) : Sound (netdev_close s) := by
  unfold NetNative.netdev_close
  split
  · refine ⟨fun i => ?_, sound.bound, sound.right⟩
    show Fit (if i < NSOCKET then (s.slot i).down else s.slot i) (s.file i) (seats s i)
    split
    · exact (sound.fit i).down
    · exact sound.fit i
  · exact sound

/-! ## Runs -/

theorem Sound.step {a : Action} (sound : Sound s) (fine : fair s a) (step : a.apply s = some t) : Sound t := by
  cases a with
  | socket r type =>
    simp only [Action.apply] at step
    split at step
    · rename_i idle
      injection step with same
      rw [← same]
      exact sound.socket idle type
    · cases step
  | bind r i ok =>
    simp only [Action.apply] at step
    split at step
    · rename_i free
      injection step with same
      obtain ⟨quiet, live, used, others⟩ := sound.call r free.2 fine
      rw [← same]
      unfold NetNative.bind
      split
      · rename_i new
        exact sound.ask (Or.inl free.1.2) free.1.1 (by decide) quiet used (by rw [new.1]; decide) live others
      · exact sound
    · cases step
  | listen r i =>
    simp only [Action.apply] at step
    split at step
    · rename_i free
      injection step with same
      obtain ⟨quiet, live, used, others⟩ := sound.call r free.2 fine
      rw [← same]
      unfold NetNative.listen
      split
      · rename_i new
        exact sound.ask (Or.inl free.1.2) free.1.1 (by decide) quiet used (by rw [new]; decide) live others
      · exact sound.proceed (Or.inl free.1.2) free.1.1 quiet live others
    · cases step
  | connect r i ok =>
    simp only [Action.apply] at step
    split at step
    · rename_i free
      injection step with same
      obtain ⟨quiet, live, used, others⟩ := sound.call r free.2 fine
      rw [← same]
      unfold NetNative.connect
      split
      · exact sound
      split
      · rename_i new
        exact sound.ask (Or.inl free.1.2) free.1.1 (fun no => by cases no) quiet used (by rw [new]; decide) live
          others
      · exact sound.proceed (Or.inl free.1.2) free.1.1 quiet live others
    · cases step
  | close r i =>
    simp only [Action.apply] at step
    split at step
    · rename_i free
      injection step with same
      rw [← same]
      exact sound.sock_close free.1 free.2.1 free.2.2 fine
    · cases step
  | run r room =>
    obtain ⟨p, here, same⟩ := Option.map_eq_some_iff.mp step
    rw [← same]
    exact sound.wake here (fine p here)
  | signal r =>
    obtain ⟨p, here, same⟩ := Option.map_eq_some_iff.mp step
    rw [← same]
    exact sound.interrupt here (fine p here)
  | message i m =>
    injection step with same
    rw [← same]
    exact sound.netdev_write fine
  | read =>
    injection step with same
    rw [← same]
    exact sound.netdev_read fine
  | exit =>
    injection step with same
    rw [← same]
    exact sound.netdev_close
  | init =>
    injection step with same
    rw [← same]
    exact ⟨sound.fit, sound.bound, sound.right⟩

theorem start_sound : Sound start := by
  refine ⟨fun i => ?_, fun r p no => (by cases no), fun d no => absurd no (List.not_mem_nil)⟩
  have nobody : ∀ r stage, seats start i r ≠ some stage := fun r stage no => by cases no
  refine ⟨fun _ _ => rfl, fun no => (by cases no), fun _ no => (by cases no), fun _ no => (by cases no), fun _ =>
    ⟨rfl, fun _ => rfl, rfl, rfl, Or.inr rfl⟩, fun no => (by cases no), fun no => (by cases no),
    fun r _ _ _ sits => absurd sits (nobody _ _), fun r _ sits => absurd sits (nobody _ _),
    fun r _ _ _ sits => absurd sits (nobody _ _), fun r _ sits => absurd sits (nobody _ _),
    fun r sits => absurd sits (nobody _ _), fun no => (by cases no)⟩

end Fairness

/-- In every run of which all steps are fair, all that was done was right. -/
theorem requests_answered [Limits] {as : List Action} {s : State}
    (run : Steps (fun s a t => fair s a ∧ a.apply s = some t) start as s) : ∀ d ∈ s.deeds, d.right := by
  have sound : Sound s :=
    run.keeps (fun _ _ _ sound step => sound.step step.1 step.2) start_sound
  exact sound.right

/-- Two sockets and two processes. -/
@[reducible] def pair : Limits := ⟨2, 2⟩

/-- A socket is made, bound and closed. -/
theorem requests_answered_once : ∃ (_ : Limits) (s : State), (∀ d ∈ s.deeds, d.right) ∧ s.deeds.length = 11 := by
  let m := pair
  have ran : (perform Action.apply fair [.init, .socket 0 .TCP, .read, .message 0 (.init 0), .run 0 true,
      .bind 0 0 true, .read, .message 0 (.newstate 3 0), .run 0 true, .close 0 0, .read,
      .message 0 (.newstate 11 0), .run 0 true] start).map (fun s => s.deeds.length) = some 11 := by
    decide +kernel
  obtain ⟨s, done, count⟩ := Option.map_eq_some_iff.mp ran
  exact ⟨pair, s, requests_answered (perform_steps done), count⟩

/-- A close is interrupted, the slot is given to another process, and the daemon's answer to
the close closes the new socket. -/
theorem late_answer : ∃ (_ : Limits) (s : State), Steps (fun s a t => Action.apply s a = some t) start
    [.init, .socket 0 .TCP, .read, .message 0 (.init 0), .run 0 true, .close 0 0, .read, .signal 0,
      .socket 1 .TCP, .message 0 (.newstate 11 0)] s ∧ ∃ d ∈ s.deeds, ¬ d.right := by
  let m := pair
  have ran : (perform Action.apply (fun _ _ => True) [.init, .socket 0 .TCP, .read, .message 0 (.init 0),
      .run 0 true, .close 0 0, .read, .signal 0, .socket 1 .TCP, .message 0 (.newstate 11 0)] start).map
      (fun s => decide (Deed.moves (some 1) 2 ∈ s.deeds)) = some true := by decide +kernel
  obtain ⟨s, done, found⟩ := Option.map_eq_some_iff.mp ran
  refine ⟨pair, s, (perform_steps done).mono fun _ _ _ step => step.2, _, of_decide_eq_true found, ?_⟩
  intro right
  injection right with same
  cases same

end NetNative
