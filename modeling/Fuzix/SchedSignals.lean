import Fuzix.Sched

/-!
# The order of signals

What `chksigs` reads and does in its loop, pass by pass. A process that is stopped and goes
on makes another pass, with the pending signals and the place in `u_sigvec` of the last one.
-/

set_option linter.unusedSectionVars false

namespace Sched

open Table

variable [Machine] {q : Proc} {pending left : Mask} {svec n j k : Nat}

/-- The loop reads an entry of `u_sigvec`, or it acts on a signal by the entry, with `left`
still pending. -/
inductive Event where
  | read (entry : Nat)
  | act (sig entry : Nat) (left : Mask)

/-- What `scan` reads and does. -/
def trace (q : Proc) (pending : Mask) (svec : Nat) : Nat → Nat → Mask → List Event
  | 0, _, _ => []
  | n + 1, j, left =>
    if pending j = false then trace q pending svec n (j + 1) left
    else
      .read (svec + j) ::
        match disposition q (svec + j) with
        | .dfl =>
          if stopper j = false ∧ (clear j ∨ q.pid = 1) then
            .act j (svec + j) left :: trace q pending svec n (j + 1) (put left j false)
          else [.act j (svec + j) left]
        | .handler => [.act j (svec + j) left]
        | .ign => trace q pending svec n (j + 1) left

/-- One pass of the loop. -/
def pass (q : Proc) (pending : Mask) (svec : Nat) : List Event :=
  trace q pending svec (NSIGS - 1) 1 q.pending

/-- A pass does right by the signals. One that the process ignores is no signal to act on. -/
structure Delivered (q : Proc) (pending : Mask) (svec : Nat) : Prop where
  own : ∀ sig entry left, .act sig entry left ∈ pass q pending svec → entry = sig
  inside : ∀ entry, .read entry ∈ pass q pending svec → entry < NSIGS
  lowest : ∀ sig entry left, .act sig entry left ∈ pass q pending svec →
    left sig = true ∧ q.held sig = false ∧
      ∀ k, 1 ≤ k → k < sig → left k = true → q.held k = false → q.sigvec k = .ign
  cleared : ∀ k, (scan q pending svec (NSIGS - 1) 1 q.pending).2 k = true ↔
    q.pending k = true ∧ ∀ entry left, .act k entry left ∉ pass q pending svec

/-- Every pass of a call does right. For each stop that it comes back from, `resumes` has
the signals that are pending then. -/
def Delivers (q : Proc) (pending : Mask) (svec : Nat) (resumes : List Mask) : Prop :=
  (q.cursig ≠ 0 ∨ noSignal pending = true ∨ q.status = .stopped) ∨
    Delivered q pending svec ∧
      match resumes with
      | [] => True
      | meanwhile :: rest =>
        ∀ j, (scan q pending svec (NSIGS - 1) 1 q.pending).1 = .stop j →
          Delivers { q with status := .running, pending := meanwhile } pending (svec + j) rest

/-! ## One pass -/

/-- The loop goes on behind the signal. -/
def Passes (q : Proc) (entry sig : Nat) : Prop :=
  disposition q entry = .ign ∨
    disposition q entry = .dfl ∧ stopper sig = false ∧ (clear sig = true ∨ q.pid = 1)

instance (q : Proc) (entry sig : Nat) : Decidable (Passes q entry sig) := by
  unfold Passes; infer_instance

theorem scan_skip (none : pending j = false) :
    scan q pending svec (n + 1) j left = scan q pending svec n (j + 1) left := by
  rw [scan, if_pos none]

theorem trace_skip (none : pending j = false) :
    trace q pending svec (n + 1) j left = trace q pending svec n (j + 1) left := by
  rw [trace, if_pos none]

/-- What is left when the loop goes on behind signal `j`. -/
def after (q : Proc) (svec j : Nat) (left : Mask) : Mask :=
  if disposition q (svec + j) = .ign then left else put left j false

/-- The act on signal `j`, unless it is ignored. -/
def acts (q : Proc) (svec j : Nat) (left : Mask) : List Event :=
  if disposition q (svec + j) = .ign then [] else [.act j (svec + j) left]

theorem scan_pass (some : pending j = true) (passes : Passes q (svec + j) j) :
    scan q pending svec (n + 1) j left = scan q pending svec n (j + 1) (after q svec j left) := by
  rw [scan, if_neg (by simp [some])]
  unfold after
  rcases passes with ign | ⟨dfl, free, passed⟩
  · rw [ign]
    rfl
  · rw [dfl]
    dsimp only
    rw [if_neg (by rw [free]; exact Bool.false_ne_true), if_pos passed]
    rfl

theorem trace_pass (some : pending j = true) (passes : Passes q (svec + j) j) :
    trace q pending svec (n + 1) j left =
      .read (svec + j) :: (acts q svec j left ++ trace q pending svec n (j + 1) (after q svec j left)) := by
  rw [trace, if_neg (by simp [some])]
  unfold acts after
  rcases passes with ign | ⟨dfl, free, passed⟩
  · rw [ign]
    rfl
  · rw [dfl]
    dsimp only
    rw [if_pos ⟨free, passed⟩]
    rfl

/-- The verdict of a signal that ends the loop. -/
def verdict (q : Proc) (entry sig : Nat) : Verdict :=
  if disposition q entry = .dfl then if stopper sig then .stop sig else .kill sig else .caught sig

theorem scan_end (some : pending j = true) (ends : ¬ Passes q (svec + j) j) :
    scan q pending svec (n + 1) j left = (verdict q (svec + j) j, put left j false) := by
  rw [scan, if_neg (by simp [some])]
  unfold verdict
  cases disp : disposition q (svec + j) with
  | dfl =>
    dsimp only
    rw [if_pos rfl]
    by_cases stops : stopper j = true
    · rw [if_pos stops, if_pos stops]
    · have free : stopper j = false := Bool.not_eq_true _ ▸ stops
      rw [if_neg stops, if_neg stops, if_neg fun passed => ends (Or.inr ⟨disp, free, passed⟩)]
  | handler => rfl
  | ign => exact absurd (Or.inl disp) ends

theorem trace_end (some : pending j = true) (ends : ¬ Passes q (svec + j) j) :
    trace q pending svec (n + 1) j left = [.read (svec + j), .act j (svec + j) left] := by
  rw [trace, if_neg (by simp [some])]
  cases disp : disposition q (svec + j) with
  | dfl =>
    dsimp only
    rw [if_neg fun passed => ends (Or.inr ⟨disp, passed⟩)]
  | handler => rfl
  | ign => exact absurd (Or.inl disp) ends

/-- The cases of a round of the loop. -/
theorem round_cases (q : Proc) (pending : Mask) (svec j : Nat) :
    pending j = false ∨ pending j = true ∧ Passes q (svec + j) j ∨ pending j = true ∧ ¬ Passes q (svec + j) j := by
  cases pending j with
  | false => exact Or.inl rfl
  | true =>
    by_cases passes : Passes q (svec + j) j
    · exact Or.inr (Or.inl ⟨rfl, passes⟩)
    · exact Or.inr (Or.inr ⟨rfl, passes⟩)

theorem mem_acts {sig entry : Nat} {l : Mask} (member : .act sig entry l ∈ acts q svec j left) :
    sig = j ∧ entry = svec + j ∧ l = left ∧ disposition q (svec + j) ≠ .ign := by
  unfold acts at member
  split at member
  · cases member
  · rename_i other
    have same := List.mem_singleton.mp member
    injection same with first second third
    exact ⟨first, second, third, other⟩

theorem no_read {entry : Nat} : .read entry ∉ acts q svec j left := by
  unfold acts
  split
  · exact List.not_mem_nil
  · intro member
    have same := List.mem_singleton.mp member
    cases same

theorem act_entry {sig entry : Nat} {l : Mask} (member : .act sig entry l ∈ trace q pending svec n j left) :
    j ≤ sig ∧ sig < j + n ∧ pending sig = true ∧ entry = svec + sig := by
  induction n generalizing j left with
  | zero => cases member
  | succ n ih =>
    have later : ∀ left', .act sig entry l ∈ trace q pending svec n (j + 1) left' →
        j ≤ sig ∧ sig < j + (n + 1) ∧ pending sig = true ∧ entry = svec + sig := by
      intro left' inside
      obtain ⟨low, high, set, same⟩ := ih inside
      exact ⟨by omega, by omega, set, same⟩
    rcases round_cases q pending svec j with none | ⟨some, passes⟩ | ⟨some, ends⟩
    · rw [trace_skip none] at member
      exact later _ member
    · rw [trace_pass some passes] at member
      rcases List.mem_cons.mp member with no | rest
      · cases no
      · rcases List.mem_append.mp rest with here | behind
        · obtain ⟨first, second, _, _⟩ := mem_acts here
          subst first
          exact ⟨Nat.le_refl _, by omega, some, second⟩
        · exact later _ behind
    · rw [trace_end some ends] at member
      rcases List.mem_cons.mp member with no | rest
      · cases no
      · have same := List.mem_singleton.mp rest
        injection same with first second _
        subst first
        exact ⟨Nat.le_refl _, by omega, some, second⟩

theorem read_entry {entry : Nat} (member : .read entry ∈ trace q pending svec n j left) :
    ∃ k, j ≤ k ∧ k < j + n ∧ entry = svec + k := by
  induction n generalizing j left with
  | zero => cases member
  | succ n ih =>
    have later : ∀ left', .read entry ∈ trace q pending svec n (j + 1) left' →
        ∃ k, j ≤ k ∧ k < j + (n + 1) ∧ entry = svec + k := by
      intro left' inside
      obtain ⟨k, low, high, same⟩ := ih inside
      exact ⟨k, by omega, by omega, same⟩
    rcases round_cases q pending svec j with none | ⟨some, passes⟩ | ⟨some, ends⟩
    · rw [trace_skip none] at member
      exact later _ member
    · rw [trace_pass some passes] at member
      rcases List.mem_cons.mp member with here | rest
      · injection here with same
        exact ⟨j, Nat.le_refl _, by omega, same⟩
      · rcases List.mem_append.mp rest with no | behind
        · exact absurd no no_read
        · exact later _ behind
    · rw [trace_end some ends] at member
      rcases List.mem_cons.mp member with here | rest
      · injection here with same
        exact ⟨j, Nat.le_refl _, by omega, same⟩
      · have no := List.mem_singleton.mp rest
        cases no

/-- A loop that acts on nothing has read the entry of every signal. -/
theorem read_all (idle : ∀ sig entry l, .act sig entry l ∉ trace q pending svec n j left)
    (low : j ≤ k) (high : k < j + n) (set : pending k = true) : .read (svec + k) ∈ trace q pending svec n j left := by
  induction n generalizing j left with
  | zero => omega
  | succ n ih =>
    rcases round_cases q pending svec j with none | ⟨some, passes⟩ | ⟨some, ends⟩
    · rw [trace_skip none] at *
      have other : k ≠ j := fun same => by
        rw [same, none] at set
        cases set
      exact ih idle (by omega) (by omega)
    · rw [trace_pass some passes] at *
      by_cases here : k = j
      · rw [here]
        exact List.mem_cons_self
      · apply List.mem_cons_of_mem
        apply List.mem_append_right
        refine ih (fun sig entry l no => ?_) (by omega) (by omega)
        exact idle sig entry l (List.mem_cons_of_mem _ (List.mem_append_right _ no))
    · rw [trace_end some ends] at idle
      exact absurd (List.mem_cons_of_mem _ (List.mem_singleton.mpr rfl)) (idle j (svec + j) left)

/-- The loop clears the signals it acts on, and no others. -/
theorem scan_kept : (scan q pending svec n j left).2 k = true ↔
    left k = true ∧ ∀ entry l, .act k entry l ∉ trace q pending svec n j left := by
  induction n generalizing j left with
  | zero =>
    constructor
    · exact fun set => ⟨set, fun _ _ => List.not_mem_nil⟩
    · exact fun set => set.1
  | succ n ih =>
    rcases round_cases q pending svec j with none | ⟨some, passes⟩ | ⟨some, ends⟩
    · rw [scan_skip none, trace_skip none]
      exact ih
    · rw [scan_pass some passes, trace_pass some passes, ih]
      constructor
      · rintro ⟨set, unacted⟩
        have kept : left k = true ∧ (k = j → disposition q (svec + j) = .ign) := by
          unfold after at set
          split at set
          · rename_i ign
            exact ⟨set, fun _ => ign⟩
          · by_cases here : k = j
            · rw [here, put_same] at set
              cases set
            · rw [put_ne _ _ here] at set
              exact ⟨set, fun no => absurd no here⟩
        refine ⟨kept.1, fun entry l member => ?_⟩
        rcases List.mem_cons.mp member with no | rest
        · cases no
        · rcases List.mem_append.mp rest with here | behind
          · obtain ⟨same, _, _, other⟩ := mem_acts here
            exact other (kept.2 same)
          · exact unacted entry l behind
      · rintro ⟨set, unacted⟩
        constructor
        · unfold after
          split
          · exact set
          · rename_i acted
            by_cases here : k = j
            · exfalso
              apply unacted (svec + j) left
              apply List.mem_cons_of_mem
              apply List.mem_append_left
              unfold acts
              rw [if_neg acted, here]
              exact List.mem_singleton.mpr rfl
            · rw [put_ne _ _ here]
              exact set
        · intro entry l behind
          exact unacted entry l (List.mem_cons_of_mem _ (List.mem_append_right _ behind))
    · rw [scan_end some ends, trace_end some ends]
      dsimp only
      by_cases here : k = j
      · subst here
        rw [put_same]
        constructor
        · intro no
          cases no
        · rintro ⟨_, unacted⟩
          exact absurd (List.mem_cons_of_mem _ (List.mem_singleton.mpr rfl)) (unacted (svec + k) left)
      · rw [put_ne _ _ here]
        refine ⟨fun set => ⟨set, fun entry l member => ?_⟩, fun set => set.1⟩
        rcases List.mem_cons.mp member with no | rest
        · cases no
        · have same := List.mem_singleton.mp rest
          injection same with same _ _
          exact here same

/-- Which signal stops the process. -/
theorem scan_stop {i : Nat} : (scan q pending svec n j left).1 = .stop i ↔
    (j ≤ i ∧ i < j + n) ∧ pending i = true ∧ disposition q (svec + i) = .dfl ∧ stopper i = true ∧
      ∀ k, j ≤ k → k < i → pending k = true → Passes q (svec + k) k := by
  induction n generalizing j left with
  | zero =>
    constructor
    · intro no
      cases no
    · rintro ⟨range, _⟩
      omega
  | succ n ih =>
    rcases round_cases q pending svec j with none | ⟨some, passes⟩ | ⟨some, ends⟩
    · rw [scan_skip none, ih]
      constructor
      · rintro ⟨range, set, dfl, stops, before⟩
        refine ⟨⟨by omega, by omega⟩, set, dfl, stops, fun k low high set' => ?_⟩
        by_cases here : k = j
        · rw [here, none] at set'
          cases set'
        · exact before k (by omega) high set'
      · rintro ⟨range, set, dfl, stops, before⟩
        have other : i ≠ j := fun same => by
          rw [same, none] at set
          cases set
        exact ⟨⟨by omega, by omega⟩, set, dfl, stops, fun k low high => before k (by omega) high⟩
    · rw [scan_pass some passes, ih]
      constructor
      · rintro ⟨range, set, dfl, stops, before⟩
        refine ⟨⟨by omega, by omega⟩, set, dfl, stops, fun k low high set' => ?_⟩
        by_cases here : k = j
        · rw [here]
          exact passes
        · exact before k (by omega) high set'
      · rintro ⟨range, set, dfl, stops, before⟩
        have other : i ≠ j := by
          intro same
          subst same
          rcases passes with ign | ⟨_, free, _⟩
          · rw [dfl] at ign
            cases ign
          · rw [stops] at free
            cases free
        exact ⟨⟨by omega, by omega⟩, set, dfl, stops, fun k low high => before k (by omega) high⟩
    · rw [scan_end some ends]
      dsimp only
      unfold verdict
      constructor
      · intro stop
        split at stop
        · rename_i dfl
          split at stop
          · rename_i stops
            injection stop with same
            subst same
            exact ⟨⟨Nat.le_refl _, by omega⟩, some, dfl, stops, fun k low high => by omega⟩
          · cases stop
        · cases stop
      · rintro ⟨range, set, dfl, stops, before⟩
        have here : i = j := by
          by_contra other
          exact ends (before j (Nat.le_refl _) (by omega) some)
        subst here
        rw [if_pos dfl, if_pos stops]

/-! ## The first pass -/

/-- A signal that is still pending in round `j` is as it was, or it is ignored. -/
structure Dealt (q : Proc) (j : Nat) (left : Mask) : Prop where
  ahead : ∀ k, j ≤ k → left k = q.pending k
  subset : ∀ k, left k = true → q.pending k = true
  behind : ∀ k, 1 ≤ k → k < j → left k = true → q.held k = false → q.sigvec k = .ign

theorem disposition_own {sig : Nat} (small : sig < NSIGS) : disposition q (0 + sig) = q.sigvec sig := by
  unfold disposition
  rw [Nat.zero_add, if_pos small]

theorem unheld_true : unheld q k = true ↔ q.pending k = true ∧ q.held k = false := by
  simp [unheld]

theorem Dealt.skip (dealt : Dealt q j left) (none : unheld q j = false) : Dealt q (j + 1) left where
  ahead := fun k low => dealt.ahead k (by omega)
  subset := dealt.subset
  behind := by
    intro k low high set free
    by_cases here : k = j
    · have due : unheld q k = true := unheld_true.mpr ⟨dealt.subset k set, free⟩
      rw [here, none] at due
      cases due
    · exact dealt.behind k low (by omega) set free

theorem Dealt.pass (dealt : Dealt q j left) (small : j < NSIGS) : Dealt q (j + 1) (after q 0 j left) := by
  unfold after
  rw [disposition_own small]
  split
  · rename_i ign
    constructor
    · exact fun k low => dealt.ahead k (by omega)
    · exact dealt.subset
    · intro k low high set free
      by_cases here : k = j
      · rw [here]
        exact ign
      · exact dealt.behind k low (by omega) set free
  · constructor
    · intro k low
      rw [put_ne _ _ (by omega)]
      exact dealt.ahead k (by omega)
    · intro k set
      by_cases here : k = j
      · rw [here, put_same] at set
        cases set
      · rw [put_ne _ _ here] at set
        exact dealt.subset k set
    · intro k low high set free
      by_cases here : k = j
      · rw [here, put_same] at set
        cases set
      · rw [put_ne _ _ here] at set
        exact dealt.behind k low (by omega) set free

/-- Lower signals that are neither held nor ignored are done with. -/
theorem Dealt.lowest {sig entry : Nat} {l : Mask} (dealt : Dealt q j left) (small : j + n ≤ NSIGS)
    (member : .act sig entry l ∈ trace q (unheld q) 0 n j left) :
    l sig = true ∧ q.held sig = false ∧
      ∀ k, 1 ≤ k → k < sig → l k = true → q.held k = false → q.sigvec k = .ign := by
  induction n generalizing j left with
  | zero => cases member
  | succ n ih =>
    have here : unheld q j = true → left j = true ∧ q.held j = false ∧
        ∀ k, 1 ≤ k → k < j → left k = true → q.held k = false → q.sigvec k = .ign := by
      intro due
      have both := unheld_true.mp due
      exact ⟨(dealt.ahead j (Nat.le_refl j)).trans both.1, both.2, dealt.behind⟩
    rcases round_cases q (unheld q) 0 j with none | ⟨some, passes⟩ | ⟨some, ends⟩
    · rw [trace_skip none] at member
      exact ih (dealt.skip none) (by omega) member
    · rw [trace_pass some passes] at member
      rcases List.mem_cons.mp member with no | rest
      · cases no
      · rcases List.mem_append.mp rest with now | behind
        · obtain ⟨first, _, third, _⟩ := mem_acts now
          rw [first, third]
          exact here some
        · exact ih (dealt.pass (by omega)) (by omega) behind
    · rw [trace_end some ends] at member
      rcases List.mem_cons.mp member with no | rest
      · cases no
      · have same := List.mem_singleton.mp rest
        injection same with first _ third
        rw [first, third]
        exact here some

theorem delivered_first (q : Proc) : Delivered q (unheld q) 0 where
  own := by
    intro sig entry left member
    have same := (act_entry member).2.2.2
    omega
  inside := by
    intro entry member
    obtain ⟨k, _, high, same⟩ := read_entry member
    have count : NSIGS = 32 := rfl
    omega
  lowest := by
    intro sig entry left member
    have start : Dealt q 1 q.pending :=
      ⟨fun _ _ => rfl, fun _ set => set, fun k low high => by omega⟩
    exact start.lowest (Nat.le_refl _) member
  cleared := fun _ => scan_kept

/-! ## The pass behind a stop -/

theorem stopper_high {i : Nat} (stops : stopper i = true) : SIGSTOP ≤ i ∧ i < NSIGS := by
  have cases : i = SIGSTOP ∨ i = SIGTTIN ∨ i = SIGTTOU ∨ i = SIGTSTP := by simpa [stopper] using stops
  unfold SIGSTOP SIGTTIN SIGTTOU SIGTSTP at cases
  unfold SIGSTOP NSIGS
  omega

/-- The pointer into `u_sigvec` stands at the entry of the stop, and the copy of the pending
signals has the stop in it. -/
theorem not_delivered_again {i : Nat} (set : pending i = true) (stops : stopper i = true) :
    ¬ Delivered q pending i := by
  intro delivered
  obtain ⟨low, high⟩ := stopper_high stops
  have start : SIGSTOP = 19 := rfl
  have count : NSIGS = 32 := rfl
  have idle : ∀ sig entry left, .act sig entry left ∉ pass q pending i := by
    intro sig entry left member
    have wrong := (act_entry member).2.2.2
    have right := delivered.own sig entry left member
    omega
  have read : .read (i + i) ∈ pass q pending i := read_all idle (by omega) (by omega) set
  have small := delivered.inside (i + i) read
  omega

theorem not_delivers_again {i : Nat} {rest : List Mask} (uncaught : q.cursig = 0) (runs : q.status ≠ .stopped)
    (set : pending i = true) (stops : stopper i = true) : ¬ Delivers q pending i rest := by
  intro delivers
  unfold Delivers at delivers
  rcases delivers with (caught | none | stopped) | ⟨delivered, _⟩
  · exact caught uncaught
  · have clear := of_decide_eq_true (List.all_eq_true.mp none i (List.mem_range.mpr (stopper_high stops).2))
    rw [set] at clear
    cases clear
  · exact runs stopped
  · exact not_delivered_again set stops delivered

/-- A signal is due that stops the process, and lower ones do not keep it from that. -/
def Stops (q : Proc) : Prop :=
  q.cursig = 0 ∧ q.status ≠ .stopped ∧
    ∃ i < NSIGS, stopper i = true ∧ q.pending i = true ∧ q.held i = false ∧ q.sigvec i = .dfl ∧
      ∀ k, 1 ≤ k → k < i → q.pending k = true → q.held k = false →
        q.sigvec k = .ign ∨ q.sigvec k = .dfl ∧ stopper k = false ∧ (clear k = true ∨ q.pid = 1)

theorem passes_own {sig : Nat} (small : sig < NSIGS) : Passes q (0 + sig) sig ↔
    q.sigvec sig = .ign ∨ q.sigvec sig = .dfl ∧ stopper sig = false ∧ (clear sig = true ∨ q.pid = 1) := by
  unfold Passes
  rw [disposition_own small]

theorem stops_iff (uncaught : q.cursig = 0) (runs : q.status ≠ .stopped) :
    Stops q ↔ ∃ i, (scan q (unheld q) 0 (NSIGS - 1) 1 q.pending).1 = .stop i := by
  have count : NSIGS = 32 := rfl
  constructor
  · rintro ⟨_, _, i, small, stops, set, free, dfl, before⟩
    have low := (stopper_high stops).1
    have start : SIGSTOP = 19 := rfl
    refine ⟨i, scan_stop.mpr ⟨by omega, unheld_true.mpr ⟨set, free⟩, ?_, stops, ?_⟩⟩
    · rw [disposition_own small]
      exact dfl
    · intro k above below due
      have both := unheld_true.mp due
      exact (passes_own (by omega)).mpr (before k above below both.1 both.2)
  · rintro ⟨i, stop⟩
    obtain ⟨range, due, dfl, stops, before⟩ := scan_stop.mp stop
    have both := unheld_true.mp due
    have small : i < NSIGS := by omega
    rw [disposition_own small] at dfl
    refine ⟨uncaught, runs, i, small, stops, both.1, both.2, dfl, ?_⟩
    intro k above below set free
    exact (passes_own (by omega)).mp (before k above below (unheld_true.mpr ⟨set, free⟩))

/-- `chksigs` does right by the signals unless it stops the process and comes back from
the stop. -/
theorem delivers_iff (q : Proc) (resumes : List Mask) :
    Delivers q (unheld q) 0 resumes ↔ ¬ (Stops q ∧ resumes ≠ []) := by
  by_cases early : q.cursig ≠ 0 ∨ noSignal (unheld q) = true ∨ q.status = .stopped
  · have holds : Delivers q (unheld q) 0 resumes := by
      unfold Delivers
      exact Or.inl early
    refine ⟨fun _ => ?_, fun _ => holds⟩
    rintro ⟨⟨uncaught, runs, i, small, _, set, free, _⟩, _⟩
    rcases early with caught | none | stopped
    · exact caught uncaught
    · have clear := of_decide_eq_true (List.all_eq_true.mp none i (List.mem_range.mpr small))
      rw [unheld_true.mpr ⟨set, free⟩] at clear
      cases clear
    · exact runs stopped
  · have uncaught : q.cursig = 0 := by
      by_contra caught
      exact early (Or.inl caught)
    have runs : q.status ≠ .stopped := fun stopped => early (Or.inr (Or.inr stopped))
    rw [stops_iff uncaught runs]
    unfold Delivers
    cases resumes with
    | nil =>
      constructor
      · rintro _ ⟨_, no⟩
        exact no rfl
      · exact fun _ => Or.inr ⟨delivered_first q, trivial⟩
    | cons meanwhile rest =>
      constructor
      · rintro holds ⟨⟨i, stop⟩, _⟩
        rcases holds with no | ⟨_, later⟩
        · exact early no
        · have again := later i stop
          obtain ⟨_, due, _, stops, _⟩ := scan_stop.mp stop
          rw [Nat.zero_add] at again
          have running : Status.running ≠ .stopped := by decide
          exact absurd again (not_delivers_again uncaught running due stops)
      · intro goes
        refine Or.inr ⟨delivered_first q, fun i stop => ?_⟩
        exact absurd ⟨⟨i, stop⟩, List.cons_ne_nil _ _⟩ goes

/-! ## In the machine -/

/-- The stop leaves the copy and the pointer on the stack of the process. -/
theorem chksigs_stop {s : State} {i : Nat} (due : ¬ (s.me.cursig ≠ 0 ∨ noSignal pending = true ∨ s.me.status = .stopped))
    (stop : (scan s.me pending svec (NSIGS - 1) 1 s.me.pending).1 = .stop i) :
    (chksigs s pending svec).me.frames = .rescan pending (svec + i) :: s.me.frames ∧
      (chksigs s pending svec).me.status = .stopped := by
  unfold chksigs
  rw [if_neg due]
  dsimp only
  rw [stop]
  constructor
  · simp [State.me, modifyProc, State.less, put_same]
  · simp [State.me, modifyProc, State.less, put_same]

/-- The switch back to the process goes on from them. -/
theorem switchin_rescan {s : State} {p : Nat} {rest : List Frame}
    (frames : (s.ptab p).frames = .rescan pending svec :: rest) :
    (switchin s p).phase = .rescan pending svec ∧ (switchin s p).me.pending = (s.ptab p).pending := by
  have kept : ((setStatus { s with cur := p } p .running).ptab p).frames = .rescan pending svec :: rest := by
    simpa [setStatus, modifyProc, put_same] using frames
  unfold switchin
  dsimp only
  rw [kept]
  constructor
  · rfl
  · simp [State.me, setStatus, modifyProc, put_same]

omit [Machine] in
/-- A process that `SIGSTOP` stops and that goes on finds the stop in its copy again, with
nothing pending. -/
theorem delivers_again : ∃ (_ : Machine) (q : Proc),
    q.status = .running ∧ (∀ j, q.pending j = true ↔ j = SIGSTOP) ∧ (∀ j, q.held j = false) ∧
      ¬ Delivers q (unheld q) 0 [fun _ => false] := by
  let m : Machine := { PTABSIZE := 4, beyond := fun _ => .dfl, tableBound := by decide }
  let q : Proc := { blank 2 0 with status := .running, pending := fun j => j = SIGSTOP }
  have stops : Stops q := by
    refine ⟨rfl, by decide, SIGSTOP, by decide, by decide, by decide, rfl, rfl, ?_⟩
    intro k _ below set
    have same : k = SIGSTOP := of_decide_eq_true set
    omega
  refine ⟨m, q, rfl, ?_, fun _ => rfl, ?_⟩
  · intro j
    exact decide_eq_true_iff
  · intro holds
    exact (delivers_iff q _).mp holds ⟨stops, List.cons_ne_nil _ _⟩

end Sched
