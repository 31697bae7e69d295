import Fuzix.Select

/-!
# The calls of select

A loop over the descriptors adds what each of them has, and a round more adds it again. So the
exact condition for a call to be right is on what is requested, on the inodes and on the sleeps.
-/

namespace Select

open Table
open Bits (Byte)
open Selmap (Event events wants)

/-! ## The loop over the descriptors -/

/-- Descriptors below `n` have been examined in a round that began in `s`. -/
structure Scanned (c : Call) (start : Bool) (s : State) (n : Nat) (t : State) : Prop where
  irq : t.irq = s.irq
  timeout : t.p_timeout = s.p_timeout
  cond : t.cond = s.cond
  seen : t.seen = s.seen
  otherPipes : t.otherPipes = s.otherPipes
  otherTtys : t.otherTtys = s.otherTtys
  pipes : t.pipesel = s.pipesel + BitVec.ofNat 16 (c.pipes n)
  ttys : t.tty_select = s.tty_select + BitVec.ofNat 16 (if start then c.live s.cond n else 0)
  found : ∀ e i, (c.request e).getLsbD i = true →
    (t.found e).getLsbD i = ((s.found e).getLsbD i || decide (i < n ∧ i < 8) && c.sees s.cond e i)
  looks : ∃ l ls, t.looks = l :: ls ∧ s.looks = [] :: ls ∧ ∀ i, i ∈ l ↔ i < n ∧ i < 8 ∧ c.requested i = true

section
variable {c : Call} {start : Bool} {s t : State} {n i : Nat}

theorem Scanned.first {ls : List (List Nat)} (fresh : s.looks = [] :: ls) : Scanned c start s 0 s := by
  refine ⟨rfl, rfl, rfl, rfl, rfl, rfl, ?_, ?_, ?_, [], ls, fresh, fresh, ?_⟩
  · simp [Call.pipes, Call.tally]
  · simp [Call.live, Call.tally]
  · intro e i _
    simp
  · simp

theorem tally_skip (c : Call) (p : Nat → Bool) {n : Nat} (passed : ¬ (n < 8 ∧ c.requested n = true)) :
    c.tally p (n + 1) = c.tally p n := by
  have no : ¬ (n < 8 ∧ c.requested n = true ∧ p n = true) := fun h => passed ⟨h.1, h.2.1⟩
  unfold Call.tally
  rw [if_neg no, Nat.add_zero]
  cases n <;> rfl

theorem tally_take (c : Call) (p : Nat → Bool) {n : Nat} (low : n < 8) (on : c.requested n = true) :
    c.tally p (n + 1) = c.tally p n + if p n = true then 1 else 0 := by
  have same : (n < 8 ∧ c.requested n = true ∧ p n = true) = (p n = true) :=
    propext ⟨fun h => h.2.2, fun h => ⟨low, on, h⟩⟩
  conv => lhs; unfold Call.tally
  simp only [same]

/-- A descriptor that is passed over changes nothing. -/
theorem Scanned.skip (scanned : Scanned c start s n t) (passed : ¬ (n < 8 ∧ c.requested n = true)) :
    Scanned c start s (n + 1) t := by
  obtain ⟨l, ls, now, before, members⟩ := scanned.looks
  refine ⟨scanned.irq, scanned.timeout, scanned.cond, scanned.seen, scanned.otherPipes, scanned.otherTtys, ?_, ?_, ?_,
    l, ls, now, before, ?_⟩
  · unfold Call.pipes
    rw [tally_skip c _ passed]
    exact scanned.pipes
  · unfold Call.live
    rw [tally_skip c _ passed]
    exact scanned.ttys
  · intro e i on
    have other : i = n → ¬ i < 8 := fun same low => passed ⟨same ▸ low, same ▸ requested_of on⟩
    have same : (i < n + 1 ∧ i < 8) = (i < n ∧ i < 8) := by
      apply propext
      constructor
      · rintro ⟨less, low⟩
        have differs : i ≠ n := fun same => other same low
        exact ⟨by omega, low⟩
      · rintro ⟨less, low⟩
        exact ⟨by omega, low⟩
    rw [scanned.found e i on]
    simp only [same]
  · intro i
    rw [members i]
    constructor
    · rintro ⟨less, low, on⟩
      exact ⟨by omega, low, on⟩
    · rintro ⟨less, low, on⟩
      have differs : i ≠ n := fun same => passed ⟨same ▸ low, same ▸ on⟩
      exact ⟨by omega, low, on⟩

theorem holds_some {p : Kind → Cond → Bool} {cond : Nat → Cond} {ino : Nat} (file : c.files i = some ino) :
    c.holds p cond i = p (c.kind ino) (cond ino) := by
  unfold Call.holds
  rw [file]

theorem look_eq {l : List Nat} {ls : List (List Nat)} (now : t.looks = l :: ls) (i : Nat) :
    t.look i = { t with looks := (i :: l) :: ls } := by
  unfold State.look
  rw [now]

theorem seen_one (low : n < 8) (i : Nat) :
    decide (i < n + 1 ∧ i < 8) = (decide (i < n ∧ i < 8) || decide (i = n)) := by
  rw [Bool.eq_iff_iff]
  simp only [Bool.or_eq_true, decide_eq_true_iff]
  omega

theorem member_one {l : List Nat} (members : ∀ i, i ∈ l ↔ i < n ∧ i < 8 ∧ c.requested i = true) (low : n < 8)
    (on : c.requested n = true) (i : Nat) : i ∈ n :: l ↔ i < n + 1 ∧ i < 8 ∧ c.requested i = true := by
  rw [List.mem_cons, members i]
  constructor
  · rintro (rfl | ⟨less, low', on'⟩)
    · exact ⟨Nat.lt_succ_self _, low, on⟩
    · exact ⟨by omega, low', on'⟩
  · rintro ⟨less, low', on'⟩
    by_cases same : i = n
    · exact .inl same
    · exact .inr ⟨by omega, low', on'⟩

/-- A descriptor is looked at. -/
theorem Scanned.take {ino : Nat} (scanned : Scanned c start s n t) (low : n < 8) (on : c.requested n = true)
    (file : c.files n = some ino) {u : State} (look : Examined c start ino n (t.look n) u) :
    Scanned c start s (n + 1) u := by
  obtain ⟨l, ls, now, before, members⟩ := scanned.looks
  rw [look_eq now n] at look
  obtain ⟨bits, found, told⟩ := look.found
  refine ⟨look.irq.trans scanned.irq, look.timeout.trans scanned.timeout, look.cond.trans scanned.cond,
    look.seen.trans scanned.seen, look.otherPipes.trans scanned.otherPipes, look.otherTtys.trans scanned.otherTtys,
    ?_, ?_, ?_, n :: l, ls, look.looks, before, member_one members low on⟩
  · have kind : ((c.files n).any fun ino => decide (c.kind ino = .pipe)) = decide (c.kind ino = .pipe) := by
      rw [file]
      rfl
    have counted : t.pipesel = s.pipesel + BitVec.ofNat 16 (c.pipes n) := scanned.pipes
    have more := look.pipes
    unfold Call.pipes at counted ⊢
    rw [tally_take c _ low on, kind, BitVec.ofNat_add, ← BitVec.add_assoc, ← counted, more]
    by_cases pipe : c.kind ino = .pipe <;> simp [pipe]
  · have kind : c.holds (fun k d => decide (k = .tty) && !d.tty.dead) s.cond n =
        (decide (c.kind ino = .tty) && !(s.cond ino).tty.dead) := holds_some file
    have counted : t.tty_select = s.tty_select + BitVec.ofNat 16 (if start then c.live s.cond n else 0) := scanned.ttys
    have more : u.tty_select = t.tty_select +
        if start = true ∧ c.kind ino = .tty ∧ (t.cond ino).tty.dead = false then 1 else 0 := look.ttys
    rw [scanned.cond] at more
    unfold Call.live at counted ⊢
    rw [tally_take c _ low on, kind]
    cases start with
    | false => simpa [more] using counted
    | true =>
      rw [if_pos rfl] at counted ⊢
      rw [BitVec.ofNat_add, ← BitVec.add_assoc, ← counted, more]
      by_cases tty : c.kind ino = .tty <;> cases (s.cond ino).tty.dead <;> simp [tty]
  · intro e i asked
    have here : (u.found e).getLsbD i = ((t.found e).getLsbD i || wants bits e && decide (i = n)) := by
      rw [found]
      by_cases want : wants bits e = true
      · simp only [want, if_true, BitVec.getLsbD_or, wide_bit, Bool.true_and]
        simp [low]
      · have none : wants bits e = false := Bool.eq_false_iff.mpr want
        simp [none]
    rw [here, scanned.found e i asked, seen_one low i]
    by_cases same : i = n
    · subst same
      have saw : c.sees s.cond e i = wants bits e := by
        rw [told e asked]
        show c.holds _ s.cond i = Select.sees (c.kind ino) (t.cond ino) (c.asked (1#8 <<< i)) e
        rw [holds_some file, scanned.cond]
      simp [saw]
    · simp [same]

end

section
variable [Selmap.Machine] {c : Call} {start : Bool} {s : State}

/-- What the loop makes of the descriptors from `i` on: it stops at the first bad one, or it gets
through. -/
theorem scan_run {left i : Nat} {t : State} (total : i + left = c.nfd) (scanned : Scanned c start s i t) :
    (∃ b u, i ≤ b ∧ b < c.nfd ∧ b < 8 ∧ c.requested b = true ∧ c.files b = none ∧
      (∀ j, i ≤ j → j < b → j < 8 → c.requested j = true → c.files j ≠ none) ∧
      Scanned c start s b u ∧ scan c start left i (1#8 <<< i) t = .error (u.look b)) ∨
    ((∀ j, i ≤ j → j < c.nfd → j < 8 → c.requested j = true → c.files j ≠ none) ∧
      ∃ u, Scanned c start s c.nfd u ∧ scan c start left i (1#8 <<< i) t = .ok u) := by
  induction left generalizing i t with
  | zero =>
    have done : i = c.nfd := by omega
    subst done
    exact .inr ⟨fun j _ _ => by omega, t, scanned, rfl⟩
  | succ left ih =>
    unfold scan
    rw [shifted]
    by_cases here : c.sum &&& wide (1#8 <<< i) ≠ 0
    · obtain ⟨low, on⟩ := (sum_wide c i).mp here
      rw [if_pos here]
      cases file : c.files i with
      | none =>
        exact .inl ⟨i, t, Nat.le_refl i, by omega, low, on, file, fun j _ _ => by omega, scanned, rfl⟩
      | some ino =>
        have good : ∀ j, i ≤ j → (i + 1 ≤ j → c.files j ≠ none) → c.files j ≠ none := by
          intro j more rest bad
          by_cases same : j = i
          · subst same
            rw [file] at bad
            cases bad
          · exact rest (by omega) bad
        rcases ih (by omega) (scanned.take low on file (examine_examined c start ino low (t.look i))) with
          ⟨b, u, more, less, low', on', bad, first, at_b, stops⟩ | ⟨every, u, all, runs⟩
        · refine .inl ⟨b, u, by omega, less, low', on', bad, ?_, at_b, stops⟩
          intro j more' less' low'' on''
          exact good j more' fun later => first j later less' low'' on''
        · refine .inr ⟨?_, u, all, runs⟩
          intro j more' less' low'' on''
          exact good j more' fun later => every j later less' low'' on''
    · have passed : ¬ (i < 8 ∧ c.requested i = true) := fun h => here ((sum_wide c i).mpr h)
      have other : ∀ j, i ≤ j → j < 8 → c.requested j = true → i + 1 ≤ j := by
        intro j more low on
        have differs : j ≠ i := fun same => passed ⟨same ▸ low, same ▸ on⟩
        omega
      rw [if_neg here]
      rcases ih (by omega) (scanned.skip passed) with
        ⟨b, u, more, less, low', on', bad, first, at_b, stops⟩ | ⟨every, u, all, runs⟩
      · refine .inl ⟨b, u, by omega, less, low', on', bad, ?_, at_b, stops⟩
        intro j more' less' low'' on''
        exact first j (other j more' low'' on'') less' low'' on''
      · refine .inr ⟨?_, u, all, runs⟩
        intro j more' less' low'' on''
        exact every j (other j more' low'' on'') less' low'' on''

/-! ## The rounds -/

/-- No bad descriptor is reached. -/
def Call.Good (c : Call) : Prop := ∀ j < c.nfd, j < 8 → c.requested j = true → c.files j ≠ none

omit [Selmap.Machine] in
theorem unfound {found : Event → BitVec 16} : found .input ||| found .output ||| found .except = 0 ↔ ∀ e, found e = 0 := by
  constructor
  · intro none e
    apply BitVec.eq_of_getLsbD_eq
    intro i _
    have here := congrArg (fun v => v.getLsbD i) none
    simp only [BitVec.getLsbD_or] at here
    cases e <;> simp_all
  · intro none
    rw [none, none, none]
    rfl

/-- A round that gets through, with the bits that it leaves. -/
theorem turn_good (good : c.Good) (fresh : ∀ e, s.found e = 0) :
    ∃ u, turn c start s = .ok u ∧ u.p_timeout = s.p_timeout ∧ u.cond = s.cond ∧ u.seen = s.cond ∧
      u.otherPipes = s.otherPipes ∧ u.otherTtys = s.otherTtys ∧
      u.pipesel = s.pipesel + BitVec.ofNat 16 (c.pipes c.nfd) ∧
      u.tty_select = s.tty_select + BitVec.ofNat 16 (if start then c.live s.cond c.nfd else 0) ∧
      (∀ e i, (u.found e).getLsbD i = true ↔
        i < c.nfd ∧ i < 8 ∧ (c.request e).getLsbD i = true ∧ c.sees s.cond e i = true) ∧
      ∃ l, u.looks = l :: s.looks ∧ ∀ i, i ∈ l ↔ i < c.nfd ∧ i < 8 ∧ c.requested i = true := by
  have begun : Scanned c start { s with irq := false, looks := [] :: s.looks, seen := s.cond } 0
      { s with irq := false, looks := [] :: s.looks, seen := s.cond } := Scanned.first rfl
  rcases scan_run (show 0 + c.nfd = c.nfd by omega) begun with
    ⟨b, u, _, less, low, on, bad, _⟩ | ⟨_, u, all, runs⟩
  · exact absurd bad (good b less low on)
  · obtain ⟨l, ls, now, before, members⟩ := all.looks
    injection before with _ same
    have bits : ∀ e i, (u.found e &&& c.request e).getLsbD i = true ↔
        i < c.nfd ∧ i < 8 ∧ (c.request e).getLsbD i = true ∧ c.sees s.cond e i = true := by
      intro e i
      rw [BitVec.getLsbD_and, Bool.and_eq_true]
      constructor
      · rintro ⟨on, asked⟩
        have found := all.found e i asked
        simp only [fresh] at found
        rw [on, zero_bit, Bool.false_or, eq_comm, Bool.and_eq_true, decide_eq_true_iff] at found
        exact ⟨found.1.1, found.1.2, asked, found.2⟩
      · rintro ⟨less, low, asked, saw⟩
        refine ⟨?_, asked⟩
        rw [all.found e i asked, saw, decide_eq_true ⟨less, low⟩]
        simp
    have run : scan c start c.nfd 0 1 { s with irq := false, looks := [] :: s.looks, seen := s.cond } = .ok u := runs
    refine ⟨{ u with found := fun e => u.found e &&& c.request e }, ?_, all.timeout, all.cond, all.seen, all.otherPipes,
      all.otherTtys, all.pipes, all.ttys, bits, l, ?_, members⟩
    · unfold turn
      rw [run]
      rfl
    · show u.looks = l :: s.looks
      rw [now, same]

omit [Selmap.Machine] in
/-- The process goes to sleep if nothing is seen. -/
theorem waits_iff {u : State} {cond : Nat → Cond} (bits : ∀ e i, (u.found e).getLsbD i = true ↔
    i < c.nfd ∧ i < 8 ∧ (c.request e).getLsbD i = true ∧ c.sees cond e i = true) :
    u.waits ↔ c.silent cond ∧ 1 < u.p_timeout := by
  have quiet : (∀ e, u.found e = 0) ↔ c.silent cond := by
    constructor
    · intro none i low less e _ asked
      apply Bool.eq_false_iff.mpr
      intro saw
      have on := (bits e i).mpr ⟨less, low, asked, saw⟩
      rw [none e, zero_bit] at on
      cases on
    · intro silent e
      apply BitVec.eq_of_getLsbD_eq
      intro i _
      rw [zero_bit]
      apply Bool.eq_false_iff.mpr
      intro on
      obtain ⟨less, low, asked, saw⟩ := (bits e i).mp on
      rw [silent i low less e (Selmap.Event.listed e) asked] at saw
      cases saw
  unfold State.waits
  rw [unfound, quiet]

/-- What a call has done when its loop ends. -/
structure Ended (c : Call) (start : Bool) (script : List Sleep) (s t : State) : Prop where
  irq : t.irq = s.irq
  pipes : t.pipesel = s.pipesel + (t.otherPipes - s.otherPipes) +
    BitVec.ofNat 16 (((c.again s.cond s.p_timeout script).1 + 1) * c.pipes c.nfd)
  ttys : t.tty_select = s.tty_select + (t.otherTtys - s.otherTtys) +
    BitVec.ofNat 16 (if start then c.live s.cond c.nfd else 0)
  seen : t.seen = (c.again s.cond s.p_timeout script).2
  found : ∀ e i, (t.found e).getLsbD i = true ↔
    i < c.nfd ∧ i < 8 ∧ (c.request e).getLsbD i = true ∧ c.sees t.seen e i = true
  looks : ∃ l, l ∈ t.looks ∧ ∀ l ∈ t.looks, l ∈ s.looks ∨ ∀ i, i ∈ l ↔ i < c.nfd ∧ i < 8 ∧ c.requested i = true

omit [Selmap.Machine] in
/-- The last round: nothing but the interrupts and what a sleep brought is new. -/
theorem Ended.last {u t : State} {script : List Sleep} (once : c.again s.cond s.p_timeout script = (0, s.cond))
    (irq : t.irq = s.irq) (seen : t.seen = s.cond) (found : t.found = u.found) (looks : t.looks = u.looks)
    (pipes : t.pipesel = u.pipesel + (t.otherPipes - s.otherPipes))
    (ttys : t.tty_select = u.tty_select + (t.otherTtys - s.otherTtys))
    (piped : u.pipesel = s.pipesel + BitVec.ofNat 16 (c.pipes c.nfd))
    (ttyed : u.tty_select = s.tty_select + BitVec.ofNat 16 (if start then c.live s.cond c.nfd else 0))
    (bits : ∀ e i, (u.found e).getLsbD i = true ↔
      i < c.nfd ∧ i < 8 ∧ (c.request e).getLsbD i = true ∧ c.sees s.cond e i = true)
    (noted : ∃ l, u.looks = l :: s.looks ∧ ∀ i, i ∈ l ↔ i < c.nfd ∧ i < 8 ∧ c.requested i = true) :
    Ended c start script s t := by
  obtain ⟨l, now, members⟩ := noted
  refine ⟨irq, ?_, ?_, ?_, ?_, l, ?_, ?_⟩
  · rw [pipes, piped, once, Nat.zero_add, Nat.one_mul]
    ac_rfl
  · rw [ttys, ttyed]
    ac_rfl
  · rw [seen, once]
  · rw [found, seen]
    exact bits
  · rw [looks, now]
    exact List.mem_cons_self
  · intro k listed
    rw [looks, now] at listed
    rcases List.mem_cons.mp listed with rfl | older
    · exact .inr members
    · exact .inl older

omit [Selmap.Machine] in
theorem brought (old new : BitVec 16) : old + new - old = new := by grind

omit [Selmap.Machine] in
/-- What a sleep brings is counted with what the rounds behind it count. -/
theorem gathered (first counted sleep last old more : BitVec 16) :
    first + counted + sleep + (last - (old + sleep)) + more = first + (last - old) + (more + counted) := by grind

/-- Without a bad descriptor the loop ends as it should, but for the pipes, which each further
round counts again. -/
theorem rounds_good (good : c.Good) {script : List Sleep} (fresh : ∀ e, s.found e = 0) {r : Except State State}
    (returned : rounds c start script s = some r) : ∃ t, r = .ok t ∧ Ended c start script s t := by
  induction script generalizing start s with
  | nil =>
    obtain ⟨u, run, _, _, seen, otherPipes, otherTtys, piped, ttyed, bits, noted⟩ := turn_good good fresh
    unfold rounds at returned
    rw [run] at returned
    simp only at returned
    by_cases waits : u.waits
    · rw [if_pos waits] at returned
      cases returned
    · rw [if_neg waits] at returned
      injection returned with same
      subst same
      refine ⟨_, rfl, Ended.last rfl rfl seen rfl rfl ?_ ?_ piped ttyed bits noted⟩
      · simp [otherPipes]
      · simp [otherTtys]
  | cons z rest ih =>
    obtain ⟨u, run, timeout, _, seen, otherPipes, otherTtys, piped, ttyed, bits, noted⟩ := turn_good good fresh
    have asleep : u.waits ↔ c.silent s.cond ∧ 1 < s.p_timeout := by
      rw [waits_iff bits, timeout]
    unfold rounds at returned
    rw [run] at returned
    simp only at returned
    by_cases waits : u.waits
    · rw [if_pos waits] at returned
      have silent := asleep.mp waits
      by_cases goes : z.interrupted = false ∧ 1 < z.p_timeout
      · have more : z.interrupted = false ∧ 1 < ({ u.sleep z with irq := s.irq } : State).p_timeout := goes
        rw [if_pos more] at returned
        have empty : ∀ e, ({ u.sleep z with irq := s.irq } : State).found e = 0 := unfound.mp waits.1
        obtain ⟨t, same, ended⟩ := ih empty returned
        have again : c.again s.cond s.p_timeout (z :: rest) =
            ((c.again z.cond z.p_timeout rest).1 + 1, (c.again z.cond z.p_timeout rest).2) :=
          if_pos ⟨silent.1, silent.2, goes.1, goes.2⟩
        refine ⟨t, same, ended.irq, ?_, ?_, ?_, ended.found, ?_⟩
        · have count : t.pipesel = u.pipesel + z.pipes + (t.otherPipes - (u.otherPipes + z.pipes)) +
              BitVec.ofNat 16 (((c.again z.cond z.p_timeout rest).1 + 1) * c.pipes c.nfd) := ended.pipes
          rw [count, again, piped, otherPipes, Nat.succ_mul (_ + 1), BitVec.ofNat_add]
          exact gathered _ _ _ _ _ _
        · have count : t.tty_select = u.tty_select + z.ttys + (t.otherTtys - (u.otherTtys + z.ttys)) +
              BitVec.ofNat 16 0 := ended.ttys
          rw [count, ttyed, otherTtys, gathered, BitVec.zero_add]
        · rw [again]
          exact ended.seen
        · obtain ⟨l, listed, each⟩ := ended.looks
          obtain ⟨k, now, members⟩ := noted
          refine ⟨l, listed, fun l' listed' => ?_⟩
          rcases each l' listed' with older | mine
          · have old : l' ∈ u.looks := older
            rw [now] at old
            rcases List.mem_cons.mp old with rfl | oldest
            · exact .inr members
            · exact .inl oldest
          · exact .inr mine
      · have stop : ¬ (z.interrupted = false ∧ 1 < ({ u.sleep z with irq := s.irq } : State).p_timeout) := goes
        rw [if_neg stop] at returned
        injection returned with same
        subst same
        have again : c.again s.cond s.p_timeout (z :: rest) = (0, s.cond) :=
          if_neg fun no => goes ⟨no.2.2.1, no.2.2.2⟩
        refine ⟨_, rfl, Ended.last (u := u) again rfl seen rfl rfl ?_ ?_ piped ttyed bits noted⟩
        · simp only [State.sleep, otherPipes, brought]
        · simp only [State.sleep, otherTtys, brought]
    · rw [if_neg waits] at returned
      injection returned with same
      subst same
      have again : c.again s.cond s.p_timeout (z :: rest) = (0, s.cond) :=
        if_neg fun no => waits (asleep.mpr ⟨no.1, no.2.1⟩)
      refine ⟨_, rfl, Ended.last again rfl seen rfl rfl ?_ ?_ piped ttyed bits noted⟩
      · simp [otherPipes]
      · simp [otherTtys]

/-- The first bad descriptor that is reached ends the call in the first round. -/
theorem rounds_bad (bad : ¬ c.Good) (script : List Sleep) :
    ∃ b t, b < 8 ∧ c.Due b ∧ c.files b = none ∧ rounds c start script s = some (.error t) ∧ t.irq = false ∧
      t.otherPipes = s.otherPipes ∧ t.otherTtys = s.otherTtys ∧
      t.pipesel = s.pipesel + BitVec.ofNat 16 (c.pipes b) ∧
      t.tty_select = s.tty_select + BitVec.ofNat 16 (if start then c.live s.cond b else 0) ∧
      ∃ l, t.looks = l :: s.looks ∧ ∀ i, i ∈ l ↔ i < b + 1 ∧ i < 8 ∧ c.requested i = true := by
  have begun : Scanned c start { s with irq := false, looks := [] :: s.looks, seen := s.cond } 0
      { s with irq := false, looks := [] :: s.looks, seen := s.cond } := Scanned.first rfl
  rcases scan_run (show 0 + c.nfd = c.nfd by omega) begun with
    ⟨b, u, _, less, low, on, none, first, at_b, stops⟩ | ⟨every, _⟩
  · have run : scan c start c.nfd 0 1 { s with irq := false, looks := [] :: s.looks, seen := s.cond } =
        .error (u.look b) := stops
    obtain ⟨l, ls, now, before, members⟩ := at_b.looks
    injection before with _ same
    rw [look_eq now b] at run
    refine ⟨b, { u with looks := (b :: l) :: ls }, low, ⟨less, on, fun j below => first j (by omega) below (by omega)⟩,
      none, ?_, at_b.irq, at_b.otherPipes, at_b.otherTtys, at_b.pipes, at_b.ttys, b :: l, ?_, member_one members low on⟩
    · unfold rounds turn
      rw [run]
      rfl
    · rw [same]
  · exact absurd (fun j less => every j (by omega) less) bad

/-! ## The end of the call -/

def Call.ttys (c : Call) (n : Nat) : Nat := c.tally (fun i => (c.files i).any fun ino => c.kind ino = .tty) n

omit [Selmap.Machine] in
/-- Each terminal is live or dead. -/
theorem live_dead (c : Call) (cond : Nat → Cond) (n : Nat) : c.live cond n + c.dead cond n = c.ttys n := by
  unfold Call.live Call.dead Call.ttys
  induction n with
  | zero => rfl
  | succ n ih =>
    by_cases here : n < 8 ∧ c.requested n = true
    · rw [tally_take c _ here.1 here.2, tally_take c _ here.1 here.2, tally_take c _ here.1 here.2, ← ih]
      cases file : c.files n with
      | none => simp [Call.holds, file]
      | some ino =>
        rw [holds_some file, holds_some file]
        by_cases tty : c.kind ino = .tty
        · cases dead : (cond ino).tty.dead <;> simp [tty] <;> omega
        · simp [tty]
    · rw [tally_skip c _ here, tally_skip c _ here, tally_skip c _ here, ih]

/-- The descriptors from `i` on have been released. -/
structure Released (c : Call) (i : Nat) (t u : State) : Prop where
  irq : u.irq = t.irq
  found : u.found = t.found
  looks : u.looks = t.looks
  seen : u.seen = t.seen
  otherPipes : u.otherPipes = t.otherPipes
  otherTtys : u.otherTtys = t.otherTtys
  pipes : u.pipesel + BitVec.ofNat 16 (c.pipes c.nfd) = t.pipesel + BitVec.ofNat 16 (c.pipes i)
  ttys : u.tty_select + BitVec.ofNat 16 (c.ttys c.nfd) = t.tty_select + BitVec.ofNat 16 (c.ttys i)

theorem release_one (c : Call) (ino : Nat) (t : State) :
    (release c ino t).irq = t.irq ∧ (release c ino t).found = t.found ∧ (release c ino t).looks = t.looks ∧
      (release c ino t).seen = t.seen ∧ (release c ino t).otherPipes = t.otherPipes ∧
      (release c ino t).otherTtys = t.otherTtys ∧
      (release c ino t).pipesel = t.pipesel - (if c.kind ino = .pipe then 1 else 0) ∧
      (release c ino t).tty_select = t.tty_select - (if c.kind ino = .tty then 1 else 0) := by
  unfold release
  cases kind : c.kind ino <;> simp [State.selwait, pipesel_end]

theorem scanEnd_released (good : c.Good) {left i : Nat} {t : State} (total : i + left = c.nfd) :
    Released c i t (scanEnd c left i (1#8 <<< i) t) := by
  induction left generalizing i t with
  | zero =>
    have done : i = c.nfd := by omega
    subst done
    exact ⟨rfl, rfl, rfl, rfl, rfl, rfl, rfl, rfl⟩
  | succ left ih =>
    unfold scanEnd
    rw [shifted]
    by_cases here : c.sum &&& wide (1#8 <<< i) ≠ 0
    · obtain ⟨low, on⟩ := (sum_wide c i).mp here
      rw [if_pos here]
      cases file : c.files i with
      | none => exact absurd file (good i (by omega) low on)
      | some ino =>
        obtain ⟨irq, found, looks, seen, otherPipes, otherTtys, pipe, tty⟩ := release_one c ino t
        have rest := ih (i := i + 1) (t := release c ino t) (by omega)
        have taken : ∀ k : Kind, c.tally (fun i => (c.files i).any fun ino => c.kind ino = k) (i + 1) =
            c.tally (fun i => (c.files i).any fun ino => c.kind ino = k) i + if c.kind ino = k then 1 else 0 := by
          intro k
          rw [tally_take c _ low on, file]
          simp
        refine ⟨rest.irq.trans irq, rest.found.trans found, rest.looks.trans looks, rest.seen.trans seen,
          rest.otherPipes.trans otherPipes, rest.otherTtys.trans otherTtys, ?_, ?_⟩
        · have counted : c.pipes (i + 1) = c.pipes i + if c.kind ino = .pipe then 1 else 0 := taken .pipe
          rw [rest.pipes, pipe, counted, BitVec.ofNat_add]
          by_cases kind : c.kind ino = .pipe
          · rw [if_pos kind, if_pos kind]
            grind
          · rw [if_neg kind, if_neg kind]
            grind
        · have counted : c.ttys (i + 1) = c.ttys i + if c.kind ino = .tty then 1 else 0 := taken .tty
          rw [rest.ttys, tty, counted, BitVec.ofNat_add]
          by_cases kind : c.kind ino = .tty
          · rw [if_pos kind, if_pos kind]
            grind
          · rw [if_neg kind, if_neg kind]
            grind
    · have passed : ¬ (i < 8 ∧ c.requested i = true) := fun h => here ((sum_wide c i).mpr h)
      have rest := ih (i := i + 1) (t := t) (by omega)
      rw [if_neg here]
      refine ⟨rest.irq, rest.found, rest.looks, rest.seen, rest.otherPipes, rest.otherTtys, ?_, ?_⟩
      · rw [rest.pipes]
        unfold Call.pipes
        rw [tally_skip c _ passed]
      · rw [rest.ttys]
        unfold Call.ttys
        rw [tally_skip c _ passed]

omit [Selmap.Machine] in
theorem tally_le (c : Call) (p : Nat → Bool) (n : Nat) : c.tally p n ≤ 8 := by
  have least : c.tally p n ≤ min n 8 := by
    induction n with
    | zero => exact Nat.zero_le _
    | succ n ih =>
      unfold Call.tally
      by_cases one : n < 8 ∧ c.requested n = true ∧ p n = true
      · rw [if_pos one]
        omega
      · rw [if_neg one]
        omega
  omega

omit [Selmap.Machine] in
theorem count_zero {n : Nat} : BitVec.ofNat 16 n = 0 ↔ 65536 ∣ n := by
  constructor
  · intro zero
    have here := congrArg BitVec.toNat zero
    rw [BitVec.toNat_ofNat] at here
    exact Nat.dvd_of_mod_eq_zero here
  · intro wraps
    apply BitVec.eq_of_toNat_eq
    rw [BitVec.toNat_ofNat]
    exact Nat.mod_eq_zero_of_dvd wraps

omit [Selmap.Machine] in
theorem few_zero {n : Nat} (few : n ≤ 8) : BitVec.ofNat 16 n = 0 ↔ n = 0 := by
  rw [count_zero]
  constructor
  · intro wraps
    have rest := Nat.mod_eq_zero_of_dvd wraps
    omega
  · rintro rfl
    exact Nat.dvd_zero 65536

omit [Selmap.Machine] in
/-- A count is what it was before and what others have added if nothing else was added to it. -/
theorem count_kept {now before other more : BitVec 16} (count : now = before + other + more) :
    now = before + other ↔ more = 0 := by
  constructor
  · intro same
    grind
  · intro zero
    rw [count, zero]
    grind

omit [Selmap.Machine] in
theorem due_first {b b' : Nat} (due : c.Due b) (bad : c.files b = none) (due' : c.Due b') (bad' : c.files b' = none) :
    b = b' := by
  by_contra other
  by_cases before : b < b'
  · exact due'.2.2 b before due.2.1 bad
  · exact due.2.2 b' (by omega) due'.2.1 bad'

omit [Selmap.Machine] in
/-- If every descriptor that is due is among the first eight and none of these is bad, none is. -/
theorem all_good (good : c.Good) (narrow : ∀ i, c.Due i → i < 8) (i : Nat) (less : i < c.nfd)
    (on : c.requested i = true) : c.files i ≠ none := by
  induction i using Nat.strongRecOn with
  | ind i ih =>
    have due : c.Due i := ⟨less, on, fun j below on' => ih j below (by omega) on'⟩
    exact good i less (narrow i due) on

/-- A bad descriptor is met. -/
theorem select_bad (bad : ¬ c.Good) {script : List Sleep} {r : Except State State}
    (returned : select c script s = some r) : Right c s r ↔ Sound c s script := by
  obtain ⟨b, t, low, due, none, run, irq, otherPipes, otherTtys, piped, ttyed, l, looks, members⟩ :=
    @rounds_bad _ c true (begun c s) bad script
  have same : (Except.error t : Except State State) = r := by
    unfold select at returned
    rw [run] at returned
    exact Option.some.inj returned
  subst same
  have whole : ∀ i, i ∈ l ↔ c.Due i := by
    intro i
    rw [members i]
    constructor
    · rintro ⟨less, _, on⟩
      exact ⟨Nat.lt_of_lt_of_le less due.1, on, fun j below => due.2.2 j (by omega)⟩
    · intro due'
      have first : i < b + 1 := by
        by_contra behind
        exact due'.2.2 b (by omega) due.2.1 none
      exact ⟨first, by omega, due'.2.1⟩
  have pipes : t.pipesel = s.pipesel + t.otherPipes ↔ c.pipes b = 0 := by
    have count : t.pipesel = s.pipesel + t.otherPipes + BitVec.ofNat 16 (c.pipes b) := by
      rw [piped, otherPipes]
      exact (congrArg (· + _) (BitVec.add_zero s.pipesel)).symm
    exact (count_kept count).trans (few_zero (tally_le c _ b))
  have ttys : t.tty_select = s.tty_select + t.otherTtys ↔ c.live s.cond b = 0 := by
    have count : t.tty_select = s.tty_select + t.otherTtys + BitVec.ofNat 16 (c.live s.cond b) := by
      rw [ttyed, otherTtys]
      exact (congrArg (· + _) (BitVec.add_zero s.tty_select)).symm
    exact (count_kept count).trans (few_zero (tally_le c _ b))
  constructor
  · intro right
    refine ⟨?_, ?_, ?_⟩
    · intro i due'
      have listed : i ∈ l := (right.examined l (by rw [theState, looks]; exact List.mem_cons_self) i).mpr due'
      exact ((members i).mp listed).2.1
    · intro i due' none'
      have same := due_first due' none' due none
      subst same
      exact ⟨right.irq.symm.trans irq, pipes.mp right.pipes, ttys.mp right.ttys⟩
    · intro every
      exact absurd none (every b due.1 due.2.1)
  · intro sound
    obtain ⟨off, noPipes, noTtys⟩ := sound.bad b due none
    refine ⟨?_, fun _ no => (by cases no), pipes.mpr noPipes, ttys.mpr noTtys, irq.trans off.symm⟩
    intro k listed i
    rw [theState, looks] at listed
    rw [List.mem_singleton.mp listed]
    exact whole i

/-- None is met. -/
theorem select_good (good : c.Good) {script : List Sleep} {r : Except State State}
    (returned : select c script s = some r) : Right c s r ↔ Sound c s script := by
  unfold select at returned
  cases run : rounds c true script (begun c s) with
  | none =>
    rw [run] at returned
    cases returned
  | some r' =>
    obtain ⟨t, rfl, ended⟩ := rounds_good good (fun _ => rfl) run
    have released := scanEnd_released (t := { t with p_timeout := 0 }) good (Nat.zero_add c.nfd)
    have result : (Except.ok (scanEnd c c.nfd 0 (1#8 <<< 0) { t with p_timeout := 0 }) : Except State State) = r := by
      rw [run] at returned
      exact Option.some.inj returned
    generalize scanEnd c c.nfd 0 (1#8 <<< 0) { t with p_timeout := 0 } = u at released result
    subst result
    have pipes : u.pipesel = s.pipesel + u.otherPipes ↔
        65536 ∣ (c.again s.cond c.timeout script).1 * c.pipes c.nfd := by
      have count : u.pipesel = s.pipesel + u.otherPipes +
          BitVec.ofNat 16 ((c.again s.cond c.timeout script).1 * c.pipes c.nfd) := by
        have counted : t.pipesel = s.pipesel + (t.otherPipes - 0) +
          BitVec.ofNat 16 (((c.again s.cond c.timeout script).1 + 1) * c.pipes c.nfd) := ended.pipes
        have left : u.pipesel + BitVec.ofNat 16 (c.pipes c.nfd) = t.pipesel + BitVec.ofNat 16 0 := released.pipes
        have other : u.otherPipes = t.otherPipes := released.otherPipes
        rw [Nat.succ_mul, BitVec.ofNat_add] at counted
        grind
      rw [count_kept count, count_zero]
    have ttys : u.tty_select = s.tty_select + u.otherTtys ↔ c.dead s.cond c.nfd = 0 := by
      have count : u.tty_select = s.tty_select + u.otherTtys + - BitVec.ofNat 16 (c.dead s.cond c.nfd) := by
        have counted : t.tty_select = s.tty_select + (t.otherTtys - 0) +
          BitVec.ofNat 16 (c.live s.cond c.nfd) := ended.ttys
        have left : u.tty_select + BitVec.ofNat 16 (c.ttys c.nfd) = t.tty_select + BitVec.ofNat 16 0 := released.ttys
        have other : u.otherTtys = t.otherTtys := released.otherTtys
        rw [← live_dead c s.cond, BitVec.ofNat_add] at left
        grind
      have minus : - BitVec.ofNat 16 (c.dead s.cond c.nfd) = 0 ↔ BitVec.ofNat 16 (c.dead s.cond c.nfd) = 0 := by
        constructor
        · intro zero
          grind
        · intro zero
          grind
      exact (count_kept count).trans (minus.trans (few_zero (tally_le c _ c.nfd)))
    have seen : u.seen = (c.again s.cond c.timeout script).2 := released.seen.trans ended.seen
    have found : ∀ e i, (u.found e).getLsbD i = true ↔
        i < c.nfd ∧ i < 8 ∧ (c.request e).getLsbD i = true ∧ c.sees u.seen e i = true := by
      rw [released.found, released.seen]
      exact ended.found
    have irq : u.irq = s.irq := released.irq.trans ended.irq
    obtain ⟨l, listed, each⟩ := ended.looks
    have members : ∀ l ∈ u.looks, ∀ i, i ∈ l ↔ i < c.nfd ∧ i < 8 ∧ c.requested i = true := by
      intro l listed
      rw [released.looks] at listed
      rcases each l listed with no | members
      · cases no
      · exact members
    have here : l ∈ u.looks := by
      rw [released.looks]
      exact listed
    constructor
    · intro right
      have narrow : ∀ i, c.Due i → i < 8 := by
        intro i due
        exact ((members l here i).mp ((right.examined l here i).mpr due)).2.1
      refine ⟨narrow, ?_, ?_⟩
      · intro i due none
        exact absurd none (good i due.1 (narrow i due) due.2.1)
      · intro every
        refine ⟨ttys.mp right.ttys, pipes.mp right.pipes, ?_⟩
        intro e i less asked
        have due : c.Due i := ⟨less, requested_of asked, fun j below on => every j (by omega) on⟩
        have low := narrow i due
        have same := (found e i).symm.trans (right.masks u rfl e i)
        rw [← seen, Bool.eq_iff_iff]
        constructor
        · intro saw
          exact (same.mp ⟨less, low, asked, saw⟩).2.2
        · intro is_ready
          exact (same.mpr ⟨less, asked, is_ready⟩).2.2.2
    · intro sound
      have every := all_good good sound.narrow
      obtain ⟨noDead, wraps, told⟩ := sound.good every
      refine ⟨?_, ?_, pipes.mpr wraps, ttys.mpr noDead, irq⟩
      · intro k listed i
        rw [members k listed i]
        constructor
        · rintro ⟨less, _, on⟩
          exact ⟨less, on, fun j below on' => every j (by omega) on'⟩
        · intro due
          exact ⟨due.1, sound.narrow i due, due.2.1⟩
      · intro v same e i
        injection same with same
        subst same
        rw [found e i]
        constructor
        · rintro ⟨less, _, asked, saw⟩
          rw [seen, told e i less asked] at saw
          exact ⟨less, asked, seen ▸ saw⟩
        · rintro ⟨less, asked, is_ready⟩
          have due : c.Due i := ⟨less, requested_of asked, fun j below on => every j (by omega) on⟩
          rw [seen, ← told e i less asked] at is_ready
          exact ⟨less, sound.narrow i due, asked, seen ▸ is_ready⟩

/-- A call that returns is right exactly if the conditions hold. -/
theorem select_exact (c : Call) (script : List Sleep) (s : State) {r : Except State State}
    (returned : select c script s = some r) : Right c s r ↔ Sound c s script := by
  by_cases good : c.Good
  · exact select_good good returned
  · exact select_bad good returned

end

/-- One look at a file for input. -/
def single (i : Nat) (within : i + 1 ≤ 16) : Call where
  nfd := i + 1
  within := within
  request e := if e = .input then 1#16 <<< i else 0
  timeout := 0
  files _ := some 0
  kind _ := .file
  proc := 0

def idle : State where
  irq := true
  pipesel := 0
  tty_select := 0
  p_timeout := 0
  cond _ := ⟨0, 1, 0, ⟨false, false, false, false⟩, fun _ => none, fun _ => false⟩
  maps _ _ := 0
  found _ := 0
  looks := []
  seen _ := ⟨0, 1, 0, ⟨false, false, false, false⟩, fun _ => none, fun _ => false⟩
  otherPipes := 0
  otherTtys := 0

/-- A file that is descriptor 0. -/
theorem select_exact_first : ∃ r, select (single 0 (by decide)) [] idle = some r ∧
    (Right (single 0 (by decide)) idle r ↔ Sound (single 0 (by decide)) idle []) := by
  cases run : select (single 0 (by decide)) [] idle with
  | none => exact absurd run (by decide)
  | some r => exact ⟨r, rfl, select_exact _ _ _ run⟩

/-- A file that is descriptor 8 is not looked at, as the byte `m` has no bit for it. -/
theorem ninth_ignored : ¬ ∀ [Selmap.Machine] (c : Call) (script : List Sleep) (s : State) (r : Except State State),
    select c script s = some r → Right c s r := by
  intro claim
  let c := single 8 (by decide)
  have good : c.Good := fun _ _ _ _ no => by cases no
  have due : c.Due 8 := ⟨by decide, by decide, fun _ _ _ no => by cases no⟩
  cases run : select c [] idle with
  | none => exact absurd run (by decide)
  | some r =>
    have right := claim c [] idle r run
    have low := ((select_good good run).mp right).narrow 8 due
    exact absurd low (by decide)

end Select
