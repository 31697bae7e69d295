import Fuzix.Tty

/-!
# The input queue as a list

The characters of a queue, from the head to the tail, and what each operation makes of them.
-/

namespace Tty

open Table Ring

def chars (q : Queue) : List UInt8 := window q.size q.data q.head q.count

/-- The tail is `count` places behind the head. -/
structure Ringed (q : Queue) : Prop where
  head : q.head < q.size
  count : q.count ≤ q.size
  tail : q.tail = wrap q.size (q.head + q.count)

section Queues
variable {q : Queue} {c : UInt8} {cs : List UInt8}

@[simp] theorem chars_length : (chars q).length = q.count := window_length

theorem chars_empty : chars q = [] ↔ q.count = 0 := by
  rw [← List.length_eq_zero_iff, chars_length]

theorem next_wrap {N a : Nat} (small : a < N) : (if N ≤ a + 1 then 0 else a + 1) = wrap N (a + 1) := by
  unfold wrap
  split_ifs <;> omega

/-- The place behind the characters is none of theirs. -/
theorem wrap_apart {N a i n : Nat} (_ : a < N) (less : i < n) (room : n < N) :
    wrap N (a + i) ≠ wrap N (a + n) := by
  unfold wrap
  split_ifs <;> omega

theorem clrq_chars (q : Queue) : chars (clrq q) = [] := chars_empty.mpr rfl

theorem clrq_ringed (some_room : 0 < q.size) : Ringed (clrq q) :=
  ⟨some_room, Nat.zero_le _, (wrap_small some_room).symm⟩

theorem insq_full (full : q.count = q.size) : insq q c = (q, false) := if_pos full

structure Inserted (q : Queue) (c : UInt8) (q' : Queue) : Prop where
  ringed : Ringed q'
  size : q'.size = q.size
  chars : chars q' = Tty.chars q ++ [c]

theorem insq_room (ok : Ringed q) (room : q.count ≠ q.size) :
    (insq q c).2 = true ∧ Inserted q c (insq q c).1 := by
  have head := ok.head
  have count := ok.count
  have tail := ok.tail
  have tailLt : q.tail < q.size := by
    rw [tail]
    exact wrap_lt (by omega)
  have step : insq q c = ({ q with
      data := put q.data q.tail c
      count := q.count + 1
      tail := wrap q.size (q.tail + 1) }, true) := by
    unfold insq
    rw [if_neg room, next_wrap tailLt]
  rw [step]
  refine ⟨rfl, ⟨head, ?_, ?_⟩, rfl, ?_⟩
  · show q.count + 1 ≤ q.size
    omega
  · show wrap q.size (q.tail + 1) = wrap q.size (q.head + (q.count + 1))
    rw [tail, wrap_wrap head (by omega)]
  · show window q.size (put q.data q.tail c) q.head (q.count + 1) = _
    rw [window_add head (by omega), ← tail]
    congr 1
    · apply window_congr
      intro i less
      have apart := wrap_apart head less (by omega : q.count < q.size)
      rw [← tail] at apart
      exact put_ne _ _ apart
    · simp [window, wrap_small tailLt]

structure Removed (q : Queue) (cs : List UInt8) (q' : Queue) : Prop where
  ringed : Ringed q'
  size : q'.size = q.size
  chars : Tty.chars q' = cs

theorem remq_empty (empty : chars q = []) : remq q = none := if_pos (chars_empty.mp empty)

theorem remq_chars (ok : Ringed q) (first : chars q = c :: cs) :
    ∃ q', remq q = some (c, q') ∧ Removed q cs q' := by
  have head := ok.head
  have count := ok.count
  have length : q.count = cs.length + 1 := by
    rw [← chars_length, first, List.length_cons]
  have parts : window q.size q.data q.head (1 + cs.length) =
      q.data q.head :: window q.size q.data (wrap q.size (q.head + 1)) cs.length := by
    rw [window_add head (by omega)]
    simp [window, wrap_small head]
  have same : c :: cs = q.data q.head :: window q.size q.data (wrap q.size (q.head + 1)) cs.length := by
    rw [← parts, ← first]
    show window q.size q.data q.head q.count = _
    rw [length, Nat.add_comm]
  injection same with here rest
  have step : remq q = some (q.data q.head, { q with
      count := q.count - 1
      head := wrap q.size (q.head + 1) }) := by
    unfold remq
    rw [if_neg (by omega), next_wrap head]
  refine ⟨{ q with count := q.count - 1, head := wrap q.size (q.head + 1) }, ?_, ⟨?_, ?_, ?_⟩, rfl, ?_⟩
  · rw [step, here]
  · exact wrap_lt (by omega)
  · show q.count - 1 ≤ q.size
    omega
  · show q.tail = wrap q.size (wrap q.size (q.head + 1) + (q.count - 1))
    have around : 1 + (q.count - 1) = q.count := by omega
    rw [wrap_wrap head (by omega), around]
    exact ok.tail
  · show window q.size q.data (wrap q.size (q.head + 1)) (q.count - 1) = cs
    rw [length, Nat.add_sub_cancel]
    exact rest.symm

theorem uninsq_empty (empty : chars q = []) : uninsq q = none := if_pos (chars_empty.mp empty)

theorem uninsq_chars (ok : Ringed q) (last : chars q = cs ++ [c]) :
    ∃ q', uninsq q = some (c, q') ∧ Removed q cs q' := by
  have head := ok.head
  have count := ok.count
  have length : q.count = cs.length + 1 := by
    rw [← chars_length, last, List.length_append, List.length_singleton]
  have back : (if q.tail = 0 then q.size - 1 else q.tail - 1) = wrap q.size (q.head + cs.length) := by
    have tail := ok.tail
    rw [length] at tail
    unfold wrap at tail ⊢
    split_ifs at tail ⊢ <;> omega
  have place : wrap q.size (q.head + cs.length) < q.size := wrap_lt (by omega)
  have parts : cs ++ [c] = window q.size q.data q.head cs.length ++
      [q.data (wrap q.size (q.head + cs.length))] := by
    rw [← last]
    show window q.size q.data q.head q.count = _
    rw [length, window_add head (by omega)]
    simp [window, wrap_small place]
  obtain ⟨rest, here⟩ := List.append_inj' parts rfl
  injection here with here
  refine ⟨{ q with count := q.count - 1, tail := wrap q.size (q.head + cs.length) }, ?_, ⟨head, ?_, ?_⟩,
    rfl, ?_⟩
  · unfold uninsq
    rw [if_neg (by omega), back, here]
  · show q.count - 1 ≤ q.size
    omega
  · show wrap q.size (q.head + cs.length) = wrap q.size (q.head + (q.count - 1))
    rw [length, Nat.add_sub_cancel]
  · show window q.size q.data q.head (q.count - 1) = cs
    rw [length, Nat.add_sub_cancel]
    exact rest.symm

end Queues

/-! ## Taking characters back -/

/-- What `eraseout` does not go past. -/
def isEnd (tio : Termios) (c : UInt8) : Prop := c = newline ∨ c = tio.c_cc VEOL

instance (tio : Termios) (c : UInt8) : Decidable (isEnd tio c) := by unfold isEnd; infer_instance

/-- A terminal with another queue; what was echoed may differ. -/
structure Requeued (t : Terminal) (cs : List UInt8) (t' : Terminal) : Prop where
  ringed : Ringed t'.q
  size : t'.q.size = t.q.size
  chars : chars t'.q = cs
  dead : t'.dead = t.dead

section Erasing
variable {tio : Termios} {t t' : Terminal} {c : UInt8} {cs ds : List UInt8} {wr : BitVec 16} {n : Nat}

theorem eraseout_empty (ok : Ringed t.q) (empty : chars t.q = []) :
    Requeued t [] (eraseout tio wr n t) := by
  have same : eraseout tio wr n t = t := by
    cases n with
    | zero => rfl
    | succ n =>
      unfold eraseout
      rw [uninsq_empty empty]
  rw [same]
  exact ⟨ok, rfl, empty, rfl⟩

/-- A line end is put back. -/
theorem eraseout_end (ok : Ringed t.q) (last : chars t.q = cs ++ [c]) (stops : isEnd tio c) :
    Requeued t (cs ++ [c]) (eraseout tio wr (n + 1) t) := by
  obtain ⟨q, done, removed⟩ := uninsq_chars ok last
  have count : (chars q).length + 1 = (chars t.q).length := by
    rw [removed.chars, last, List.length_append, List.length_singleton]
  simp only [chars_length] at count
  have bound := ok.count
  have size := removed.size
  have inserted := (insq_room (c := c) removed.ringed (by omega)).2
  have step : eraseout tio wr (n + 1) t = { t with q := (insq q c).1 } := by
    unfold eraseout
    rw [done]
    exact if_pos stops
  rw [step]
  exact ⟨inserted.ringed, inserted.size.trans size, by rw [inserted.chars, removed.chars], rfl⟩

theorem eraseout_char (wr : BitVec 16) (n : Nat) (ok : Ringed t.q) (last : chars t.q = cs ++ [c]) (goes : ¬ isEnd tio c) :
    ∃ t', Requeued t cs t' ∧
      eraseout tio wr (n + 1) t = if wr = ECHOE then t' else eraseout tio wr n t' := by
  obtain ⟨q, done, removed⟩ := uninsq_chars ok last
  refine ⟨if on tio.c_lflag wr then tty_erase { t with q := q } else { t with q := q }, ?_, ?_⟩
  · split
    · exact ⟨removed.ringed, removed.size, removed.chars, rfl⟩
    · exact ⟨removed.ringed, removed.size, removed.chars, rfl⟩
  · rw [eraseout, done]
    exact if_neg goes

theorem erase_one (ok : Ringed t.q) (last : chars t.q = cs ++ [c]) (goes : ¬ isEnd tio c) :
    Requeued t cs (eraseout tio ECHOE (n + 1) t) := by
  obtain ⟨t', requeued, step⟩ := eraseout_char ECHOE n ok last goes
  rw [step, if_pos rfl]
  exact requeued

/-- All characters after the last line end go. -/
theorem erase_all (ok : Ringed t.q) (here : chars t.q = cs ++ ds) (goes : ∀ c ∈ ds, ¬ isEnd tio c)
    (stops : cs = [] ∨ ∃ cs' c, cs = cs' ++ [c] ∧ isEnd tio c) (fuel : t.q.count ≤ n) :
    Requeued t cs (eraseout tio ECHOK n t) := by
  induction n generalizing t ds with
  | zero =>
    have empty : chars t.q = [] := chars_empty.mpr (Nat.le_zero.mp fuel)
    have nothing : cs = [] := (List.append_eq_nil_iff.mp (here.symm.trans empty)).1
    rw [nothing]
    exact eraseout_empty ok empty
  | succ n ih =>
    rcases List.eq_nil_or_concat ds with none_left | ⟨ds', c, last⟩
    · rw [none_left, List.append_nil] at here
      rcases stops with nothing | ⟨cs', c, last, stop⟩
      · rw [nothing] at here ⊢
        exact eraseout_empty ok here
      · rw [last] at here ⊢
        exact eraseout_end ok here stop
    · rw [List.concat_eq_append] at last
      rw [last] at here goes
      rw [← List.append_assoc] at here
      obtain ⟨t', requeued, step⟩ := eraseout_char ECHOK n ok here (goes c (by simp))
      have before := congrArg List.length here
      have after := congrArg List.length requeued.chars
      simp only [chars_length, List.length_append, List.length_singleton] at before after
      have rest := ih requeued.ringed requeued.chars (fun d member => goes d (by simp [member]))
        (by omega)
      rw [step, if_neg (by decide)]
      exact ⟨rest.ringed, rest.size.trans requeued.size, rest.chars, rest.dead.trans requeued.dead⟩

end Erasing

end Tty
