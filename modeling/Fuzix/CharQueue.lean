import Mathlib.Algebra.Group.Nat.Defs
import Fuzix.TtyQueue

/-!
# Character queues

The queues of devio.c with their pointers: `q_head` and `q_tail` move in the buffer at
`q_base` and are compared with its ends. As positions from `q_base` they are the queue of the
line discipline, and the queue is a list of characters of bounded length.
-/

namespace CharQueue

open Table Ring

/-- `struct s_queue` without `q_wakeup`, for pointers of `w` bits. -/
structure SQueue (w : Nat) where
  q_base : BitVec w
  q_head : BitVec w
  q_tail : BitVec w
  q_size : Nat
  q_count : Nat

structure State (w : Nat) where
  mem : BitVec w → UInt8
  q : SQueue w

section
variable {w : Nat}

/-- `q->q_base + q->q_size` -/
def SQueue.limit (q : SQueue w) : BitVec w := q.q_base + BitVec.ofNat w q.q_size

/-- `++p`, and around at the end. -/
def SQueue.next (q : SQueue w) (p : BitVec w) : BitVec w :=
  if q.limit ≤ p + 1 then q.q_base else p + 1

/-- `--p`, and around at the start. -/
def SQueue.previous (q : SQueue w) (p : BitVec w) : BitVec w :=
  if p - 1 < q.q_base then q.limit - 1 else p - 1

def insq (c : UInt8) (s : State w) : Bool × State w :=
  if s.q.q_count = s.q.q_size then (false, s)
  else (true, ⟨put s.mem s.q.q_tail c,
    { s.q with q_count := s.q.q_count + 1, q_tail := s.q.next s.q.q_tail }⟩)

/-- The character is the one that is stored through `cp`. -/
def remq (s : State w) : Option UInt8 × State w :=
  if s.q.q_count = 0 then (none, s)
  else (some (s.mem s.q.q_head),
    { s with q := { s.q with q_count := s.q.q_count - 1, q_head := s.q.next s.q.q_head } })

def clrq (s : State w) : State w :=
  { s with q := { s.q with q_head := s.q.q_base, q_tail := s.q.q_base, q_count := 0 } }

def uninsq (s : State w) : Option UInt8 × State w :=
  if s.q.q_count = 0 then (none, s)
  else (some (s.mem (s.q.previous s.q.q_tail)),
    { s with q := { s.q with q_count := s.q.q_count - 1, q_tail := s.q.previous s.q.q_tail } })

end

/-! ## Calls -/

inductive Call where
  | insq (c : UInt8)
  | remq
  | uninsq
  | clrq
deriving DecidableEq

/-- What a call returns, and the character that it hands out. -/
inductive Answer where
  | refused
  | stored
  | char (c : UInt8)
  | cleared
deriving DecidableEq

def handed : Option UInt8 → Answer
  | none => .refused
  | some c => .char c

def step {w : Nat} (s : State w) : Call → Answer × State w
  | .insq c => (if (insq c s).1 then .stored else .refused, (insq c s).2)
  | .remq => (handed (remq s).1, (remq s).2)
  | .uninsq => (handed (uninsq s).1, (uninsq s).2)
  | .clrq => (.cleared, clrq s)

/-- The answers of the calls in their order, and the state after them. -/
def run {w : Nat} : State w → List Call → List Answer × State w
  | s, [] => ([], s)
  | s, a :: as => ((step s a).1 :: (run (step s a).2 as).1, (run (step s a).2 as).2)

/-! ## Bounded lists -/

namespace Bounded

/-- The call on a list of at most `size` characters. -/
def step (size : Nat) (l : List UInt8) : Call → Answer × List UInt8
  | .insq c => if l.length = size then (.refused, l) else (.stored, l ++ [c])
  | .remq => (handed l.head?, l.tail)
  | .uninsq => (handed l.getLast?, l.dropLast)
  | .clrq => (.cleared, [])

def run (size : Nat) : List UInt8 → List Call → List Answer × List UInt8
  | l, [] => ([], l)
  | l, a :: as => ((step size l a).1 :: (run size (step size l a).2 as).1, (run size (step size l a).2 as).2)

end Bounded

/-! ## Positions -/

section Pointers
variable {w : Nat} {q : SQueue w} {s : State w} {p : BitVec w} {c : UInt8} {l : List UInt8}

/-- The buffer is an object: it is not at the null pointer, and there is an address behind it. -/
structure Placed (q : SQueue w) : Prop where
  start : 0 < q.q_base.toNat
  limit : q.q_base.toNat + q.q_size < 2 ^ w

/-- The pointer is in the buffer. -/
def Inside (q : SQueue w) (p : BitVec w) : Prop :=
  q.q_base.toNat ≤ p.toNat ∧ p.toNat < q.q_base.toNat + q.q_size

def position (q : SQueue w) (p : BitVec w) : Nat := p.toNat - q.q_base.toNat

def place (q : SQueue w) (k : Nat) : BitVec w := q.q_base + BitVec.ofNat w k

/-- The queue of the line discipline. -/
def positions (s : State w) : Tty.Queue where
  data k := if k < s.q.q_size then s.mem (place s.q k) else 0
  head := position s.q s.q.q_head
  tail := position s.q s.q.q_tail
  size := s.q.q_size
  count := s.q.q_count

theorem Placed.limit_toNat (placed : Placed q) : q.limit.toNat = q.q_base.toNat + q.q_size := by
  have limit := placed.limit
  unfold SQueue.limit
  rw [BitVec.toNat_add, BitVec.toNat_ofNat, Nat.mod_eq_of_lt (by omega : q.q_size < 2 ^ w),
    Nat.mod_eq_of_lt limit]

theorem Placed.place_toNat (placed : Placed q) {k : Nat} (less : k < q.q_size) :
    (place q k).toNat = q.q_base.toNat + k := by
  have limit := placed.limit
  unfold place
  rw [BitVec.toNat_add, BitVec.toNat_ofNat, Nat.mod_eq_of_lt (by omega : k < 2 ^ w),
    Nat.mod_eq_of_lt (by omega)]

/-- A pointer in the buffer is the place at its position. -/
theorem Placed.place_position (placed : Placed q) (inside : Inside q p) : place q (position q p) = p := by
  obtain ⟨low, high⟩ := inside
  have less : position q p < q.q_size := by
    unfold position
    omega
  apply BitVec.eq_of_toNat_eq
  rw [placed.place_toNat less, position]
  omega

theorem Placed.one_toNat (placed : Placed q) : (1 : BitVec w).toNat = 1 := by
  have start := placed.start
  have limit := placed.limit
  have more : 1 < 2 ^ w := by omega
  exact Nat.mod_eq_of_lt more

theorem inside_base (some_room : 0 < q.q_size) : Inside q q.q_base :=
  ⟨Nat.le_refl _, by omega⟩

theorem Placed.next (placed : Placed q) (inside : Inside q p) : Inside q (q.next p) ∧
    position q (q.next p) = if q.q_size ≤ position q p + 1 then 0 else position q p + 1 := by
  obtain ⟨low, high⟩ := inside
  have limit := placed.limit
  have up : (p + 1).toNat = p.toNat + 1 := by
    rw [BitVec.toNat_add, placed.one_toNat, Nat.mod_eq_of_lt (by omega)]
  have past : q.limit ≤ p + 1 ↔ q.q_size ≤ position q p + 1 := by
    rw [BitVec.le_def, placed.limit_toNat, up, position]
    omega
  unfold SQueue.next
  by_cases around : q.limit ≤ p + 1
  · rw [if_pos around, if_pos (past.mp around)]
    exact ⟨inside_base (by omega), Nat.sub_self _⟩
  · have room : ¬ q.q_size ≤ position q p + 1 := fun no => around (past.mpr no)
    rw [if_neg around, if_neg room]
    unfold Inside position at *
    omega

theorem Placed.previous (placed : Placed q) (inside : Inside q p) : Inside q (q.previous p) ∧
    position q (q.previous p) = if position q p = 0 then q.q_size - 1 else position q p - 1 := by
  obtain ⟨low, high⟩ := inside
  have start := placed.start
  have limit := placed.limit
  have size := placed.limit_toNat
  have one := placed.one_toNat
  have down : (p - 1).toNat = p.toNat - 1 :=
    BitVec.toNat_sub_of_le (by rw [BitVec.le_def, one]; omega) |>.trans (by rw [one])
  have last : (q.limit - 1).toNat = q.limit.toNat - 1 :=
    BitVec.toNat_sub_of_le (by rw [BitVec.le_def, one]; omega) |>.trans (by rw [one])
  have first : p - 1 < q.q_base ↔ position q p = 0 := by
    rw [BitVec.lt_def, down, position]
    omega
  unfold SQueue.previous
  by_cases around : p - 1 < q.q_base
  · rw [if_pos around, if_pos (first.mp around)]
    unfold Inside position
    omega
  · have room : position q p ≠ 0 := fun no => around (first.mpr no)
    rw [if_neg around, if_neg room]
    unfold Inside position at *
    omega

/-- A store in the buffer is a store at a position. -/
theorem Placed.put (placed : Placed s.q) (inside : Inside s.q p) (q' : SQueue w) (same : q'.q_base = s.q.q_base)
    (size : q'.q_size = s.q.q_size) :
    (positions ⟨Table.put s.mem p c, q'⟩).data = Table.put (positions s).data (position s.q p) c := by
  have here := placed.place_position inside
  have less : position s.q p < s.q.q_size := by
    have low := inside.1
    have high := inside.2
    unfold position
    omega
  funext k
  have base : place q' k = place s.q k := by rw [place, place, same]
  show (if k < q'.q_size then Table.put s.mem p c (place q' k) else 0) = _
  rw [size, base]
  by_cases at_p : k = position s.q p
  · rw [at_p, if_pos less, here, put_same, put_same]
  · rw [put_ne _ _ at_p]
    by_cases short : k < s.q.q_size
    · have apart : place s.q k ≠ p := by
        intro equal
        have value := congrArg BitVec.toNat equal
        rw [placed.place_toNat short] at value
        apply at_p
        rw [position, ← value]
        omega
      rw [put_ne _ _ apart]
      rfl
    · rw [if_neg short]
      exact (if_neg short).symm

/-! ## Calls on positions -/

/-- The character at a pointer in the buffer. -/
theorem Placed.data (placed : Placed s.q) (inside : Inside s.q p) :
    (positions s).data (position s.q p) = s.mem p := by
  obtain ⟨low, high⟩ := inside
  have less : position s.q p < s.q.q_size := by
    unfold position
    omega
  show (if position s.q p < s.q.q_size then s.mem (place s.q (position s.q p)) else 0) = _
  rw [if_pos less, placed.place_position ⟨low, high⟩]

theorem insq_positions (placed : Placed s.q) (inside : Inside s.q s.q.q_tail) (c : UInt8) :
    (insq c s).1 = (Tty.insq (positions s) c).2 ∧ positions (insq c s).2 = (Tty.insq (positions s) c).1 := by
  by_cases full : s.q.q_count = s.q.q_size
  · have filled : (positions s).count = (positions s).size := full
    rw [insq, if_pos full, Tty.insq, if_pos filled]
    exact ⟨rfl, rfl⟩
  · have unfilled : (positions s).count ≠ (positions s).size := full
    rw [insq, if_neg full, Tty.insq, if_neg unfilled]
    refine ⟨rfl, ?_⟩
    have data := placed.put inside (c := c)
      { s.q with q_count := s.q.q_count + 1, q_tail := s.q.next s.q.q_tail } rfl rfl
    rw [Tty.Queue.mk.injEq]
    exact ⟨data, rfl, (placed.next inside).2, rfl, rfl⟩

theorem remq_positions (placed : Placed s.q) (inside : Inside s.q s.q.q_head) (some_left : s.q.q_count ≠ 0) :
    (remq s).1 = some (s.mem s.q.q_head) ∧
      Tty.remq (positions s) = some (s.mem s.q.q_head, positions (remq s).2) := by
  have left : (positions s).count ≠ 0 := some_left
  have here : (positions s).data (positions s).head = s.mem s.q.q_head := placed.data inside
  rw [remq, if_neg some_left, Tty.remq, if_neg left, here]
  refine ⟨rfl, congrArg (fun q => some (s.mem s.q.q_head, q)) ?_⟩
  rw [Tty.Queue.mk.injEq]
  exact ⟨rfl, (placed.next inside).2.symm, rfl, rfl, rfl⟩

theorem uninsq_positions (placed : Placed s.q) (inside : Inside s.q s.q.q_tail) (some_left : s.q.q_count ≠ 0) :
    (uninsq s).1 = some (s.mem (s.q.previous s.q.q_tail)) ∧
      Tty.uninsq (positions s) = some (s.mem (s.q.previous s.q.q_tail), positions (uninsq s).2) := by
  have left : (positions s).count ≠ 0 := some_left
  obtain ⟨within, tail⟩ := placed.previous inside
  have back : (if (positions s).tail = 0 then (positions s).size - 1 else (positions s).tail - 1) =
      position s.q (s.q.previous s.q.q_tail) := tail.symm
  rw [uninsq, if_neg some_left, Tty.uninsq, if_neg left, back]
  dsimp only
  rw [placed.data within]
  refine ⟨rfl, congrArg (fun q => some (s.mem (s.q.previous s.q.q_tail), q)) ?_⟩
  rw [Tty.Queue.mk.injEq]
  exact ⟨rfl, rfl, rfl, rfl, rfl⟩

/-! ## Refinement -/

/-- A pointer that stays with the buffer: of a buffer without room it is the start. -/
def Held (q : SQueue w) (p : BitVec w) : Prop := Inside q p ∨ q.q_size = 0 ∧ p = q.q_base

/-- The queue, which once was `s₀`, stands for the list: these are the characters from the head
to the tail, and nothing is stored outside the buffer. -/
structure Stands (s₀ s : State w) (l : List UInt8) : Prop where
  base : s.q.q_base = s₀.q.q_base
  size : s.q.q_size = s₀.q.q_size
  count : s.q.q_count = l.length
  bound : l.length ≤ s₀.q.q_size
  head : Held s.q s.q.q_head
  tail : Held s.q s.q.q_tail
  chars : Tty.chars (positions s) = l
  ringed : 0 < s₀.q.q_size → Tty.Ringed (positions s)
  outside : ∀ p, ¬ Inside s₀.q p → s.mem p = s₀.mem p

section Stands
variable {s₀ : State w}

theorem Stands.placed (stands : Stands s₀ s l) (placed : Placed s₀.q) : Placed s.q := by
  have start := placed.start
  have limit := placed.limit
  rw [← stands.base] at start limit
  rw [← stands.size] at limit
  exact ⟨start, limit⟩

theorem Held.inside (held : Held q p) (some_room : 0 < q.q_size) : Inside q p := by
  rcases held with inside | ⟨none, _⟩
  · exact inside
  · omega

theorem Stands.inside_congr (stands : Stands s₀ s l) (p : BitVec w) : Inside s.q p ↔ Inside s₀.q p := by
  unfold Inside
  rw [stands.base, stands.size]

theorem Stands.insq (stands : Stands s₀ s l) (placed : Placed s₀.q) (room : l.length ≠ s₀.q.q_size) (c : UInt8) :
    (insq c s).1 = true ∧ Stands s₀ (insq c s).2 (l ++ [c]) := by
  have bound := stands.bound
  have some_room : 0 < s₀.q.q_size := by omega
  have here := stands.size
  have inside := stands.tail.inside (by omega)
  have placed' := stands.placed placed
  have unfilled : s.q.q_count ≠ s.q.q_size := by
    rw [stands.count, stands.size]
    exact room
  obtain ⟨answer, after⟩ := insq_positions placed' inside c
  obtain ⟨done, inserted⟩ := Tty.insq_room (c := c) (stands.ringed some_room) unfilled
  rw [← after] at inserted
  refine ⟨answer.trans done, ?_⟩
  have chars := inserted.chars
  have ringed := inserted.ringed
  rw [stands.chars] at chars
  rw [CharQueue.insq, if_neg unfilled] at chars ringed ⊢
  have count : s.q.q_count + 1 = (l ++ [c]).length := by
    rw [stands.count, List.length_append, List.length_singleton]
  refine ⟨stands.base, stands.size, count, ?_, stands.head, Or.inl (placed'.next inside).1, chars, fun _ => ringed, ?_⟩
  · rw [List.length_append, List.length_singleton]
    omega
  · intro p away
    have other : p ≠ s.q.q_tail := fun same => away ((stands.inside_congr p).mp (same ▸ inside))
    exact (put_ne _ _ other).trans (stands.outside p away)

theorem Stands.remq (stands : Stands s₀ s (c :: l)) (placed : Placed s₀.q) :
    (remq s).1 = some c ∧ Stands s₀ (remq s).2 l := by
  have bound := stands.bound
  rw [List.length_cons] at bound
  have some_room : 0 < s₀.q.q_size := by omega
  have here := stands.size
  have count := stands.count
  rw [List.length_cons] at count
  have inside := stands.head.inside (by omega)
  have placed' := stands.placed placed
  have left : s.q.q_count ≠ 0 := by omega
  obtain ⟨answer, after⟩ := remq_positions placed' inside left
  obtain ⟨q, taken, removed⟩ := Tty.remq_chars (stands.ringed some_room) stands.chars
  rw [after] at taken
  injection taken with taken
  injection taken with first rest
  rw [← rest] at removed
  refine ⟨answer.trans (congrArg some first), ?_⟩
  have chars := removed.chars
  have ringed := removed.ringed
  rw [CharQueue.remq, if_neg left] at chars ringed ⊢
  have fewer : s.q.q_count - 1 = l.length := by omega
  exact ⟨stands.base, stands.size, fewer, by omega, Or.inl (placed'.next inside).1, stands.tail, chars, fun _ => ringed,
    stands.outside⟩

theorem Stands.uninsq (stands : Stands s₀ s (l ++ [c])) (placed : Placed s₀.q) :
    (uninsq s).1 = some c ∧ Stands s₀ (uninsq s).2 l := by
  have bound := stands.bound
  rw [List.length_append, List.length_singleton] at bound
  have some_room : 0 < s₀.q.q_size := by omega
  have here := stands.size
  have count := stands.count
  rw [List.length_append, List.length_singleton] at count
  have inside := stands.tail.inside (by omega)
  have placed' := stands.placed placed
  have left : s.q.q_count ≠ 0 := by omega
  obtain ⟨answer, after⟩ := uninsq_positions placed' inside left
  obtain ⟨q, taken, removed⟩ := Tty.uninsq_chars (stands.ringed some_room) stands.chars
  rw [after] at taken
  injection taken with taken
  injection taken with last rest
  rw [← rest] at removed
  refine ⟨answer.trans (congrArg some last), ?_⟩
  have chars := removed.chars
  have ringed := removed.ringed
  rw [CharQueue.uninsq, if_neg left] at chars ringed ⊢
  have fewer : s.q.q_count - 1 = l.length := by omega
  exact ⟨stands.base, stands.size, fewer, by omega, stands.head, Or.inl (placed'.previous inside).1, chars,
    fun _ => ringed, stands.outside⟩

theorem held_base (q : SQueue w) : Held q q.q_base := by
  by_cases none : q.q_size = 0
  · exact Or.inr ⟨none, rfl⟩
  · exact Or.inl (inside_base (Nat.pos_of_ne_zero none))

/-- An empty queue whose pointers are at the start. -/
theorem stands_empty (base : s.q.q_base = s₀.q.q_base) (size : s.q.q_size = s₀.q.q_size) (count : s.q.q_count = 0)
    (head : s.q.q_head = s.q.q_base) (tail : s.q.q_tail = s.q.q_base)
    (outside : ∀ p, ¬ Inside s₀.q p → s.mem p = s₀.mem p) : Stands s₀ s [] := by
  have front : (positions s).head = 0 := by
    show position s.q s.q.q_head = 0
    rw [head]
    exact Nat.sub_self _
  have back : (positions s).tail = 0 := by
    show position s.q s.q.q_tail = 0
    rw [tail]
    exact Nat.sub_self _
  have none : (positions s).count = 0 := count
  refine ⟨base, size, count, Nat.zero_le _, head ▸ held_base s.q, tail ▸ held_base s.q, Tty.chars_empty.mpr none,
    fun some_room => ?_, outside⟩
  have room : 0 < (positions s).size := Nat.lt_of_lt_of_eq some_room size.symm
  refine ⟨front ▸ room, none ▸ Nat.zero_le _, ?_⟩
  rw [front, back, none]
  exact (wrap_small room).symm

/-- A call does what it does to the list, and one that is refused does nothing. -/
theorem Stands.step (stands : Stands s₀ s l) (placed : Placed s₀.q) (call : Call) :
    (step s call).1 = (Bounded.step s₀.q.q_size l call).1 ∧
      Stands s₀ (step s call).2 (Bounded.step s₀.q.q_size l call).2 ∧
      ((step s call).1 = .refused → (step s call).2 = s) := by
  cases call with
  | insq c =>
    by_cases full : l.length = s₀.q.q_size
    · have filled : s.q.q_count = s.q.q_size := by rw [stands.count, stands.size, full]
      have refused : CharQueue.insq c s = (false, s) := if_pos filled
      rw [CharQueue.step, Bounded.step, refused, if_pos full]
      exact ⟨rfl, stands, fun _ => rfl⟩
    · obtain ⟨done, after⟩ := stands.insq placed full c
      rw [CharQueue.step, Bounded.step, done, if_neg full]
      exact ⟨rfl, after, fun no => by cases no⟩
  | remq =>
    cases l with
    | nil =>
      have refused : CharQueue.remq s = (none, s) := if_pos stands.count
      rw [CharQueue.step, Bounded.step, refused]
      exact ⟨rfl, stands, fun _ => rfl⟩
    | cons c l =>
      obtain ⟨first, after⟩ := stands.remq placed
      rw [CharQueue.step, Bounded.step, first]
      exact ⟨rfl, after, fun no => by cases no⟩
  | uninsq =>
    rcases List.eq_nil_or_concat l with none_left | ⟨rest, c, last⟩
    · subst none_left
      have refused : CharQueue.uninsq s = (none, s) := if_pos stands.count
      rw [CharQueue.step, Bounded.step, refused]
      exact ⟨rfl, stands, fun _ => rfl⟩
    · rw [List.concat_eq_append] at last
      subst last
      obtain ⟨newest, after⟩ := stands.uninsq placed
      rw [CharQueue.step, Bounded.step, newest, List.getLast?_concat, List.dropLast_concat]
      exact ⟨rfl, after, fun no => by cases no⟩
  | clrq =>
    exact ⟨rfl, stands_empty stands.base stands.size rfl rfl rfl stands.outside, fun no => by cases no⟩

theorem Stands.run (stands : Stands s₀ s l) (placed : Placed s₀.q) (calls : List Call) :
    (run s calls).1 = (Bounded.run s₀.q.q_size l calls).1 ∧
      Stands s₀ (run s calls).2 (Bounded.run s₀.q.q_size l calls).2 := by
  induction calls generalizing s l with
  | nil => exact ⟨rfl, stands⟩
  | cons call calls ih =>
    obtain ⟨answer, after, _⟩ := stands.step placed call
    obtain ⟨answers, last⟩ := ih after
    refine ⟨?_, last⟩
    show _ :: _ = _ :: _
    rw [answer, answers]

end Stands

/-- The pointers of a new queue. -/
structure Fresh (q : SQueue w) : Prop where
  placed : Placed q
  head : q.q_head = q.q_base
  tail : q.q_tail = q.q_base
  count : q.q_count = 0

/-- Whatever is called, the queue is the list of bounded length, with the same answers. -/
theorem queue_refines (s : State w) (fresh : Fresh s.q) (calls : List Call) :
    (run s calls).1 = (Bounded.run s.q.q_size [] calls).1 ∧
      Stands s (run s calls).2 (Bounded.run s.q.q_size [] calls).2 ∧
      ∀ call, (step (run s calls).2 call).1 = .refused → (step (run s calls).2 call).2 = (run s calls).2 := by
  have empty : Stands s s [] := stands_empty rfl rfl fresh.count fresh.head fresh.tail fun _ _ => rfl
  obtain ⟨answers, stands⟩ := empty.run fresh.placed calls
  exact ⟨answers, stands, fun call => (stands.step fresh.placed call).2.2⟩

end Pointers

/-- Two characters, in the last bytes but one of the memory. -/
def pair : State 8 := ⟨fun _ => 0, ⟨253, 253, 253, 2, 0⟩⟩

theorem queue_refines_pair : Fresh pair.q ∧
    (run pair [.insq 1, .insq 2, .insq 3, .remq, .insq 4, .uninsq]).1 =
      [.stored, .stored, .refused, .char 1, .stored, .char 4] := by
  have fresh : Fresh pair.q := ⟨⟨by decide, by decide⟩, rfl, rfl, rfl⟩
  exact ⟨fresh, (queue_refines pair fresh _).1⟩

end CharQueue
