import Fuzix.Lib.Table

/-!
# Stacks in batches

A stack keeps its topmost entries in one batch of at most `N`. A full batch moves into the
cell that is pushed, and is loaded when that cell is popped. A null entry lies at the bottom.
-/

namespace Chain

open Table

variable {α : Type}

structure Batch (α : Type) where
  count : Nat
  entry : Nat → α

/-- The batch below the entry that is popped. -/
def Batch.pop (link : α → Batch α) (l : Batch α) : Batch α :=
  if l.count = 1 then link (l.entry 0) else ⟨l.count - 1, l.entry⟩

/-- Batches of at most `N` entries that hold the same. -/
def Batch.Same (N : Nat) (l' l : Batch α) : Prop := l'.count = l.count ∧ ∀ i < N, l'.entry i = l.entry i

/-- Popping gives these entries, and then the null entry. -/
inductive Yields (N : Nat) (null : α) (link : α → Batch α) : Batch α → List α → Prop where
  | done {l : Batch α} (some_left : 0 < l.count) (fits : l.count ≤ N)
      (last : l.entry (l.count - 1) = null) : Yields N null link l []
  | next {l : Batch α} {a : α} {as : List α} (some_left : 0 < l.count) (fits : l.count ≤ N)
      (first : l.entry (l.count - 1) = a) (real : a ≠ null) (rest : Yields N null link (l.pop link) as) :
      Yields N null link l (a :: as)

section Popping
variable {N : Nat} {null : α} {link link' : α → Batch α} {l l' : Batch α} {a : α} {as as' : List α}

theorem Yields.count_pos (yields : Yields N null link l as) : 0 < l.count := by
  cases yields <;> assumption

theorem Yields.count_le (yields : Yields N null link l as) : l.count ≤ N := by
  cases yields <;> assumption

theorem Batch.Same.refl : l.Same N l := ⟨rfl, fun _ _ => rfl⟩

theorem Batch.Same.of_eq (same : l' = l) : l'.Same N l := same ▸ .refl

/-- What comes out of a stack is determined. -/
theorem Yields.unique (yields : Yields N null link l as) (yields' : Yields N null link l as') :
    as = as' := by
  induction yields generalizing as' with
  | done _ _ last =>
    cases yields' with
    | done => rfl
    | next _ _ first real _ => exact absurd (first.symm.trans last) real
  | next _ _ first real _ ih =>
    cases yields' with
    | done _ _ last => exact absurd (first.symm.trans last) real
    | next _ _ first' _ rest' => rw [← first, ← first', ih rest']

/-- Only the entries below the count matter, and only the cells that are popped. -/
theorem Yields.congr (yields : Yields N null link l as) (count : l'.count = l.count)
    (entry : ∀ i < l.count, l'.entry i = l.entry i) (links : ∀ b ∈ as, (link' b).Same N (link b)) :
    Yields N null link' l' as := by
  induction yields generalizing l' with
  | @done l some_left fits last =>
    refine .done (count ▸ some_left) (count ▸ fits) ?_
    rw [count, entry _ (by omega)]
    exact last
  | @next l a as some_left fits first real rest ih =>
    refine .next (count ▸ some_left) (count ▸ fits) ?_ real ?_
    · rw [count, entry _ (by omega)]
      exact first
    · have later : ∀ b ∈ as, (link' b).Same N (link b) := fun b member => links b (List.mem_cons_of_mem a member)
      by_cases one : l.count = 1
      · have top : l.entry 0 = a := by
          rw [one] at first
          exact first
        have down : l.pop link = link a := (if_pos one).trans (congrArg link top)
        have down' : l'.pop link' = link' a := by
          unfold Batch.pop
          rw [if_pos (count.trans one), entry 0 (by omega), top]
        have small := rest.count_le
        have same := links a List.mem_cons_self
        rw [down] at ih small
        rw [down']
        exact ih same.1 (fun i less => same.2 i (Nat.lt_of_lt_of_le less small)) later
      · have down : l.pop link = ⟨l.count - 1, l.entry⟩ := if_neg one
        have down' : l'.pop link' = ⟨l'.count - 1, l'.entry⟩ := if_neg (count ▸ one)
        rw [down] at ih
        rw [down']
        refine ih ?_ ?_ later
        · show l'.count - 1 = l.count - 1
          rw [count]
        · intro i less
          exact entry i (Nat.lt_of_lt_of_le less (Nat.sub_le _ _))

/-- An entry on top of others of its batch. -/
theorem Yields.above {n : Nat} {entry : Nat → α} (fits : n + 2 ≤ N) (first : entry (n + 1) = a) (real : a ≠ null)
    (rest : Yields N null link ⟨n + 1, entry⟩ as) : Yields N null link ⟨n + 2, entry⟩ (a :: as) := by
  refine .next (Nat.succ_pos _) fits first real ?_
  have down : Batch.pop link ⟨n + 2, entry⟩ = ⟨n + 1, entry⟩ := if_neg (by show n + 2 ≠ 1; omega)
  rw [down]
  exact rest

/-- Entries above the first matter only when the first batch has others. -/
theorem Yields.congr_below (yields : Yields N null link l (a :: as)) (more : l.count ≠ 1)
    (links : ∀ b ∈ as, (link' b).Same N (link b)) : Yields N null link' l (a :: as) := by
  cases yields with
  | next some_left fits first real rest =>
    refine .next some_left fits first real ?_
    unfold Batch.pop at rest ⊢
    rw [if_neg more] at rest ⊢
    exact rest.congr rfl (fun _ _ => rfl) links

end Popping

/-! ## Pushing -/

structure Stack (α : Type) where
  top : Batch α
  link : α → Batch α

section Pushing
variable [DecidableEq α] {N : Nat} {null : α} {s : Stack α} {a : α} {as : List α}

def Stack.push (N : Nat) (s : Stack α) (a : α) : Stack α :=
  if s.top.count = N then ⟨⟨1, put s.top.entry 0 a⟩, put s.link a s.top⟩
  else ⟨⟨s.top.count + 1, put s.top.entry s.top.count a⟩, s.link⟩

theorem push_yields (some_room : 0 < N) (yields : Yields N null s.link s.top as) (real : a ≠ null)
    (new : a ∉ as) : Yields N null (s.push N a).link (s.push N a).top (a :: as) := by
  have fits := yields.count_le
  unfold Stack.push
  by_cases full : s.top.count = N
  · rw [if_pos full]
    refine .next Nat.one_pos some_room (put_same s.top.entry 0 a) real ?_
    have down : (Batch.mk 1 (put s.top.entry 0 a)).pop (put s.link a s.top) = s.top := by
      unfold Batch.pop
      rw [if_pos rfl]
      dsimp only
      rw [put_same, put_same]
    rw [down]
    refine yields.congr rfl (fun _ _ => rfl) ?_
    intro b member
    exact .of_eq (put_ne _ _ (fun same => new (same ▸ member)))
  · have some_left := yields.count_pos
    rw [if_neg full]
    refine .next (Nat.succ_pos _) (by show s.top.count + 1 ≤ N; omega)
      (put_same s.top.entry s.top.count a) real ?_
    have down : (Batch.mk (s.top.count + 1) (put s.top.entry s.top.count a)).pop s.link =
        ⟨s.top.count, put s.top.entry s.top.count a⟩ := by
      unfold Batch.pop
      exact if_neg (by show s.top.count + 1 ≠ 1; omega)
    rw [down]
    refine yields.congr rfl ?_ (fun _ _ => .refl)
    intro i less
    exact put_ne _ _ (Nat.ne_of_lt less)

/-- The batches fill up one after the other. -/
theorem push_count {n : Nat} (some_room : 0 < N) (count : s.top.count = n % N + 1) :
    (s.push N a).top.count = (n + 1) % N + 1 := by
  have less := Nat.mod_lt n some_room
  have step : (n + 1) % N = if n % N + 1 = N then 0 else n % N + 1 := by
    rw [Nat.add_mod]
    split_ifs with last
    · by_cases one : N = 1
      · rw [one, Nat.mod_one]
      · rw [Nat.mod_eq_of_lt (a := 1) (by omega), last, Nat.mod_self]
    · rw [Nat.mod_eq_of_lt (a := 1) (by omega)]
      exact Nat.mod_eq_of_lt (by omega)
  unfold Stack.push
  rw [step, count]
  split_ifs <;> rfl

end Pushing

end Chain
