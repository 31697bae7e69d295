import Fuzix.Lib.Wp

/-!
# Loops with a counter that wraps

A `for` loop over a counter of a fixed size, whose body changes a state, hands a value on and
may stop. A loop that has used up its fuel stops with a reason of its own, so that a loop ends if
it does not stop for that reason with enough fuel.
-/

namespace Counter

open Wp

variable {σ ε α : Type}

/-- `for (; test i; i = next i)`, for at most so many rounds. -/
def count (spent : ε) (test : Nat → Bool) (next : Nat → Nat) (body : Nat → α → StateT σ (Except ε) α) :
    Nat → Nat → α → StateT σ (Except ε) α
  | 0, _, _ => throw spent
  | fuel + 1, i, a =>
    if test i then do
      let a ← body i a
      count spent test next body fuel (next i) a
    else return a

/-- The next value of a counter of `size` values, up or down. -/
def up (size i : Nat) : Nat := (i + 1) % size

def down (size i : Nat) : Nat := (i + (size - 1)) % size

variable {spent : ε} {stop : ε → Prop} {body : Nat → α → StateT σ (Except ε) α} {size bound fuel i : Nat}
  {a : α} {s : σ}

/-- A loop up to a bound that the counter can reach ends within as many rounds. -/
theorem wp_up {I : Nat → α → σ → Prop} (reach : bound < size) (enough : bound < i + fuel)
    (low : i ≤ bound) (start : I i a s)
    (round : ∀ i a s, i < bound → I i a s → wp stop (body i a) (fun a t => I (i + 1) a t) s) :
    wp stop (count spent (fun i => decide (i < bound)) (up size) body fuel i a) (fun a t => I bound a t) s := by
  induction fuel generalizing i a s with
  | zero => omega
  | succ fuel ih =>
    unfold count
    by_cases more : i < bound
    · have next : up size i = i + 1 := Nat.mod_eq_of_lt (by omega)
      rw [if_pos (decide_eq_true more), wp_bind, next]
      refine wp_mono (round i a s more start) ?_
      intro b t kept
      exact ih (by omega) (by omega) kept
    · have done : i = bound := by omega
      subst done
      rw [if_neg (by simp)]
      exact start

/-- A loop down to a bound above zero ends. -/
theorem wp_down {I : Nat → α → σ → Prop} (positive : 0 < bound) (inside : i < size) (enough : i + 1 < bound + fuel)
    (some : 0 < fuel) (start : I i a s)
    (round : ∀ i a s, bound ≤ i → i < size → I i a s → wp stop (body i a) (fun a t => I (i - 1) a t) s) :
    wp stop (count spent (fun i => decide (bound ≤ i)) (down size) body fuel i a)
      (fun a t => ∃ j < bound, I j a t) s := by
  induction fuel generalizing i a s with
  | zero => omega
  | succ fuel ih =>
    unfold count
    by_cases more : bound ≤ i
    · have next : down size i = i - 1 := by
        have sum : i + (size - 1) = i - 1 + size := by omega
        have less : i - 1 < size := by omega
        unfold down
        rw [sum, Nat.add_mod_right]
        exact Nat.mod_eq_of_lt less
      rw [if_pos (decide_eq_true more), wp_bind, next]
      refine wp_mono (round i a s more inside start) ?_
      intro b t kept
      exact ih (by omega) (by omega) (by omega) kept
    · rw [if_neg (by simpa using more)]
      exact ⟨i, by omega, start⟩

/-- What every round keeps holds after the loop, however many rounds there are. -/
theorem wp_count {test : Nat → Bool} {next : Nat → Nat} {I : α → σ → Prop} (lost : stop spent) (start : I a s)
    (round : ∀ i a s, I a s → wp stop (body i a) I s) : wp stop (count spent test next body fuel i a) I s := by
  induction fuel generalizing i a s with
  | zero => exact lost
  | succ fuel ih =>
    unfold count
    by_cases more : test i = true
    · rw [if_pos more, wp_bind]
      exact wp_mono (round i a s start) fun b t kept => ih kept
    · rw [if_neg more]
      exact start

/-- A loop whose test the counter cannot fail does not return. -/
theorem wp_endless {test : Nat → Bool} {next : Nat → Nat} (stays : ∀ i, i < size → next i < size)
    (always : ∀ i, i < size → test i = true) (inside : i < size) :
    wp (fun _ => True) (count spent test next body fuel i a) (fun _ _ => False) s := by
  induction fuel generalizing i a s with
  | zero => exact True.intro
  | succ fuel ih =>
    unfold count
    rw [if_pos (always i inside), wp_bind]
    refine wp_mono (wp_any fun _ _ => True.intro) ?_
    intro b t _
    exact ih (stays i inside)

/-- It does not stop for another reason either if its body only returns. -/
theorem endless_spent {test : Nat → Bool} {next : Nat → Nat} {I : Nat → α → σ → Prop}
    (always : ∀ i a s, I i a s → test i = true) (start : I i a s)
    (round : ∀ i a s, I i a s → wp (fun _ => False) (body i a) (fun a t => I (next i) a t) s) :
    count spent test next body fuel i a s = .error spent := by
  induction fuel generalizing i a s with
  | zero => rfl
  | succ fuel ih =>
    unfold count
    rw [if_pos (always i a s start)]
    obtain ⟨b, t, run, kept⟩ := wp_returns (round i a s start)
    rw [bind_run run]
    exact ih kept

/-! ## More fuel -/

/-- Where `m` does not stop for want of fuel, `m'` does the same. -/
def Settles (hang : ε → Prop) (m m' : StateT σ (Except ε) α) : Prop :=
  ∀ s, (∀ e, m s = .error e → ¬ hang e) → m' s = m s

section
variable {β : Type} {hang : ε → Prop}

theorem Settles.refl (m : StateT σ (Except ε) α) : Settles hang m m := fun _ _ => rfl

theorem Settles.bind {m m' : StateT σ (Except ε) α} {f f' : α → StateT σ (Except ε) β}
    (first : Settles hang m m') (rest : ∀ a, Settles hang (f a) (f' a)) :
    Settles hang (m >>= f) (m' >>= f') := by
  intro s settled
  have same : m' s = m s := first s fun e stopped => settled e (bind_stop stopped)
  cases run : m s with
  | error e => rw [bind_stop run, bind_stop (same.trans run)]
  | ok p =>
    obtain ⟨a, t⟩ := p
    rw [bind_run run, bind_run (same.trans run)]
    exact rest a t fun e stopped => settled e ((bind_run run).trans stopped)

theorem Settles.ite {c : Prop} [Decidable c] {m m' n n' : StateT σ (Except ε) α}
    (yes : Settles hang m m') (no : Settles hang n n') :
    Settles hang (if c then m else n) (if c then m' else n') := by
  by_cases hc : c
  · rw [if_pos hc, if_pos hc]
    exact yes
  · rw [if_neg hc, if_neg hc]
    exact no

theorem Settles.discard {m m' : StateT σ (Except ε) α} (same : Settles hang m m') :
    Settles hang (Functor.discard m) (Functor.discard m') := by
  intro s settled
  have split : ∀ m : StateT σ (Except ε) α,
      Functor.discard m s = (m s >>= fun p => (Except.ok (PUnit.unit, p.2) : Except ε (PUnit × σ))) := fun _ => rfl
  have first : m' s = m s := by
    apply same
    intro e stopped
    exact settled e (by rw [split, stopped]; rfl)
  rw [split, split, first]

/-- A program that has run out of fuel has not settled. -/
theorem Settles.throw {e : ε} (spent : hang e) (m : StateT σ (Except ε) α) : Settles hang (throw e) m :=
  fun _ settled => absurd spent (settled e rfl)

theorem Settles.count {test : Nat → Bool} {next : Nat → Nat} {body body' : Nat → α → StateT σ (Except ε) α}
    {fuel fuel' : Nat} (lost : hang spent) (more : fuel ≤ fuel') (round : ∀ i a, Settles hang (body i a) (body' i a))
    (i : Nat) (a : α) :
    Settles hang (count spent test next body fuel i a) (count spent test next body' fuel' i a) := by
  induction fuel generalizing fuel' i a with
  | zero => exact Settles.throw lost _
  | succ fuel ih =>
    obtain ⟨rest, rfl⟩ : ∃ rest, fuel' = rest + 1 := ⟨fuel' - 1, by omega⟩
    unfold Counter.count
    exact Settles.ite (Settles.bind (round i a) fun b => ih (by omega) (next i) b) (Settles.refl _)

end

end Counter
