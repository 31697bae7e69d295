import Mathlib.Tactic.Common

/-!
# Loops with fuel

A loop that may not end is a function of the rounds it may take. It returns what it gives with
all numbers of rounds from one on.
-/

namespace Fuel

variable {α β : Type} {f : Nat → Option α} {g : α → Nat → Option β} {x y : α} {z : β}

def Returns (f : Nat → Option α) (x : α) : Prop := ∃ least, ∀ fuel, least ≤ fuel → f fuel = some x

/-- More fuel does not change a result. -/
def Steady (f : Nat → Option α) : Prop := ∀ fuel x, f fuel = some x → f (fuel + 1) = some x

theorem Steady.more (steady : Steady f) {fuel more : Nat} (done : f fuel = some x) (enough : fuel ≤ more) :
    f more = some x := by
  induction enough with
  | refl => exact done
  | step _ ih => exact steady _ x ih

theorem Steady.returns (steady : Steady f) {fuel : Nat} (done : f fuel = some x) : Returns f x :=
  ⟨fuel, fun _ enough => steady.more done enough⟩

theorem Returns.unique (first : Returns f x) (second : Returns f y) : x = y := by
  obtain ⟨n, hn⟩ := first
  obtain ⟨m, hm⟩ := second
  have left := hn (max n m) (Nat.le_max_left n m)
  have right := hm (max n m) (Nat.le_max_right n m)
  exact Option.some.inj (left.symm.trans right)

theorem Returns.pure (x : α) : Returns (fun _ => some x) x := ⟨0, fun _ _ => rfl⟩

theorem Returns.bind (first : Returns f x) (second : Returns (g x) z) :
    Returns (fun fuel => (f fuel).bind fun x => g x fuel) z := by
  obtain ⟨n, hn⟩ := first
  obtain ⟨m, hm⟩ := second
  refine ⟨max n m, ?_⟩
  intro fuel enough
  show (f fuel).bind _ = _
  rw [hn fuel (Nat.le_trans (Nat.le_max_left n m) enough), Option.bind_some]
  exact hm fuel (Nat.le_trans (Nat.le_max_right n m) enough)

theorem Returns.map {h : α → β} (first : Returns f x) : Returns (fun fuel => (f fuel).map h) (h x) := by
  obtain ⟨n, hn⟩ := first
  refine ⟨n, ?_⟩
  intro fuel enough
  show (f fuel).map h = _
  rw [hn fuel enough, Option.map_some]

theorem Returns.shift (k : Nat) (later : Returns (fun fuel => f (fuel + k)) x) : Returns f x := by
  obtain ⟨n, hn⟩ := later
  refine ⟨n + k, ?_⟩
  intro fuel enough
  have back : fuel - k + k = fuel := by omega
  rw [← back]
  exact hn (fuel - k) (by omega)

theorem Steady.pure (x : α) : Steady (fun _ => some x) := fun _ _ done => done

theorem Steady.bind (first : Steady f) (second : ∀ x, Steady (g x)) :
    Steady (fun fuel => (f fuel).bind fun x => g x fuel) := by
  intro fuel z done
  obtain ⟨x, before, after⟩ := Option.bind_eq_some_iff.mp done
  exact Option.bind_eq_some_iff.mpr ⟨x, first fuel x before, second x fuel z after⟩

theorem Steady.map {h : α → β} (first : Steady f) : Steady (fun fuel => (f fuel).map h) := by
  intro fuel z done
  obtain ⟨x, before, after⟩ := Option.map_eq_some_iff.mp done
  exact Option.map_eq_some_iff.mpr ⟨x, first fuel x before, after⟩

theorem Steady.ite {c : Prop} [Decidable c] {g : Nat → Option α} (yes : Steady f) (no : Steady g) :
    Steady (fun fuel => if c then f fuel else g fuel) := by
  by_cases hc : c
  · simpa only [if_pos hc] using yes
  · simpa only [if_neg hc] using no

end Fuel
