import Mathlib.Algebra.Order.BigOperators.Group.Finset
import Fuzix.Lib.Table

/-!
# Totals over a table

`total n f` adds up the first `n` entries of a table of numbers. Storing into
one entry changes the total by the difference at that entry.
-/

namespace Table

open Finset

def total (n : Nat) (f : Nat → Nat) : Nat := ∑ k ∈ range n, f k

@[simp] theorem total_none (f : Nat → Nat) : total 0 f = 0 := rfl

theorem total_succ (n : Nat) (f : Nat → Nat) : total (n + 1) f = total n f + f n :=
  sum_range_succ f n

theorem total_congr {n : Nat} {f g : Nat → Nat} (h : ∀ k, k < n → f k = g k) :
    total n f = total n g :=
  sum_congr rfl (fun k hk => h k (mem_range.mp hk))

@[simp] theorem total_zero (n : Nat) : total n (fun _ => 0) = 0 := by
  simp [total]

theorem total_change {n k : Nat} {f g : Nat → Nat} (hk : k < n)
    (same : ∀ j, j < n → j ≠ k → g j = f j) :
    total n g + f k = total n f + g k := by
  have hk' : k ∈ range n := mem_range.mpr hk
  have left := add_sum_erase (range n) f hk'
  have right := add_sum_erase (range n) g hk'
  have rest : ∑ j ∈ (range n).erase k, g j = ∑ j ∈ (range n).erase k, f j :=
    sum_congr rfl (fun j hj =>
      same j (mem_range.mp (mem_of_mem_erase hj)) (ne_of_mem_erase hj))
  unfold total
  omega

theorem total_add (n : Nat) (f g : Nat → Nat) :
    total n (fun k => f k + g k) = total n f + total n g := sum_add_distrib

/-- One entry only. -/
theorem total_single {n k : Nat} (hk : k < n) (c : Nat) :
    total n (fun j => if j = k then c else 0) = c := by
  have change := total_change (f := fun _ => 0) (g := fun j => if j = k then c else 0) hk
    (fun j _ other => if_neg other)
  have here : (if k = k then c else 0) = c := if_pos rfl
  rw [total_zero] at change
  omega

theorem total_le {n m : Nat} {f : Nat → Nat} (h : ∀ k, k < n → f k ≤ m) :
    total n f ≤ n * m :=
  calc ∑ k ∈ range n, f k ≤ ∑ _k ∈ range n, m :=
        sum_le_sum (fun k hk => h k (mem_range.mp hk))
    _ = n * m := by simp

theorem le_total {n k : Nat} {f : Nat → Nat} (hk : k < n) : f k ≤ total n f :=
  single_le_sum (fun _ _ => Nat.zero_le _) (mem_range.mpr hk)

/-! ## Tables of lists -/

section Lists
variable {α : Type}

theorem count_table [DecidableEq α] (n : Nat) (f : Nat → List α) (x : α) :
    ((List.range n).flatMap f).count x = total n (fun k => (f k).count x) := by
  induction n with
  | zero => rfl
  | succ n ih => simp [List.range_succ, total_succ, ih]

theorem length_table (n : Nat) (f : Nat → List α) :
    ((List.range n).flatMap f).length = total n (fun k => (f k).length) := by
  induction n with
  | zero => rfl
  | succ n ih => simp [List.range_succ, total_succ, ih]

end Lists

end Table
