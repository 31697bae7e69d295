import Fuzix.Lib.Total

/-!
# Pools

A pool of things that are free or held, and an array that keeps the free ones in a pile.
The pool is shared out when each thing is in as many places as it is in the pool.
-/

namespace Pool

open Table

variable {α : Type}

/-! ## Piles -/

/-- The first `n` cells, the last one on top. -/
def pile (cells : Nat → α) (n : Nat) : List α := (List.range n).map cells

theorem pile_length (cells : Nat → α) (n : Nat) : (pile cells n).length = n := by
  simp [pile]

theorem pile_succ (cells : Nat → α) (n : Nat) : pile cells (n + 1) = pile cells n ++ [cells n] := by
  simp [pile, List.range_succ]

theorem pile_congr {cells cells' : Nat → α} {n : Nat} (same : ∀ k < n, cells' k = cells k) :
    pile cells' n = pile cells n := by
  apply List.map_congr_left
  intro k member
  exact same k (List.mem_range.mp member)

/-- A push. -/
theorem pile_put (cells : Nat → α) (n : Nat) (a : α) :
    pile (put cells n a) (n + 1) = pile cells n ++ [a] := by
  have below : pile (put cells n a) n = pile cells n := by
    apply pile_congr
    intro k less
    exact put_ne _ _ (Nat.ne_of_lt less)
  rw [pile_succ, below, put_same]

/-- A pop. -/
theorem pile_pop (cells : Nat → α) {n : Nat} (some : 0 < n) :
    pile cells n = pile cells (n - 1) ++ [cells (n - 1)] := by
  have next : n - 1 + 1 = n := by omega
  rw [← pile_succ, next]

/-- Some pops. -/
theorem pile_take [DecidableEq α] (cells : Nat → α) {n k : Nat} (enough : k ≤ n) (x : α) :
    (pile cells n).count x =
      (pile cells (n - k)).count x + ((List.range k).map (fun j => cells (n - 1 - j))).count x := by
  induction k with
  | zero => rfl
  | succ k ih =>
    have next : n - (k + 1) = n - k - 1 := by omega
    have top : n - 1 - k = n - k - 1 := by omega
    rw [ih (by omega), pile_pop cells (by omega : 0 < n - k), List.range_succ, List.map_append, List.count_append,
      List.count_append, next, List.map_singleton, top]
    omega

theorem mem_pile {cells : Nat → α} {n k : Nat} (less : k < n) : cells k ∈ pile cells n :=
  List.mem_map.mpr ⟨k, List.mem_range.mpr less, rfl⟩

/-! ## Sharing out -/

section Shared
variable [DecidableEq α] {pool free free' : List α} {n : Nat} {held held' : Nat → List α}

/-- Each thing of the pool is free or with one of the `n` holders. -/
def Shared (pool free : List α) (n : Nat) (held : Nat → List α) : Prop :=
  ∀ x, free.count x + total n (fun k => (held k).count x) = pool.count x

theorem shared_iff_perm :
    Shared pool free n held ↔ (free ++ (List.range n).flatMap held).Perm pool := by
  rw [List.perm_iff_count]
  unfold Shared
  simp only [List.count_append, count_table]

theorem Shared.length (shared : Shared pool free n held) :
    free.length + total n (fun k => (held k).length) = pool.length := by
  have length := (shared_iff_perm.mp shared).length_eq
  rw [List.length_append, length_table] at length
  exact length

theorem shared_add (shared : Shared pool free n held) (a : α) :
    Shared (pool ++ [a]) (free ++ [a]) n held := by
  intro x
  have before := shared x
  rw [List.count_append, List.count_append]
  omega

/-- Things move between the free ones and holder `k`. -/
theorem Shared.move (shared : Shared pool free n held) {k : Nat} (hk : k < n)
    (others : ∀ j, j ≠ k → held' j = held j)
    (same : ∀ x, free'.count x + (held' k).count x = free.count x + (held k).count x) :
    Shared pool free' n held' := by
  intro x
  have before := shared x
  have change := total_change (f := fun j => (held j).count x) (g := fun j => (held' j).count x) hk
    (fun j _ other => by
      rw [others j other])
  have here := same x
  omega

theorem Shared.congr (shared : Shared pool free n held) (same : ∀ k, held' k = held k) :
    Shared pool free n held' := by
  have equal : held' = held := funext same
  rw [equal]
  exact shared

variable {k : Nat} {x : α}

theorem Shared.count_le (shared : Shared pool free n held) (unique : pool.Nodup) (x : α) :
    free.count x + total n (fun k => (held k).count x) ≤ 1 := by
  rw [shared x]
  exact List.nodup_iff_count_le_one.mp unique x

/-- A holder has what is not free. -/
theorem Shared.not_free (shared : Shared pool free n held) (unique : pool.Nodup) (hk : k < n)
    (there : x ∈ held k) : x ∉ free := by
  intro here
  have most := shared.count_le unique x
  have part := le_total (f := fun k => (held k).count x) hk
  have one := List.count_pos_iff.mpr there
  have two := List.count_pos_iff.mpr here
  omega

theorem Shared.free_mem (shared : Shared pool free n held) (here : x ∈ free) : x ∈ pool := by
  have some := List.count_pos_iff.mpr here
  have equal := shared x
  apply List.count_pos_iff.mp
  omega

end Shared

end Pool
