import Mathlib.Tactic.Common

/-!
# Regions of a cyclic address space

A region is a first address and a length, counted modulo `N`. It may run past the
last address and go on at zero.
-/

namespace Cyclic

structure Region where
  start : Nat
  len : Nat
deriving DecidableEq

/-- Address `a` belongs to the region. -/
def Region.has (N : Nat) (r : Region) (a : Nat) : Prop := ∃ j, j < r.len ∧ a = (r.start + j) % N

/-- Every address of the region lies in `[lo, hi)`. -/
def Region.inside (N : Nat) (r : Region) (lo hi : Nat) : Prop := ∀ a, r.has N a → lo ≤ a ∧ a < hi

def Region.apart (N : Nat) (r q : Region) : Prop := ∀ a, r.has N a → ¬ q.has N a

section Laws
variable {N : Nat} {r q : Region} {lo hi a : Nat}

theorem not_has_empty (s : Nat) : ¬ Region.has N ⟨s, 0⟩ a := by
  rintro ⟨j, hj, _⟩
  exact absurd hj (Nat.not_lt_zero j)

/-- Two regions, one right after the other. -/
theorem has_append (s m n : Nat) :
    Region.has N ⟨s, m + n⟩ a ↔ Region.has N ⟨s, m⟩ a ∨ Region.has N ⟨s + m, n⟩ a := by
  constructor
  · rintro ⟨j, hj, here⟩
    have hj' : j < m + n := hj
    by_cases first : j < m
    · exact Or.inl ⟨j, first, here⟩
    · refine Or.inr ⟨j - m, ?_, ?_⟩
      · show j - m < n
        omega
      · rw [here]
        show (s + j) % N = (s + m + (j - m)) % N
        congr 1
        omega
  · rintro (⟨j, hj, here⟩ | ⟨j, hj, here⟩)
    · have hj' : j < m := hj
      exact ⟨j, by show j < m + n; omega, here⟩
    · have hj' : j < n := hj
      refine ⟨m + j, by show m + j < m + n; omega, ?_⟩
      rw [here]
      show (s + m + j) % N = (s + (m + j)) % N
      rw [Nat.add_assoc]

/-- Only the first address counts modulo `N`. -/
theorem has_mod (s n : Nat) : Region.has N ⟨s % N, n⟩ a ↔ Region.has N ⟨s, n⟩ a := by
  have same : ∀ j, (s % N + j) % N = (s + j) % N := fun j => Nat.mod_add_mod s N j
  constructor
  · rintro ⟨j, hj, here⟩
    exact ⟨j, hj, here.trans (same j)⟩
  · rintro ⟨j, hj, here⟩
    exact ⟨j, hj, here.trans (same j).symm⟩

/-- A region that keeps off the last address does not wrap. -/
theorem inside_iff (some_left : 0 < r.len) (start : r.start < N) (top : hi < N) :
    r.inside N lo hi ↔ lo ≤ r.start ∧ r.start + r.len ≤ hi := by
  constructor
  · intro inside
    have begins := inside r.start ⟨0, some_left, (Nat.mod_eq_of_lt start).symm⟩
    refine ⟨begins.1, ?_⟩
    by_contra long
    have reach : r.start + (hi - r.start) = hi := by omega
    have past := inside hi ⟨hi - r.start, by omega, by rw [reach, Nat.mod_eq_of_lt top]⟩
    omega
  · rintro ⟨low, high⟩ a ⟨j, hj, here⟩
    have small : (r.start + j) % N = r.start + j := Nat.mod_eq_of_lt (by omega)
    omega

/-- The same for a region that is reached from the first address of the bounds. -/
theorem inside_from_iff {base size s n : Nat} (some_left : 0 < n) (offset : s < N)
    (top : base + size < N) :
    Region.inside N ⟨(base + s) % N, n⟩ base (base + size) ↔ s + n ≤ size := by
  rw [inside_iff some_left (Nat.mod_lt _ (by omega)) top]
  dsimp only
  by_cases wraps : base + s < N
  · rw [Nat.mod_eq_of_lt wraps]
    omega
  · have start : (base + s) % N = base + s - N := by
      rw [Nat.mod_eq_sub_mod (by omega), Nat.mod_eq_of_lt (by omega)]
    omega

theorem inside_empty {s : Nat} : Region.inside N ⟨s, 0⟩ lo hi :=
  fun _ here => absurd here (not_has_empty s)

theorem apart_iff (some_left : 0 < r.len) (other : 0 < q.len) (fits : r.start + r.len ≤ N)
    (fits' : q.start + q.len ≤ N) :
    r.apart N q ↔ r.start + r.len ≤ q.start ∨ q.start + q.len ≤ r.start := by
  constructor
  · intro apart
    by_contra meet
    by_cases first : r.start ≤ q.start
    · refine apart q.start ⟨q.start - r.start, by omega, ?_⟩ ⟨0, other, ?_⟩
      · rw [Nat.mod_eq_of_lt (by omega)]
        omega
      · exact (Nat.mod_eq_of_lt (by omega)).symm
    · refine apart r.start ⟨0, some_left, ?_⟩ ⟨r.start - q.start, by omega, ?_⟩
      · exact (Nat.mod_eq_of_lt (by omega)).symm
      · rw [Nat.mod_eq_of_lt (by omega)]
        omega
  · rintro order a ⟨j, hj, here⟩ ⟨i, hi, there⟩
    rw [Nat.mod_eq_of_lt (by omega)] at here there
    omega

end Laws

end Cyclic
