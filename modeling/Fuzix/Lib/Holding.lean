import Fuzix.Lib.Total

/-!
# Shared and exclusive locks in one number

Clients below `n` hold a lock shared or exclusive. The number that stands for
them is the count of the sharers, at most `most`, or `mark` for one exclusive
holder that nobody shares with.
-/

namespace Holding

open Table

inductive Kind where
  | shared
  | exclusive
deriving DecidableEq

def sharer (k : Option Kind) : Nat := if k = some .shared then 1 else 0

/-- How many of the clients share the lock. -/
def sharers (n : Nat) (f : Nat → Option Kind) : Nat := total n (fun k => sharer (f k))

/-- Client `k` holds the lock, and no other client does. -/
def Sole (n : Nat) (f : Nat → Option Kind) (k : Nat) : Prop :=
  k < n ∧ f k = some .exclusive ∧ ∀ j, j < n → j ≠ k → f j = none

/-- The number `c` stands for the holders. -/
def Encodes (most mark n : Nat) (f : Nat → Option Kind) (c : Nat) : Prop :=
  c ≤ most ∧ c = sharers n f ∧ (∀ k, k < n → f k ≠ some .exclusive) ∨
    c = mark ∧ ∃ k, Sole n f k

section Laws
variable {most mark n c k : Nat} {f g : Nat → Option Kind}

theorem Encodes.congr (same : ∀ k, k < n → g k = f k) (h : Encodes most mark n f c) :
    Encodes most mark n g c := by
  rcases h with ⟨bound, count, mild⟩ | ⟨marked, k, hk, sole, others⟩
  · have counts : sharers n g = sharers n f :=
      total_congr fun j hj => congrArg sharer (same j hj)
    exact Or.inl ⟨bound, counts ▸ count, fun j hj => same j hj ▸ mild j hj⟩
  · exact Or.inr ⟨marked, k, hk, (same k hk).trans sole,
      fun j hj other => (same j hj).trans (others j hj other)⟩

theorem sharers_put (hk : k < n) (v : Option Kind) :
    sharers n (put f k v) + sharer (f k) = sharers n f + sharer v := by
  have change := total_change (f := fun j => sharer (f j)) (g := fun j => sharer (put f k v j)) hk
    fun j _ other => by rw [put_ne _ _ other]
  rw [put_same] at change
  exact change

theorem free_of_none (h : ∀ k, k < n → f k = none) : Encodes most mark n f 0 := by
  have zero : sharers n f = 0 := by
    have same : sharers n f = total n (fun _ => 0) :=
      total_congr fun j hj => by rw [h j hj]; rfl
    rw [same, total_zero]
  refine Or.inl ⟨Nat.zero_le _, zero.symm, fun j hj no => ?_⟩
  rw [h j hj] at no
  cases no

theorem Encodes.zero_of_none (h : Encodes most mark n f c) (idle : ∀ k, k < n → f k = none) :
    c = 0 := by
  rcases h with ⟨_, count, _⟩ | ⟨_, k, hk, sole, _⟩
  · have same : sharers n f = total n (fun _ => 0) :=
      total_congr fun j hj => by rw [idle j hj]; rfl
    rw [same, total_zero] at count
    exact count
  · rw [idle k hk] at sole
    cases sole

/-- Nobody holds a lock whose number is zero. -/
theorem Encodes.none_of_zero (h : Encodes most mark n f 0) (gap : 0 < mark) (hk : k < n) :
    f k = none := by
  rcases h with ⟨_, count, mild⟩ | ⟨marked, _⟩
  · have le := le_total (f := fun j => sharer (f j)) hk
    have least : sharer (f k) ≤ sharers n f := le
    cases held : f k with
    | none => rfl
    | some kind =>
      cases kind with
      | shared =>
        rw [held] at least
        have one : sharer (some .shared) = 1 := rfl
        omega
      | exclusive => exact (mild k hk held).elim
  · omega

theorem Encodes.share (h : Encodes most mark n f c) (hk : k < n) (idle : f k = none)
    (room : c < most) (gap : most < mark) :
    Encodes most mark n (put f k (some .shared)) (c + 1) := by
  rcases h with ⟨_, count, mild⟩ | ⟨marked, _⟩
  · have change := sharers_put (f := f) hk (some .shared)
    rw [idle] at change
    have none_zero : sharer none = 0 := rfl
    have one : sharer (some .shared) = 1 := rfl
    refine Or.inl ⟨room, by omega, fun j hj => ?_⟩
    by_cases here : j = k
    · subst here
      rw [put_same]
      intro no
      cases no
    · rw [put_ne _ _ here]
      exact mild j hj
  · omega

theorem Encodes.seize (h : Encodes most mark n f 0) (hk : k < n) (gap : most < mark) :
    Encodes most mark n (put f k (some .exclusive)) mark := by
  refine Or.inr ⟨rfl, k, hk, put_same _ _ _, fun j hj other => ?_⟩
  rw [put_ne _ _ other]
  exact h.none_of_zero (by omega) hj

/-- What the number becomes when one holder lets go. -/
def lowered (mark c : Nat) : Nat := if c = mark then 0 else c - 1

theorem Encodes.release (h : Encodes most mark n f c) (hk : k < n) (held : f k ≠ none)
    (gap : most < mark) : Encodes most mark n (put f k none) (lowered mark c) := by
  unfold lowered
  rcases h with ⟨bound, count, mild⟩ | ⟨marked, o, ho, sole, others⟩
  · have shared : f k = some .shared := by
      cases kind : f k with
      | none => exact (held kind).elim
      | some x =>
        cases x with
        | shared => rfl
        | exclusive => exact (mild k hk kind).elim
    have change := sharers_put (f := f) hk none
    rw [shared] at change
    have none_zero : sharer none = 0 := rfl
    have one : sharer (some .shared) = 1 := rfl
    rw [if_neg (by omega)]
    refine Or.inl ⟨by omega, by omega, fun j hj => ?_⟩
    by_cases here : j = k
    · subst here
      rw [put_same]
      intro no
      cases no
    · rw [put_ne _ _ here]
      exact mild j hj
  · have me : k = o := by
      by_contra other
      exact held (others k hk other)
    subst me
    rw [if_pos marked]
    apply free_of_none
    intro j hj
    by_cases here : j = k
    · subst here
      exact put_same _ _ _
    · rw [put_ne _ _ here]
      exact others j hj here

/-- A sharer counts. -/
theorem Encodes.pos (h : Encodes most mark n f c) (gap : most < mark) (hk : k < n)
    (held : f k ≠ none) : 0 < c := by
  by_contra zero
  have none := Encodes.none_of_zero (k := k) (by rwa [show c = 0 by omega] at h) (by omega) hk
  exact held none

theorem Encodes.mark_iff (h : Encodes most mark n f c) (gap : most < mark) (hk : k < n)
    (held : f k ≠ none) : c = mark ↔ f k = some .exclusive := by
  rcases h with ⟨bound, _, mild⟩ | ⟨marked, o, _, sole, others⟩
  · constructor
    · intro no
      omega
    · intro no
      exact (mild k hk no).elim
  · have me : k = o := by
      by_contra away
      exact held (others k hk away)
    subst me
    exact iff_of_true marked sole

end Laws

end Holding
