import Mathlib.Data.Finset.Max
import Mathlib.Dynamics.PeriodicPts.Defs

/-!
# Ordered cycles

The elements of a finite set in their order, with the least one after the greatest. A function
that gives each element its successor runs through all of them.
-/

namespace Cycle

variable {α : Type} [LinearOrder α] {F : Finset α} {next next' : α → α} {a b p x : α}

/-- `b` follows `a`: nothing is between them, or they are the least and the greatest. -/
def Next (F : Finset α) (a b : α) : Prop :=
  (a < b ∧ ∀ c ∈ F, c ≤ a ∨ b ≤ c) ∨ (b ≤ a ∧ ∀ c ∈ F, b ≤ c ∧ c ≤ a)

structure IsCycle (F : Finset α) (next : α → α) : Prop where
  mem : ∀ a ∈ F, next a ∈ F
  next : ∀ a ∈ F, Next F a (next a)

/-- `p` is the last element before `x`. -/
structure Before (F : Finset α) (p x : α) : Prop where
  mem : p ∈ F
  less : p < x
  last : ∀ c ∈ F, c ≤ p ∨ x < c

theorem exists_before (mem : a ∈ F) (less : a < x) (new : x ∉ F) : ∃ p, Before F p x := by
  have some : (F.filter (· < x)).Nonempty := ⟨a, Finset.mem_filter.mpr ⟨mem, less⟩⟩
  obtain ⟨inside, below⟩ := Finset.mem_filter.mp (Finset.max'_mem _ some)
  refine ⟨(F.filter (· < x)).max' some, inside, below, ?_⟩
  intro c member
  rcases lt_trichotomy c x with before | same | after
  · exact Or.inl (Finset.le_max' _ _ (Finset.mem_filter.mpr ⟨member, before⟩))
  · exact absurd (same ▸ member) new
  · exact Or.inr after

/-- An element has one predecessor. -/
theorem Next.unique (first : Next F a x) (second : Next F b x) (ha : a ∈ F) (hb : b ∈ F) : a = b := by
  rcases first with ⟨less, none⟩ | ⟨wraps, all⟩
  · rcases second with ⟨less', none'⟩ | ⟨_, all'⟩
    · rcases none b hb with low | high
      · rcases none' a ha with low' | high'
        · exact le_antisymm low' low
        · exact absurd less (not_lt_of_ge high')
      · exact absurd less' (not_lt_of_ge high)
    · exact absurd less (not_lt_of_ge (all' a ha).1)
  · rcases second with ⟨less', _⟩ | ⟨_, all'⟩
    · exact absurd less' (not_lt_of_ge (all b hb).1)
    · exact le_antisymm (all' a ha).2 (all b hb).2

theorem Next.mono {G : Finset α} (h : Next F a b) (sub : G ⊆ F) : Next G a b := by
  rcases h with ⟨less, none⟩ | ⟨wraps, all⟩
  · exact Or.inl ⟨less, fun c member => none c (sub member)⟩
  · exact Or.inr ⟨wraps, fun c member => all c (sub member)⟩

theorem IsCycle.congr (cycle : IsCycle F next) (same : ∀ a ∈ F, next' a = next a) : IsCycle F next' := by
  constructor
  · intro a member
    rw [same a member]
    exact cycle.mem a member
  · intro a member
    rw [same a member]
    exact cycle.next a member

theorem Before.unique {q : α} (first : Before F p x) (second : Before F q x) : p = q := by
  rcases first.last q second.mem with low | high
  · rcases second.last p first.mem with low' | high'
    · exact le_antisymm low' low
    · exact absurd first.less (not_lt_of_gt high')
  · exact absurd second.less (not_lt_of_gt high)

/-- A new element is put after the last one before it. -/
theorem IsCycle.insert (cycle : IsCycle F next) (before : Before F p x) (link : next' p = x)
    (on : next' x = next p) (others : ∀ a ∈ F, a ≠ p → next' a = next a) : IsCycle (insert x F) next' := by
  have after : x < next p ∨ next p ≤ p := by
    rcases before.last (next p) (cycle.mem p before.mem) with low | high
    · exact Or.inr low
    · exact Or.inl high
  constructor
  · intro a member
    rcases Finset.mem_insert.mp member with same | old
    · rw [same, on]
      exact Finset.mem_insert_of_mem (cycle.mem p before.mem)
    · by_cases here : a = p
      · rw [here, link]
        exact Finset.mem_insert_self x F
      · rw [others a old here]
        exact Finset.mem_insert_of_mem (cycle.mem a old)
  · intro a member
    rcases Finset.mem_insert.mp member with same | old
    · rw [same, on]
      rcases cycle.next p before.mem with ⟨less, none⟩ | ⟨wraps, all⟩
      · left
        have high : x < next p := after.resolve_right (not_le_of_gt less)
        refine ⟨high, ?_⟩
        intro c member
        rcases Finset.mem_insert.mp member with same | old
        · exact Or.inl same.le
        · rcases none c old with low | up
          · exact Or.inl (low.trans before.less.le)
          · exact Or.inr up
      · right
        have low : next p ≤ x := wraps.trans before.less.le
        refine ⟨low, ?_⟩
        intro c member
        rcases Finset.mem_insert.mp member with same | old
        · rw [same]
          exact ⟨low, le_rfl⟩
        · exact ⟨(all c old).1, (all c old).2.trans before.less.le⟩
    · by_cases here : a = p
      · rw [here, link]
        left
        refine ⟨before.less, ?_⟩
        intro c member
        rcases Finset.mem_insert.mp member with same | old
        · exact Or.inr same.ge
        · rcases before.last c old with low | high
          · exact Or.inl low
          · exact Or.inr high.le
      · rw [others a old here]
        have side : a < p ∨ x < a := by
          rcases before.last a old with low | high
          · exact Or.inl (lt_of_le_of_ne low here)
          · exact Or.inr high
        rcases cycle.next a old with ⟨less, none⟩ | ⟨wraps, all⟩
        · left
          refine ⟨less, ?_⟩
          intro c member
          rcases Finset.mem_insert.mp member with same | old'
          · rw [same]
            rcases side with low | high
            · right
              rcases none p before.mem with no | up
              · exact absurd low (not_lt_of_ge no)
              · exact up.trans before.less.le
            · exact Or.inl high.le
          · exact none c old'
        · right
          refine ⟨wraps, ?_⟩
          intro c member
          rcases Finset.mem_insert.mp member with same | old'
          · rw [same]
            have high : x < a := side.resolve_left (not_lt_of_ge (all p before.mem).2)
            exact ⟨(all p before.mem).1.trans before.less.le, high.le⟩
          · exact all c old'

/-- An element is taken out, and its predecessor gets its successor. -/
theorem IsCycle.erase (cycle : IsCycle F next) (mem : p ∈ F) (link : next p = x) (other : x ≠ p)
    (on : next' p = next x) (others : ∀ a ∈ F, a ≠ p → a ≠ x → next' a = next a) : IsCycle (F.erase x) next' := by
  have inside : x ∈ F := link ▸ cycle.mem p mem
  have first : Next F p x := link ▸ cycle.next p mem
  have second : Next F x (next x) := cycle.next x inside
  have moves : next x ≠ x := by
    intro same
    rw [same] at second
    rcases second with ⟨less, _⟩ | ⟨_, all⟩
    · exact lt_irrefl x less
    · exact other (le_antisymm (all p mem).1 (all p mem).2)
  constructor
  · intro a member
    obtain ⟨notX, old⟩ := Finset.mem_erase.mp member
    by_cases here : a = p
    · rw [here, on]
      exact Finset.mem_erase.mpr ⟨moves, cycle.mem x inside⟩
    · rw [others a old here notX]
      refine Finset.mem_erase.mpr ⟨?_, cycle.mem a old⟩
      intro same
      exact here ((same ▸ cycle.next a old).unique first old mem)
  · intro a member
    obtain ⟨notX, old⟩ := Finset.mem_erase.mp member
    by_cases here : a = p
    · rw [here, on]
      rcases first with ⟨less, none⟩ | ⟨wraps, all⟩
      · rcases second with ⟨less', none'⟩ | ⟨_, all'⟩
        · left
          refine ⟨less.trans less', ?_⟩
          intro c member
          obtain ⟨notX, old⟩ := Finset.mem_erase.mp member
          rcases none c old with low | high
          · exact Or.inl low
          · rcases none' c old with low' | high'
            · exact absurd (le_antisymm low' high) notX
            · exact Or.inr high'
        · right
          refine ⟨(all' p mem).1, ?_⟩
          intro c member
          obtain ⟨notX, old⟩ := Finset.mem_erase.mp member
          rcases none c old with low | high
          · exact ⟨(all' c old).1, low⟩
          · exact absurd (le_antisymm (all' c old).2 high) notX
      · rcases second with ⟨less', none'⟩ | ⟨_, all'⟩
        · right
          refine ⟨(all _ (cycle.mem x inside)).2, ?_⟩
          intro c member
          obtain ⟨notX, old⟩ := Finset.mem_erase.mp member
          rcases none' c old with low' | high'
          · exact absurd (le_antisymm low' (all c old).1) notX
          · exact ⟨high', (all c old).2⟩
        · exact absurd (le_antisymm wraps (all' p mem).2) other
    · rw [others a old here notX]
      exact (cycle.next a old).mono (Finset.erase_subset x F)

/-! ## The orbit -/

theorem IsCycle.iterate_mem (cycle : IsCycle F next) (mem : a ∈ F) (k : Nat) : next^[k] a ∈ F := by
  induction k with
  | zero => exact mem
  | succ k ih =>
    rw [Function.iterate_succ_apply']
    exact cycle.mem _ ih

/-- How many elements are left to an ascent from `a` to `b`. -/
theorem IsCycle.ascends (cycle : IsCycle F next) (ha : a ∈ F) (hb : b ∈ F) (low : a ≤ b) :
    ∃ k, next^[k] a = b := by
  generalize size : (F.filter fun c => a < c ∧ c ≤ b).card = n
  induction n using Nat.strong_induction_on generalizing a with
  | _ n ih =>
    rcases eq_or_lt_of_le low with same | less
    · exact ⟨0, same⟩
    · rcases cycle.next a ha with ⟨up, none⟩ | ⟨_, all⟩
      · have below : next a ≤ b := (none b hb).resolve_left (not_le_of_gt less)
        have fewer : (F.filter fun c => next a < c ∧ c ≤ b).card < n := by
          rw [← size]
          refine Finset.card_lt_card ⟨?_, ?_⟩
          · intro c member
            obtain ⟨old, high, cap⟩ := Finset.mem_filter.mp member
            exact Finset.mem_filter.mpr ⟨old, up.trans high, cap⟩
          · intro sub
            have member := sub (Finset.mem_filter.mpr ⟨cycle.mem a ha, up, below⟩)
            exact lt_irrefl _ (Finset.mem_filter.mp member).2.1
        obtain ⟨k, reached⟩ := ih _ fewer (cycle.mem a ha) below rfl
        exact ⟨k + 1, reached⟩
      · exact absurd less (not_lt_of_ge (all b hb).2)

/-- From every element the cycle comes to every other. -/
theorem IsCycle.orbit (cycle : IsCycle F next) (ha : a ∈ F) (hb : b ∈ F) : ∃ k, next^[k] a = b := by
  have some : F.Nonempty := ⟨a, ha⟩
  have top := F.max'_mem some
  obtain ⟨i, high⟩ := cycle.ascends ha top (F.le_max' a ha)
  have least : next (F.max' some) ≤ b := by
    rcases cycle.next _ top with ⟨up, _⟩ | ⟨_, all⟩
    · exact absurd up (not_lt_of_ge (F.le_max' _ (cycle.mem _ top)))
    · exact (all b hb).1
  obtain ⟨k, reached⟩ := cycle.ascends (cycle.mem _ top) hb least
  refine ⟨k + 1 + i, ?_⟩
  rw [Function.iterate_add_apply, high, Function.iterate_succ_apply]
  exact reached

/-- An orbit that is back where it began has met all. -/
theorem IsCycle.covers (cycle : IsCycle F next) (ha : a ∈ F) {k : Nat} (back : next^[k] (next a) = a) (hb : b ∈ F) :
    ∃ j, j ≤ k ∧ next^[j] (next a) = b := by
  have periodic : Function.IsPeriodicPt next (k + 1) (next a) := by
    change next^[k + 1] (next a) = next a
    rw [Function.iterate_succ_apply', back]
  obtain ⟨i, reached⟩ := cycle.orbit (cycle.mem a ha) hb
  refine ⟨i % (k + 1), Nat.le_of_lt_succ (Nat.mod_lt i k.succ_pos), ?_⟩
  rw [periodic.iterate_mod_apply]
  exact reached

end Cycle
