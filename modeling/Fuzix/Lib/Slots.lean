import Mathlib.Tactic.Common

/-!
# A table of slots as a finite map

Every slot holds a key and a value. Slots with the blank key are unused, and no other key is in
two slots. A key is looked up by a search from the first slot on.
-/

namespace Slots

variable {κ ν : Type} [DecidableEq κ]

structure Table (κ ν : Type) where
  count : Nat
  key : Nat → κ
  value : Nat → ν

def Table.seek (s : Table κ ν) (k : κ) : Option Nat := (List.range s.count).find? fun e => s.key e = k

/-- The value of a key that is not blank. -/
def Table.lookup (blank : κ) (s : Table κ ν) (k : κ) : Option ν :=
  if k = blank then none else (s.seek k).map s.value

def Table.Unique (blank : κ) (s : Table κ ν) : Prop :=
  ∀ e e', e < s.count → e' < s.count → s.key e = s.key e' → s.key e ≠ blank → e = e'

/-- Slot `e` got the key and the value; further slots may have come up, blank ones. -/
structure Stored (blank : κ) (s t : Table κ ν) (e : Nat) (k : κ) (v : ν) : Prop where
  count : s.count ≤ t.count
  inside : e < t.count
  key : t.key e = k
  value : k ≠ blank → t.value e = v
  others : ∀ e', e' < s.count → e' ≠ e → t.key e' = s.key e' ∧ t.value e' = s.value e'
  added : ∀ e', s.count ≤ e' → e' < t.count → e' ≠ e → t.key e' = blank

section Searching
variable {blank k old : κ} {v : ν} {s t : Table κ ν} {e : Nat}

theorem seek_some (found : s.seek k = some e) : e < s.count ∧ s.key e = k ∧ ∀ e' < e, s.key e' ≠ k := by
  have first := List.find?_eq_some_iff_getElem.mp found
  obtain ⟨hit, i, inside, here, before⟩ := first
  have less : i < s.count := by simpa using inside
  have same : i = e := by simpa using here
  rw [← same]
  constructor
  · exact less
  · constructor
    · simpa [same] using hit
    · intro e' earlier
      have miss := before e' earlier
      simpa using miss

theorem seek_none : s.seek k = none ↔ ∀ e < s.count, s.key e ≠ k := by
  simp [Table.seek, List.find?_eq_none]

theorem seek_of_first (less : e < s.count) (here : s.key e = k) (first : ∀ e' < e, s.key e' ≠ k) :
    s.seek k = some e := by
  cases found : s.seek k with
  | none => exact absurd here (seek_none.mp found e less)
  | some e' =>
    obtain ⟨_, there, first'⟩ := seek_some found
    rcases Nat.lt_trichotomy e e' with before | same | after
    · exact absurd here (first' e before)
    · rw [same]
    · exact absurd there (first e' after)

theorem lookup_some (unique : s.Unique blank) :
    s.lookup blank k = some v ↔ k ≠ blank ∧ ∃ e < s.count, s.key e = k ∧ s.value e = v := by
  unfold Table.lookup
  by_cases none' : k = blank
  · simp [none']
  · rw [if_neg none', Option.map_eq_some_iff]
    constructor
    · rintro ⟨e, found, same⟩
      obtain ⟨less, here, _⟩ := seek_some found
      exact ⟨none', e, less, here, same⟩
    · rintro ⟨_, e, less, here, same⟩
      refine ⟨e, seek_of_first less here ?_, same⟩
      intro e' before there
      have only := unique e e' less (by omega) (here.trans there.symm) (by rw [here]; exact none')
      omega

theorem lookup_none : s.lookup blank k = none ↔ k = blank ∨ ∀ e < s.count, s.key e ≠ k := by
  unfold Table.lookup
  by_cases none' : k = blank
  · simp [none']
  · simp [none', seek_none]

omit [DecidableEq κ] in
/-- A key that is new, or that was in the slot, keeps the table a map. -/
theorem Stored.unique (stored : Stored blank s t e k v) (unique : s.Unique blank)
    (new : k ≠ blank → ∀ e' < s.count, e' ≠ e → s.key e' ≠ k) : t.Unique blank := by
  -- every other slot in use has the key it had
  have other : ∀ e' < t.count, e' ≠ e → t.key e' ≠ blank → e' < s.count ∧ t.key e' = s.key e' := by
    intro e' less apart used
    by_cases old : e' < s.count
    · exact ⟨old, (stored.others e' old apart).1⟩
    · exact absurd (stored.added e' (by omega) less apart) used
  intro a b ha hb same used
  by_cases first : a = e
  · by_cases second : b = e
    · rw [first, second]
    · obtain ⟨old, key⟩ := other b hb second (same ▸ used)
      rw [first, stored.key] at used same
      exact absurd (key.symm.trans same.symm) (new used b old second)
  · obtain ⟨old, key⟩ := other a ha first used
    by_cases second : b = e
    · rw [second, stored.key] at same
      exact absurd (key.symm.trans same) (new (same ▸ used) a old first)
    · obtain ⟨old', key'⟩ := other b hb second (same ▸ used)
      refine unique a b old old' ?_ ?_
      · rw [← key, ← key', same]
      · rw [← key]
        exact used

/-- The key is looked up in the slot, the one that was there no longer, and all others as before. -/
theorem Stored.lookup (stored : Stored blank s t e k v) (unique : s.Unique blank)
    (new : k ≠ blank → ∀ e' < s.count, e' ≠ e → s.key e' ≠ k)
    (was : if e < s.count then s.key e = old else old = blank) (j : κ) :
    t.lookup blank j = if j = k ∧ k ≠ blank then some v else if j = old then none else s.lookup blank j := by
  have unique' := stored.unique unique new
  by_cases blank' : j = blank
  · have none' : ∀ r : Table κ ν, r.lookup blank j = none := fun r => lookup_none.mpr (Or.inl blank')
    have other : ¬ (j = k ∧ k ≠ blank) := fun no => no.2 (no.1 ▸ blank')
    simp [none', other]
  · by_cases here : j = k
    · have some' : t.lookup blank j = some v :=
        (lookup_some unique').mpr ⟨blank', e, stored.inside, stored.key.trans here.symm, stored.value (here ▸ blank')⟩
      rw [some', if_pos ⟨here, here ▸ blank'⟩]
    · rw [if_neg fun no => here no.1]
      by_cases gone : j = old
      · rw [if_pos gone]
        refine lookup_none.mpr (Or.inr ?_)
        intro e' less there
        by_cases apart : e' = e
        · rw [apart, stored.key] at there
          exact here there.symm
        · by_cases before : e' < s.count
          · have key := (stored.others e' before apart).1
            by_cases inside : e < s.count
            · rw [if_pos inside] at was
              have only := unique e' e before inside (by rw [← key, there, gone, was])
                (by rw [← key, there]; exact blank')
              exact apart only
            · rw [if_neg inside] at was
              exact blank' (gone.trans was)
          · exact blank' (there.symm.trans (stored.added e' (by omega) less apart))
      · rw [if_neg gone]
        cases found : s.lookup blank j with
        | none =>
          refine lookup_none.mpr (Or.inr ?_)
          rcases lookup_none.mp found with no | absent
          · exact absurd no blank'
          · intro e' less there
            by_cases apart : e' = e
            · rw [apart, stored.key] at there
              exact here there.symm
            · by_cases before : e' < s.count
              · exact absent e' before ((stored.others e' before apart).1.symm.trans there)
              · exact blank' (there.symm.trans (stored.added e' (by omega) less apart))
        | some w =>
          obtain ⟨_, e', less, there, value⟩ := (lookup_some unique).mp found
          have apart : e' ≠ e := by
            intro same
            rw [same] at there less
            rw [if_pos less] at was
            exact gone (there.symm.trans was)
          obtain ⟨key, same⟩ := stored.others e' less apart
          exact (lookup_some unique').mpr ⟨blank', e', Nat.lt_of_lt_of_le less stored.count, key.trans there,
            same.trans value⟩

/-! ## Tables with the same slots -/

omit [DecidableEq κ] in
structure Same (s t : Table κ ν) : Prop where
  count : t.count = s.count
  slots : ∀ e < s.count, t.key e = s.key e ∧ t.value e = s.value e

omit [DecidableEq κ] in
theorem Same.unique (same : Same s t) (unique : s.Unique blank) : t.Unique blank := by
  intro a b ha hb keys used
  rw [same.count] at ha hb
  rw [(same.slots a ha).1, (same.slots b hb).1] at keys
  rw [(same.slots a ha).1] at used
  exact unique a b ha hb keys used

theorem Same.lookup (same : Same s t) : t.lookup blank k = s.lookup blank k := by
  have sought : t.seek k = s.seek k := by
    cases found : s.seek k with
    | none =>
      refine seek_none.mpr ?_
      intro e less
      rw [same.count] at less
      rw [(same.slots e less).1]
      exact seek_none.mp found e less
    | some e =>
      obtain ⟨less, here, first⟩ := seek_some found
      refine seek_of_first (same.count ▸ less) ((same.slots e less).1.trans here) ?_
      intro e' earlier
      rw [(same.slots e' (by omega)).1]
      exact first e' earlier
  unfold Table.lookup
  rw [sought]
  by_cases none' : k = blank
  · rw [if_pos none', if_pos none']
  · rw [if_neg none', if_neg none']
    cases found : s.seek k with
    | none => rfl
    | some e =>
      rw [Option.map_some, Option.map_some, (same.slots e (seek_some found).1).2]

end Searching

end Slots
