import Mathlib.Data.List.Induction

/-!
# Trees of pointers in a store

A node has an entry for each number, and an entry is a node or null. A place of the tree is the
path that leads there from the root. The tree is sound when no two places hold the same node.
-/

namespace Trie

variable {α : Type} [DecidableEq α] (null : α)

/-- The entry at the end of a path. -/
def find (store : α → Nat → α) : α → List Nat → α
  | a, [] => a
  | a, k :: ks => if a = null then null else find store (store a k) ks

variable {null} {store store' : α → Nat → α} {root a new : α} {p q ks : List Nat} {k : Nat}

theorem find_null : find null store null p = null := by
  cases p with
  | nil => rfl
  | cons k ks => exact if_pos rfl

theorem find_append : find null store a (p ++ q) = find null store (find null store a p) q := by
  induction p generalizing a with
  | nil => rfl
  | cons k ks ih =>
    by_cases none' : a = null
    · rw [none', find_null, find_null, find_null]
    · show (if a = null then null else find null store (store a k) (ks ++ q)) =
        find null store (if a = null then null else find null store (store a k) ks) q
      rw [if_neg none', if_neg none', ih]

theorem find_snoc : find null store a (p ++ [k]) =
    if find null store a p = null then null else store (find null store a p) k :=
  find_append

/-- Stores that agree at the nodes before the end of a path find the same there. -/
theorem find_congr (same : ∀ p k, p ++ [k] <+: q → find null store root p ≠ null →
    store' (find null store root p) k = store (find null store root p) k) :
    find null store' root q = find null store root q := by
  induction q using List.reverseRecOn with
  | nil => rfl
  | append_singleton q k ih =>
    have before := ih fun p k' h => same p k' (h.trans (List.prefix_append q [k]))
    rw [find_snoc, find_snoc, before]
    split
    · rfl
    · rename_i real
      exact same q k (List.prefix_refl _) real

/-! ## Sound trees -/

variable (null) in
/-- No node is at two of the places. -/
def Apart (store : α → Nat → α) (root : α) (ok : List Nat → Prop) : Prop :=
  ∀ p q, ok p → ok q → find null store root p = find null store root q → find null store root p ≠ null → p = q

variable (null) in
/-- The empty entry `k` of the node at `p` got the new node, which has no entries. -/
structure Filled (store store' : α → Nat → α) (root : α) (ok : List Nat → Prop) (p : List Nat) (k : Nat) (new : α) :
    Prop where
  here : find null store root p ≠ null
  empty : store (find null store root p) k = null
  entry : store' (find null store root p) k = new
  real : new ≠ null
  fresh : ∀ q, ok q → find null store root q ≠ new
  clear : ∀ j, store' new j = null
  others : ∀ q j, ok q → find null store root q ≠ null → (q, j) ≠ (p, k) →
    store' (find null store root q) j = store (find null store root q) j

section Filling
variable {ok : List Nat → Prop}

/-- A write to the node at `p` of a sound tree, and to a node outside. -/
theorem Apart.filled (apart : Apart null store root ok) (place : ok p) (here : Trie.find null store root p ≠ null)
    (empty : store (Trie.find null store root p) k = null) (entry : store' (Trie.find null store root p) k = new)
    (real : new ≠ null) (fresh : ∀ q, ok q → Trie.find null store root q ≠ new) (clear : ∀ j, store' new j = null)
    (beside : ∀ j, j ≠ k → store' (Trie.find null store root p) j = store (Trie.find null store root p) j)
    (elsewhere : ∀ q, ok q → Trie.find null store root q ≠ null →
      Trie.find null store root q ≠ Trie.find null store root p →
      ∀ j, store' (Trie.find null store root q) j = store (Trie.find null store root q) j) :
    Filled null store store' root ok p k new := by
  refine ⟨here, empty, entry, real, fresh, clear, ?_⟩
  intro q j valid some other
  by_cases same : Trie.find null store root q = Trie.find null store root p
  · have only := apart q p valid place same some
    rw [same]
    refine beside j ?_
    intro last
    exact other (by rw [only, last])
  · exact elsewhere q valid some same j

/-- Only the place that was filled finds something else. -/
theorem Filled.find (filled : Filled null store store' root ok p k new)
    (closed : ∀ q j, ok (q ++ [j]) → ok q) (q : List Nat) (valid : ok q) :
    find null store' root q = if q = p ++ [k] then new else Trie.find null store root q := by
  induction q using List.reverseRecOn with
  | nil =>
    rw [if_neg (List.append_ne_nil_of_right_ne_nil p (List.cons_ne_nil k [])).symm]
    rfl
  | append_singleton q j ih =>
    have before := ih (closed q j valid)
    rw [find_snoc, find_snoc, before]
    by_cases through : q = p ++ [k]
    · -- below the new node
      have longer : q ++ [j] ≠ p ++ [k] := by
        intro same
        have lengths := congrArg List.length (through ▸ same)
        simp at lengths
      have was : Trie.find null store root q = null := by
        rw [through, find_snoc, if_neg filled.here, filled.empty]
      rw [if_pos through, if_neg filled.real, filled.clear, if_neg longer, was, if_pos rfl]
    · rw [if_neg through]
      by_cases none' : Trie.find null store root q = null
      · have other : q ++ [j] ≠ p ++ [k] := by
          intro same
          have init := (List.append_inj' same rfl).1
          exact filled.here (init ▸ none')
        rw [if_pos none', if_pos none', if_neg other]
      · rw [if_neg none', if_neg none']
        by_cases there : q ++ [j] = p ++ [k]
        · obtain ⟨init, last⟩ := List.append_inj' there rfl
          injection last with last
          rw [if_pos there, init, last, filled.entry]
        · rw [if_neg there]
          refine filled.others q j (closed q j valid) none' ?_
          intro same
          injection same with init last
          rw [init, last] at there
          exact there rfl

theorem Filled.apart (filled : Filled null store store' root ok p k new) (apart : Apart null store root ok)
    (closed : ∀ q j, ok (q ++ [j]) → ok q) : Apart null store' root ok := by
  intro q r hq hr
  rw [filled.find closed q hq, filled.find closed r hr]
  by_cases first : q = p ++ [k]
  · by_cases second : r = p ++ [k]
    · intro _ _
      rw [first, second]
    · rw [if_pos first, if_neg second]
      intro same
      exact absurd same.symm (filled.fresh r hr)
  · rw [if_neg first]
    by_cases second : r = p ++ [k]
    · rw [if_pos second]
      intro same
      exact absurd same (filled.fresh q hq)
    · rw [if_neg second]
      exact apart q r hq hr

end Filling

end Trie
