import Mathlib.Data.List.Sort

/-!
# Linked lists with a root

A list of cells hangs from a root. A node is a root or the node of a cell; each has a pointer to
the next cell, and each cell one to the node before it. Several lists share the pointers.
-/

namespace Dll

variable {N α : Type} (node : α → N)

/-- From the node `n` on the cells of `l` are linked, forth and back. -/
def Links (next : N → Option α) (prev : α → N) : N → List α → Prop
  | n, [] => next n = none
  | n, b :: l => next n = some b ∧ prev b = n ∧ Links next prev (node b) l

/-- The node of the last cell, or the root. -/
def last : N → List α → N
  | n, [] => n
  | _, b :: l => last (node b) l

/-- The cells of `l` are linked from the node `n` to the last one of them. -/
def Path (next : N → Option α) (prev : α → N) : N → List α → Prop
  | _, [] => True
  | n, b :: l => next n = some b ∧ prev b = n ∧ Path next prev (node b) l

variable {node} {next next' : N → Option α} {prev prev' : α → N} {n : N} {l xs ys : List α} {a b : α}

theorem Links.head (links : Links node next prev n l) : next n = l.head? := by
  cases l with
  | nil => exact links
  | cons b l => exact links.1

/-- Only the pointers of the list matter. -/
theorem Links.frame (links : Links node next prev n l) (root : next' n = next n)
    (same : ∀ b ∈ l, next' (node b) = next (node b) ∧ prev' b = prev b) : Links node next' prev' n l := by
  induction l generalizing n with
  | nil => exact root.trans links
  | cons b l ih =>
    obtain ⟨here, back, rest⟩ := links
    have both := same b List.mem_cons_self
    refine ⟨root.trans here, both.2.trans back, ih rest both.1 fun c member => ?_⟩
    exact same c (List.mem_cons_of_mem b member)

/-- Behind a cell of the list its other cells go on. -/
theorem Links.behind (links : Links node next prev n (xs ++ b :: ys)) : Links node next prev (node b) ys := by
  induction xs generalizing n with
  | nil => exact links.2.2
  | cons a xs ih => exact ih links.2.2

/-- Before a cell is the root or another cell of the list. -/
theorem Links.prev_mem (links : Links node next prev n (xs ++ b :: ys)) : prev b = n ∨ ∃ a ∈ xs, prev b = node a := by
  induction xs generalizing n with
  | nil => exact Or.inl links.2.1
  | cons a xs ih =>
    right
    rcases ih links.2.2 with same | ⟨c, member, same⟩
    · exact ⟨a, List.mem_cons_self, same⟩
    · exact ⟨c, List.mem_cons_of_mem a member, same⟩

theorem links_append :
    Links node next prev n (xs ++ ys) ↔ Path node next prev n xs ∧ Links node next prev (last node n xs) ys := by
  induction xs generalizing n with
  | nil => exact (iff_of_eq (true_and _)).symm
  | cons b xs ih =>
    constructor
    · rintro ⟨here, back, rest⟩
      obtain ⟨path, after⟩ := ih.mp rest
      exact ⟨⟨here, back, path⟩, after⟩
    · rintro ⟨⟨here, back, path⟩, after⟩
      exact ⟨here, back, ih.mpr ⟨path, after⟩⟩

variable (node) in
theorem last_mem (n : N) (l : List α) : last node n l = n ∨ ∃ b ∈ l, last node n l = node b := by
  induction l generalizing n with
  | nil => exact Or.inl rfl
  | cons b l ih =>
    right
    rcases ih (node b) with same | ⟨c, member, same⟩
    · exact ⟨b, List.mem_cons_self, same⟩
    · exact ⟨c, List.mem_cons_of_mem b member, same⟩

/-- The pointer of the last cell does not matter to a path. -/
theorem Path.frame (path : Path node next prev n xs) (injective : Function.Injective node) (nodup : xs.Nodup)
    (root : ∀ a ∈ xs, node a ≠ n)
    (kept : ∀ q, q ≠ last node n xs → (q = n ∨ ∃ b ∈ xs, q = node b) → next' q = next q)
    (backs : ∀ b ∈ xs, prev' b = prev b) : Path node next' prev' n xs := by
  induction xs generalizing n with
  | nil => exact trivial
  | cons b xs ih =>
    obtain ⟨here, back, rest⟩ := path
    obtain ⟨notMember, distinct⟩ := List.nodup_cons.mp nodup
    have inner : ∀ a ∈ xs, node a ≠ node b := fun a member same => notMember (injective same ▸ member)
    have other : n ≠ last node (node b) xs := by
      intro same
      rcases last_mem node (node b) xs with first | ⟨c, member, equal⟩
      · exact root b List.mem_cons_self (first.symm.trans same.symm)
      · exact root c (List.mem_cons_of_mem b member) (equal.symm.trans same.symm)
    refine ⟨(kept n other (Or.inl rfl)).trans here, (backs b List.mem_cons_self).trans back, ?_⟩
    refine ih rest distinct inner (fun q away inside => kept q away (Or.inr ?_)) fun a member =>
      backs a (List.mem_cons_of_mem b member)
    rcases inside with first | ⟨c, member, same⟩
    · exact ⟨b, List.mem_cons_self, first⟩
    · exact ⟨c, List.mem_cons_of_mem b member, same⟩

/-- Cells in a row are taken out: the node before them points behind them, and back. -/
theorem Links.cut (links : Links node next prev n (xs ++ b :: (l ++ ys))) (injective : Function.Injective node)
    (nodup : (xs ++ b :: (l ++ ys)).Nodup) (root : ∀ a ∈ xs ++ b :: (l ++ ys), node a ≠ n)
    (forth : next' (prev b) = ys.head?)
    (kept : ∀ q, q ≠ prev b → (∀ c ∈ b :: l, q ≠ node c) → next' q = next q)
    (back : ∀ c ∈ ys.head?, prev' c = prev b) (backs : ∀ c, c ∉ ys.head? → prev' c = prev c) :
    Links node next' prev' n (xs ++ ys) := by
  induction xs generalizing n with
  | nil =>
    obtain ⟨_, here, rest⟩ := links
    rw [here] at forth kept back
    cases ys with
    | nil => exact forth
    | cons c ys =>
      have apart : (b :: l ++ c :: ys).Nodup := nodup
      have others := (List.nodup_append.mp apart).2.2
      have later := (List.nodup_cons.mp (List.nodup_append.mp apart).2.1).1
      refine ⟨forth, back c rfl, rest.behind.frame ?_ fun d member => ⟨?_, ?_⟩⟩
      · refine kept _ (root c (by simp)) fun a inside same => ?_
        exact others a inside c List.mem_cons_self (injective same).symm
      · refine kept _ (root d (by simp [member])) fun a inside same => ?_
        exact others a inside d (List.mem_cons_of_mem c member) (injective same).symm
      · refine backs d fun same => later ?_
        injection same with same
        exact same ▸ member
  | cons a xs ih =>
    obtain ⟨first, before, rest⟩ := links
    obtain ⟨notMember, distinct⟩ := List.nodup_cons.mp nodup
    have inner : ∀ c ∈ xs ++ b :: (l ++ ys), node c ≠ node a := by
      intro c member same
      exact notMember (injective same ▸ member)
    have other : n ≠ prev b := by
      intro same
      rcases rest.prev_mem with last | ⟨c, member, last⟩
      · exact root a List.mem_cons_self (last.symm.trans same.symm)
      · refine root c (List.mem_cons_of_mem a ?_) (last.symm.trans same.symm)
        exact List.mem_append_left _ member
    have self : ∀ c ∈ b :: l, n ≠ node c := by
      intro c inside same
      refine root c (List.mem_cons_of_mem a (List.mem_append_right _ ?_)) same.symm
      exact List.mem_append_left ys inside
    refine ⟨(kept n other self).trans first, (backs a ?_).trans before, ih rest distinct inner⟩
    intro head
    refine notMember (List.mem_append_right _ (List.mem_cons_of_mem b ?_))
    exact List.mem_append_right _ (List.mem_of_mem_head? head)

end Dll
