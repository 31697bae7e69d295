import Fuzix.Lib.Cycle

/-!
# Blocks side by side

A heap is cut into blocks. A block begins with its header of `unit` bytes and is `size` units long.
The free ones are on a list whose root is a header of its own below the heap.
-/

namespace Blocks

open Cycle

/-- `F` are the free blocks with the root, `L` are those in use. -/
structure Layout (root start unit brk : Nat) (F : Finset Nat) (L : Set Nat) (size : Nat → Nat) : Prop where
  rooted : root ∈ F
  empty : size root = 0
  low : root + unit ≤ start
  positive : 0 < unit
  within : ∀ a, a ∈ F ∨ a ∈ L → a ≠ root → start ≤ a ∧ unit ∣ a ∧ 0 < size a ∧ a + size a * unit ≤ brk
  rootFree : root ∉ L
  apart : ∀ a b, a ∈ F ∨ a ∈ L → b ∈ F ∨ b ∈ L → a < b → a + size a * unit ≤ b
  exclusive : ∀ a ∈ F, a ∉ L
  extent : start ≤ brk
  aligned : unit ∣ brk

/-- Only pairs of `E` are two free blocks of which one begins where the other ends. -/
def Touch (unit : Nat) (F : Finset Nat) (size : Nat → Nat) (E : Nat → Nat → Prop) : Prop :=
  ∀ a ∈ F, ∀ b ∈ F, a ≠ b → a + size a * unit = b → E a b

/-- No free block ends where another one begins. -/
def Unmerged (unit : Nat) (F : Finset Nat) (size : Nat → Nat) : Prop :=
  ∀ a ∈ F, ∀ b ∈ F, a ≠ b → a + size a * unit ≠ b

variable {root start unit brk a b n p x y : Nat} {F : Finset Nat} {L : Set Nat} {size size' next next' : Nat → Nat}
  {E : Nat → Nat → Prop}

section
variable (lay : Layout root start unit brk F L size)
include lay

theorem Layout.above (ha : a ∈ F ∨ a ∈ L) (other : a ≠ root) : root + unit ≤ a :=
  lay.low.trans (lay.within a ha other).1

theorem Layout.covers (ha : a ∈ F ∨ a ∈ L) (other : a ≠ root) : unit ≤ size a * unit :=
  Nat.le_mul_of_pos_left unit (lay.within a ha other).2.2.1

/-- Headers do not meet. -/
theorem Layout.headers (ha : a ∈ F ∨ a ∈ L) (hb : b ∈ F ∨ b ∈ L) (less : a < b) : a + unit ≤ b := by
  by_cases isRoot : a = root
  · have other : b ≠ root := by omega
    have far := lay.above hb other
    omega
  · have far := lay.apart a b ha hb less
    have one := lay.covers ha isRoot
    omega

theorem Layout.ends (ha : a ∈ F ∨ a ∈ L) : a + size a * unit ≤ brk := by
  by_cases isRoot : a = root
  · rw [isRoot, lay.empty, Nat.zero_mul]
    have low := lay.low
    have extent := lay.extent
    omega
  · exact (lay.within a ha isRoot).2.2.2

theorem Layout.below (ha : a ∈ F ∨ a ∈ L) : a < brk := by
  by_cases isRoot : a = root
  · have low := lay.low
    have extent := lay.extent
    have pos := lay.positive
    omega
  · have far := lay.ends ha
    have one := lay.covers ha isRoot
    have pos := lay.positive
    omega

/-- What begins where a free block ends is not the root. -/
theorem Layout.follows (ha : a ∈ F ∨ a ∈ L) (other : a ≠ b) (adjacent : a + size a * unit = b) :
    a ≠ root ∧ a < b ∧ root < b := by
  have isRoot : a ≠ root := by
    intro same
    rw [same, lay.empty, Nat.zero_mul] at adjacent
    exact other (by omega)
  have one := lay.covers ha isRoot
  have far := lay.above ha isRoot
  have pos := lay.positive
  refine ⟨isRoot, ?_, ?_⟩ <;> omega

/-- The inside of a block holds no header. -/
theorem Layout.inside {k : Nat} (ha : a ∈ F ∨ a ∈ L) (hb : b ∈ F ∨ b ∈ L) (low : a + unit ≤ k)
    (high : k < a + size a * unit) : k < b ∨ b + unit ≤ k := by
  rcases Nat.lt_trichotomy a b with less | same | more
  · have far := lay.apart a b ha hb less
    omega
  · omega
  · have far := lay.headers hb ha more
    omega

theorem Layout.congr (same : ∀ a, a ∈ F ∨ a ∈ L → size' a = size a) : Layout root start unit brk F L size' := by
  constructor
  · exact lay.rooted
  · rw [same root (Or.inl lay.rooted), lay.empty]
  · exact lay.low
  · exact lay.positive
  · intro a ha other
    rw [same a ha]
    exact lay.within a ha other
  · exact lay.rootFree
  · intro a b ha hb less
    rw [same a ha]
    exact lay.apart a b ha hb less
  · exact lay.exclusive
  · exact lay.extent
  · exact lay.aligned

/-- A block in use is freed. -/
theorem Layout.release (hx : x ∈ L) : Layout root start unit brk (insert x F) (L \ {x}) size := by
  have old : ∀ a, a ∈ insert x F ∨ a ∈ L \ {x} → a ∈ F ∨ a ∈ L := by
    intro a ha
    rcases ha with free | ⟨used, _⟩
    · rcases Finset.mem_insert.mp free with same | free
      · exact Or.inr (same ▸ hx)
      · exact Or.inl free
    · exact Or.inr used
  constructor
  · exact Finset.mem_insert_of_mem lay.rooted
  · exact lay.empty
  · exact lay.low
  · exact lay.positive
  · intro a ha other
    exact lay.within a (old a ha) other
  · intro used
    exact lay.rootFree used.1
  · intro a b ha hb less
    exact lay.apart a b (old a ha) (old b hb) less
  · intro a free used
    rcases Finset.mem_insert.mp free with same | free
    · exact used.2 same
    · exact lay.exclusive a free used.1
  · exact lay.extent
  · exact lay.aligned

/-- A free block is put in use. -/
theorem Layout.take (hx : x ∈ F) (other : x ≠ root) : Layout root start unit brk (F.erase x) (insert x L) size := by
  have old : ∀ a, a ∈ F.erase x ∨ a ∈ insert x L → a ∈ F ∨ a ∈ L := by
    intro a ha
    rcases ha with free | used
    · exact Or.inl (Finset.mem_of_mem_erase free)
    · rcases used with same | used
      · exact Or.inl (same ▸ hx)
      · exact Or.inr used
  constructor
  · exact Finset.mem_erase.mpr ⟨Ne.symm other, lay.rooted⟩
  · exact lay.empty
  · exact lay.low
  · exact lay.positive
  · intro a ha notRoot
    exact lay.within a (old a ha) notRoot
  · intro used
    rcases used with same | used
    · exact other same.symm
    · exact lay.rootFree used
  · intro a b ha hb less
    exact lay.apart a b (old a ha) (old b hb) less
  · intro a free used
    rcases used with same | used
    · exact (Finset.mem_erase.mp free).1 same
    · exact lay.exclusive a (Finset.mem_of_mem_erase free) used
  · exact lay.extent
  · exact lay.aligned

/-- A free block takes in the one that begins where it ends. -/
theorem Layout.merge (ha : a ∈ F) (hb : b ∈ F) (other : a ≠ b) (adjacent : a + size a * unit = b)
    (sum : size' a = size a + size b) (others : ∀ c, c ≠ a → size' c = size c) :
    Layout root start unit brk (F.erase b) L size' := by
  obtain ⟨notRoot, less, above⟩ := lay.follows (Or.inl ha) other adjacent
  have total : a + size' a * unit = b + size b * unit := by
    rw [sum, Nat.add_mul]
    omega
  have old : ∀ c, c ∈ F.erase b ∨ c ∈ L → (c ∈ F ∨ c ∈ L) ∧ c ≠ b := by
    intro c hc
    rcases hc with free | used
    · exact ⟨Or.inl (Finset.mem_of_mem_erase free), (Finset.mem_erase.mp free).1⟩
    · refine ⟨Or.inr used, ?_⟩
      intro same
      exact lay.exclusive b hb (same ▸ used)
  constructor
  · exact Finset.mem_erase.mpr ⟨by omega, lay.rooted⟩
  · rw [others root (Ne.symm notRoot), lay.empty]
  · exact lay.low
  · exact lay.positive
  · intro c hc isRoot
    obtain ⟨block, _⟩ := old c hc
    obtain ⟨low, multiple, some, high⟩ := lay.within c block isRoot
    by_cases same : c = a
    · subst same
      refine ⟨low, multiple, by omega, ?_⟩
      rw [total]
      exact lay.ends (Or.inl hb)
    · rw [others c same]
      exact ⟨low, multiple, some, high⟩
  · exact lay.rootFree
  · intro c d hc hd before
    obtain ⟨blockC, _⟩ := old c hc
    obtain ⟨blockD, notB⟩ := old d hd
    have gap := lay.apart c d blockC blockD before
    by_cases same : c = a
    · subst same
      rw [total]
      exact lay.apart b d (Or.inl hb) blockD (by omega)
    · rw [others c same]
      exact gap
  · intro c free used
    exact lay.exclusive c (Finset.mem_of_mem_erase free) used
  · exact lay.extent
  · exact lay.aligned

omit lay in
/-- The blocks with one more in use. -/
theorem mem_insert_used {c : Nat} (block : c ∈ F ∨ c ∈ insert y L) : c = y ∨ (c ∈ F ∨ c ∈ L) ∧ c ≠ y := by
  by_cases same : c = y
  · exact Or.inl same
  · rcases block with free | (isNew | used)
    · exact Or.inr ⟨Or.inl free, same⟩
    · exact absurd isNew same
    · exact Or.inr ⟨Or.inr used, same⟩

variable (size') in
/-- The end of a free block is put in use. -/
theorem Layout.split (hx : x ∈ F) (some : 0 < n) (less : n < size x) (place : y = x + (size x - n) * unit)
    (rest : size' x = size x - n) (new : size' y = n) (others : ∀ c, c ≠ x → c ≠ y → size' c = size c) :
    Layout root start unit brk F (insert y L) size' ∧ ¬ (y ∈ F ∨ y ∈ L) := by
  have pos := lay.positive
  have notRoot : x ≠ root := by
    intro same
    rw [same, lay.empty] at less
    exact Nat.not_lt_zero n less
  have split : (size x - n) * unit + n * unit = size x * unit := by
    rw [← Nat.add_mul]
    congr 1
    omega
  have part : 0 < (size x - n) * unit := Nat.mul_pos (by omega) pos
  have tail : 0 < n * unit := Nat.mul_pos some pos
  have fresh : ¬ (y ∈ F ∨ y ∈ L) := by
    intro block
    have far := lay.apart x y (Or.inl hx) block (by omega)
    omega
  obtain ⟨low, multiple, _, high⟩ := lay.within x (Or.inl hx) notRoot
  refine ⟨?_, fresh⟩
  constructor
  · exact lay.rooted
  · rw [others root (Ne.symm notRoot) (fun same => fresh (Or.inl (same ▸ lay.rooted))), lay.empty]
  · exact lay.low
  · exact lay.positive
  · intro c hc isRoot
    rcases mem_insert_used hc with same | ⟨block, notNew⟩
    · rw [same, new]
      refine ⟨by omega, ?_, some, by omega⟩
      rw [place]
      exact Nat.dvd_add multiple (Nat.dvd_mul_left _ _)
    · by_cases same : c = x
      · rw [same, rest]
        exact ⟨low, multiple, by omega, by omega⟩
      · rw [others c same notNew]
        exact lay.within c block isRoot
  · intro used
    rcases used with same | used
    · exact fresh (Or.inl (same ▸ lay.rooted))
    · exact lay.rootFree used
  · intro c d hc hd before
    rcases mem_insert_used hc with sameC | ⟨blockC, notNewC⟩
    · rcases mem_insert_used hd with sameD | ⟨blockD, _⟩
      · omega
      · have far := lay.apart x d (Or.inl hx) blockD (by omega)
        rw [sameC, new]
        omega
    · rcases mem_insert_used hd with sameD | ⟨blockD, _⟩
      · by_cases same : c = x
        · rw [same, rest]
          omega
        · rw [others c same notNewC]
          rcases Nat.lt_or_gt_of_ne same with left | right
          · have far := lay.apart c x blockC (Or.inl hx) left
            omega
          · have far := lay.apart x c (Or.inl hx) blockC right
            omega
      · have far := lay.apart c d blockC blockD before
        by_cases same : c = x
        · rw [same, rest]
          rw [same] at far
          omega
        · rw [others c same notNewC]
          exact far
  · intro c free used
    rcases used with same | used
    · exact fresh (Or.inl (same ▸ free))
    · exact lay.exclusive c free used
  · exact lay.extent
  · exact lay.aligned

variable (size') in
/-- The heap grows by a block in use. -/
theorem Layout.grow (some : 0 < n) (new : size' brk = n) (others : ∀ c, c ≠ brk → size' c = size c) :
    Layout root start unit (brk + n * unit) F (insert brk L) size' ∧ ¬ (brk ∈ F ∨ brk ∈ L) := by
  have fresh : ¬ (brk ∈ F ∨ brk ∈ L) := fun block => lt_irrefl brk (lay.below block)
  have extent := lay.extent
  refine ⟨?_, fresh⟩
  constructor
  · exact lay.rooted
  · rw [others root (fun same => fresh (Or.inl (same ▸ lay.rooted))), lay.empty]
  · exact lay.low
  · exact lay.positive
  · intro c hc isRoot
    rcases mem_insert_used hc with same | ⟨block, notNew⟩
    · rw [same, new]
      exact ⟨extent, lay.aligned, some, le_rfl⟩
    · rw [others c notNew]
      obtain ⟨low, multiple, more, high⟩ := lay.within c block isRoot
      exact ⟨low, multiple, more, by omega⟩
  · intro used
    rcases used with same | used
    · exact fresh (Or.inl (same ▸ lay.rooted))
    · exact lay.rootFree used
  · intro c d hc hd before
    rcases mem_insert_used hc with sameC | ⟨blockC, notNewC⟩
    · rcases mem_insert_used hd with sameD | ⟨blockD, _⟩
      · omega
      · have below := lay.below blockD
        omega
    · rw [others c notNewC]
      rcases mem_insert_used hd with sameD | ⟨blockD, _⟩
      · rw [sameD]
        exact lay.ends blockC
      · exact lay.apart c d blockC blockD before
  · intro c free used
    rcases used with same | used
    · exact fresh (Or.inl (same ▸ free))
    · exact lay.exclusive c free used
  · omega
  · exact Nat.dvd_add lay.aligned (Nat.dvd_mul_left _ _)

end

/-! ## Blocks that touch -/

theorem Unmerged.mono {G : Finset Nat} (clean : Unmerged unit F size) (sub : G ⊆ F) : Unmerged unit G size :=
  fun a ha b hb => clean a (sub ha) b (sub hb)

theorem Unmerged.congr (clean : Unmerged unit F size) (same : ∀ a ∈ F, size' a = size a) :
    Unmerged unit F size' := by
  intro a ha b hb other
  rw [same a ha]
  exact clean a ha b hb other

/-- A block put on the list touches the one before it or the one after it. -/
theorem Layout.touch_release (lay : Layout root start unit brk F L size) (cycle : IsCycle F next)
    (clean : Unmerged unit F size) (hx : x ∈ L) (before : Before F p x) :
    Touch unit (insert x F) size fun a b => (a = x ∧ b = next p) ∨ (a = p ∧ b = x) := by
  intro a ha b hb other adjacent
  rcases Finset.mem_insert.mp ha with isNew | freeA
  · subst isNew
    left
    refine ⟨rfl, ?_⟩
    have freeB := (Finset.mem_insert.mp hb).resolve_left (Ne.symm other)
    obtain ⟨_, less, _⟩ := lay.follows (Or.inr hx) other adjacent
    rcases cycle.next p before.mem with ⟨up, none⟩ | ⟨_, all⟩
    · rcases none b freeB with low | high
      · have down := before.less
        omega
      · rcases Nat.eq_or_lt_of_le high with same | up'
        · exact same.symm
        · have after : a < next p := by
            rcases before.last (next p) (cycle.mem p before.mem) with low | above
            · omega
            · exact above
          have gap := lay.apart a (next p) (Or.inr hx) (Or.inl (cycle.mem p before.mem)) after
          omega
    · have below := (all b freeB).2
      have down := before.less
      omega
  · rcases Finset.mem_insert.mp hb with isNew | freeB
    · subst isNew
      right
      refine ⟨?_, rfl⟩
      obtain ⟨notRoot, less, _⟩ := lay.follows (Or.inl freeA) other adjacent
      rcases before.last a freeA with low | high
      · rcases Nat.eq_or_lt_of_le low with same | under
        · exact same
        · have gap := lay.apart a p (Or.inl freeA) (Or.inl before.mem) under
          have down := before.less
          omega
      · omega
    · exact absurd adjacent (clean a freeA b freeB other)

/-- What a merged block touches its second part touched. -/
theorem Touch.merge (touch : Touch unit F size E) (hb : b ∈ F) (adjacent : a + size a * unit = b)
    (sum : size' a = size a + size b) (others : ∀ c, c ≠ a → size' c = size c) :
    Touch unit (F.erase b) size' fun c d => (c ≠ a ∧ d ≠ b ∧ E c d) ∨ (c = a ∧ E b d) := by
  intro c hc d hd other touches
  obtain ⟨_, freeC⟩ := Finset.mem_erase.mp hc
  obtain ⟨notB, freeD⟩ := Finset.mem_erase.mp hd
  by_cases same : c = a
  · right
    refine ⟨same, touch b hb d freeD (Ne.symm notB) ?_⟩
    rw [same, sum, Nat.add_mul] at touches
    omega
  · rw [others c same] at touches
    exact Or.inl ⟨same, notB, touch c freeC d freeD other touches⟩

theorem Touch.none (touch : Touch unit F size E) (never : ∀ a ∈ F, ∀ b ∈ F, a ≠ b → E a b → a + size a * unit ≠ b) :
    Unmerged unit F size := by
  intro a ha b hb other adjacent
  exact never a ha b hb other (touch a ha b hb other adjacent) adjacent

end Blocks
