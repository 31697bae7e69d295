import Fuzix.Lib.Blocks
import Fuzix.Malloc

/-!
# Freeing a block

The invariant of the heap: the free blocks with the root are a cycle in the order of their
addresses, the blocks do not meet, and no two free ones touch. `free` finds its place on the list
and keeps it, and `brkmore` does as well.
-/

namespace Malloc

open Table Store Cycle Blocks Fuel

section
variable [Machine]

theorem memh_pos : 0 < memh := by
  have wide := Machine.wide
  unfold memh
  omega

theorem TOP_pos : 0 < TOP := Nat.pow_pos (by omega)

theorem Heap.next_lt (h : Heap) (p : Nat) : h.next p < TOP := load_lt

theorem Heap.size_lt (h : Heap) (p : Nat) : h.size p < TOP := load_lt

theorem plus_eq {p n : Nat} (less : p + n * memh < TOP) : plus p n = p + n * memh := Nat.mod_eq_of_lt less

theorem MH_eq {x : Nat} (less : x < TOP) : MH (x + memh) = x := by
  have same : x + memh + TOP - memh = x + TOP := by omega
  rw [MH, same, Nat.add_mod_right, Nat.mod_eq_of_lt less]

/-! ## Headers -/

/-- The headers of `B` hold these links and sizes. -/
structure Reads (h : Heap) (B : Set Nat) (next size : Nat → Nat) : Prop where
  next : ∀ b ∈ B, h.next b = next b
  size : ∀ b ∈ B, h.size b = size b

def Spaced (B : Set Nat) : Prop := ∀ a ∈ B, ∀ b ∈ B, a < b → a + memh ≤ b

/-- The bytes outside the headers of `B` are the same. -/
def Kept (B : Set Nat) (h h' : Heap) : Prop :=
  ∀ k, (∀ a ∈ B, k < a ∨ a + memh ≤ k) → h'.mem k = h.mem k

variable {h h' : Heap} {B : Set Nat} {F F' : Finset Nat} {L : Set Nat} {next size : Nat → Nat} {a p v x : Nat}

theorem Spaced.ne (spaced : Spaced B) {b : Nat} (ha : a ∈ B) (hb : b ∈ B) (other : b ≠ a) :
    a + memh ≤ b ∨ b + memh ≤ a := by
  rcases Nat.lt_or_gt_of_ne other with less | more
  · exact Or.inr (spaced b hb a ha less)
  · exact Or.inl (spaced a ha b hb more)

theorem Reads.refl (h : Heap) (B : Set Nat) : Reads h B h.next h.size := ⟨fun _ _ => rfl, fun _ _ => rfl⟩

theorem Reads.setNext (reads : Reads h B next size) (spaced : Spaced B) (ha : a ∈ B) (less : v < TOP) :
    Reads (h.setNext a v) B (put next a v) size := by
  constructor
  · intro b hb
    by_cases same : b = a
    · rw [same, put_same]
      exact load_store_of_lt less
    · rw [put_ne _ _ same, ← reads.next b hb]
      apply load_store_ne
      have far := spaced.ne ha hb same
      unfold memh at far
      omega
  · intro b hb
    rw [← reads.size b hb]
    apply load_store_ne
    by_cases same : b = a
    · omega
    · have far := spaced.ne ha hb same
      unfold memh at far
      omega

theorem Reads.setSize (reads : Reads h B next size) (spaced : Spaced B) (ha : a ∈ B) (less : v < TOP) :
    Reads (h.setSize a v) B next (put size a v) := by
  constructor
  · intro b hb
    rw [← reads.next b hb]
    apply load_store_ne
    by_cases same : b = a
    · omega
    · have far := spaced.ne ha hb same
      unfold memh at far
      omega
  · intro b hb
    by_cases same : b = a
    · rw [same, put_same]
      exact load_store_of_lt less
    · rw [put_ne _ _ same, ← reads.size b hb]
      apply load_store_ne
      have far := spaced.ne ha hb same
      unfold memh at far
      omega

theorem Kept.refl (B : Set Nat) (h : Heap) : Kept B h h := fun _ _ => rfl

theorem Kept.trans {g : Heap} (first : Kept B g h) (second : Kept B h h') : Kept B g h' :=
  fun k outside => (second k outside).trans (first k outside)

theorem Kept.setNext (kept : Kept B h h') (ha : a ∈ B) : Kept B h (h'.setNext a v) := by
  intro k outside
  have far := outside a ha
  unfold memh at far
  rw [← kept k outside]
  exact store_outside (by omega)

theorem Kept.setSize (kept : Kept B h h') (ha : a ∈ B) : Kept B h (h'.setSize a v) := by
  intro k outside
  have far := outside a ha
  unfold memh at far
  rw [← kept k outside]
  exact store_outside (by omega)

/-! ## The invariant -/

/-- `F` are the free blocks with the root, `L` the blocks in use. -/
structure Inv (h : Heap) (F : Finset Nat) (L : Set Nat) : Prop where
  lay : Layout root start memh h.brk F L h.size
  cycle : IsCycle F h.next
  clean : Unmerged memh F h.size
  free : h.mfreeptr ∈ F
  top : h.brk < TOP

def blocks (F : Finset Nat) (L : Set Nat) : Set Nat := { a | a ∈ F ∨ a ∈ L }

theorem spaced_of {brk : Nat} (lay : Layout root start memh brk F L size) : Spaced (blocks F L) :=
  fun _ ha _ hb less => lay.headers ha hb less

theorem sum_lt {brk : Nat} {x y : Nat} (lay : Layout root start memh brk F L size) (top : brk < TOP)
    (hy : y ∈ F ∨ y ∈ L) (adjacent : x + size x * memh = y) : size x + size y < TOP := by
  have far := lay.ends hy
  have total : (size x + size y) * memh = size x * memh + size y * memh := Nat.add_mul _ _ _
  have grows : size x + size y ≤ (size x + size y) * memh := Nat.le_mul_of_pos_right _ memh_pos
  omega

theorem plus_size {brk : Nat} (lay : Layout root start memh brk F L size) (top : brk < TOP)
    (hx : x ∈ F ∨ x ∈ L) : plus x (size x) = x + size x * memh := by
  apply plus_eq
  have far := lay.ends hx
  omega

/-- The block is on the list but for the link of the block `p` before it. -/
structure Halfway (h h' : Heap) (F F' : Finset Nat) (L : Set Nat) (x p : Nat) (next size : Nat → Nat) : Prop where
  lay : Layout root start memh h.brk F' (L \ {x}) size
  cycle : IsCycle F' next
  touch : Touch memh F' size fun a b => a = p ∧ b = x
  link : next p = x
  mem : x ∈ F'
  pred : p ∈ F'
  sub : ∀ b ∈ F', b ∈ F ∨ b ∈ L
  nexts : ∀ b ∈ blocks F L, b ≠ p → h'.next b = next b
  sizes : ∀ b ∈ blocks F L, h'.size b = size b
  same : ∀ b, b ≠ x → size b = h.size b
  least : h.size x ≤ size x
  kept : Kept (blocks F L) h h'
  brk : h'.brk = h.brk

theorem forward_halfway (inv : Inv h F L) (hx : x ∈ L) (before : Before F p x) :
    ∃ F' next size, Halfway h (forward h x p) F F' L x p next size := by
  have memQ : h.next p ∈ F := inv.cycle.mem p before.mem
  have down : p < x := before.less
  have spaced := spaced_of inv.lay
  have blockX : x ∈ blocks F L := Or.inr hx
  have first : IsCycle (insert x F) (put (put h.next x (h.next p)) p x) := by
    apply inv.cycle.insert before
    · rw [put_same]
    · rw [put_ne _ _ (by omega), put_same]
    · intro a ha other
      have notX : a ≠ x := fun same => inv.lay.exclusive a ha (same ▸ hx)
      rw [put_ne _ _ other, put_ne _ _ notX]
  have released := inv.lay.release hx
  have touches := inv.lay.touch_release inv.cycle inv.clean hx before
  have side : plus x (h.size x) = x + h.size x * memh := plus_size inv.lay inv.top (Or.inr hx)
  unfold forward
  rw [side]
  by_cases meets : x + h.size x * memh = h.next p
  · rw [if_pos meets]
    have different : x ≠ h.next p := fun same => inv.lay.exclusive _ memQ (same ▸ hx)
    obtain ⟨_, above, _⟩ := inv.lay.follows (Or.inr hx) different meets
    have total : h.size x + h.size (h.next p) < TOP :=
      sum_lt inv.lay inv.top (Or.inl memQ) meets
    have sized := (Reads.refl h (blocks F L)).setSize spaced blockX total
    have atP := sized.next p (Or.inl before.mem)
    have atQ := sized.next (h.next p) (Or.inl memQ)
    simp only [atP, atQ]
    have linked := sized.setNext spaced blockX (h.next_lt (h.next p))
    refine ⟨(insert x F).erase (h.next p),
      put (put (put h.next x (h.next p)) p x) x (h.next (h.next p)),
      put h.size x (h.size x + h.size (h.next p)), ?_⟩
    have merged := released.merge (Finset.mem_insert_self x F) (Finset.mem_insert_of_mem memQ) different meets
      (put_same h.size x (h.size x + h.size (h.next p))) (fun c other => put_ne _ _ other)
    have touched := touches.merge (Finset.mem_insert_of_mem memQ) meets
      (put_same h.size x (h.size x + h.size (h.next p))) (fun c other => put_ne _ _ other)
    constructor
    · exact merged
    · apply first.erase (Finset.mem_insert_self x F) _ (Ne.symm different)
      · rw [put_same, put_ne _ _ (by omega : h.next p ≠ p), put_ne _ _ (Ne.symm different)]
      · intro a _ other _
        rw [put_ne _ _ other]
      · rw [put_ne _ _ (by omega : x ≠ p), put_same]
    · intro a ha b hb other adjacent
      rcases touched a ha b hb other adjacent with ⟨notX, _, sides⟩ | ⟨_, sides⟩
      · rcases sides with ⟨same, _⟩ | pair
        · exact absurd same notX
        · exact pair
      · rcases sides with ⟨same, _⟩ | ⟨same, _⟩
        · exact absurd same.symm different
        · omega
    · rw [put_ne _ _ (by omega : p ≠ x), put_same]
    · exact Finset.mem_erase.mpr ⟨different, Finset.mem_insert_self x F⟩
    · exact Finset.mem_erase.mpr ⟨by omega, Finset.mem_insert_of_mem before.mem⟩
    · intro b hb
      rcases Finset.mem_insert.mp (Finset.mem_of_mem_erase hb) with same | old
      · exact Or.inr (same ▸ hx)
      · exact Or.inl old
    · intro b hb other
      rw [linked.next b hb]
      by_cases same : b = x
      · rw [same, put_same, put_same]
      · rw [put_ne _ _ same, put_ne _ _ same, put_ne _ _ other, put_ne _ _ same]
    · exact linked.size
    · intro b other
      exact put_ne _ _ other
    · rw [put_same]
      omega
    · exact ((Kept.refl _ h).setSize blockX).setNext blockX
    · rfl
  · rw [if_neg meets]
    have linked := (Reads.refl h (blocks F L)).setNext spaced blockX (h.next_lt p)
    refine ⟨insert x F, put (put h.next x (h.next p)) p x, h.size, ?_⟩
    constructor
    · exact released
    · exact first
    · intro a ha b hb other adjacent
      rcases touches a ha b hb other adjacent with ⟨isX, isQ⟩ | pair
      · rw [isX, isQ] at adjacent
        exact absurd adjacent meets
      · exact pair
    · rw [put_same]
    · exact Finset.mem_insert_self x F
    · exact Finset.mem_insert_of_mem before.mem
    · intro b hb
      rcases Finset.mem_insert.mp hb with same | old
      · exact Or.inr (same ▸ hx)
      · exact Or.inl old
    · intro b hb other
      rw [linked.next b hb, put_ne _ _ other]
    · exact linked.size
    · intro b _
      rfl
    · exact le_rfl
    · exact (Kept.refl _ h).setNext blockX
    · rfl

/-- What `free` leaves: the block is free, the others in use are as they were. -/
structure Freed (h h' : Heap) (F F' : Finset Nat) (L : Set Nat) (x : Nat) : Prop where
  inv : Inv h' F' (L \ {x})
  kept : Kept (blocks F L) h h'
  brk : h'.brk = h.brk
  sizes : ∀ b ∈ L, b ≠ x → h'.size b = h.size b
  fit : ∃ b ∈ F', h.size x ≤ h'.size b

variable (next size) in
theorem Inv.of_reads (lay : Layout root start memh h.brk F L size) (cycle : IsCycle F next)
    (clean : Unmerged memh F size) (free : h.mfreeptr ∈ F) (top : h.brk < TOP)
    (nexts : ∀ b ∈ F, h.next b = next b) (sizes : ∀ b ∈ blocks F L, h.size b = size b) : Inv h F L := by
  constructor
  · exact lay.congr sizes
  · exact cycle.congr nexts
  · exact clean.congr fun b hb => sizes b (Or.inl hb)
  · exact free
  · exact top

theorem backward_freed (inv : Inv h F L) (hx : x ∈ L) (before : Before F p x)
    (half : Halfway h h' F F' L x p next size) :
    ∃ F'', Freed h { backward h' x p with mfreeptr := p } F F'' L x := by
  have down : p < x := before.less
  have spaced := spaced_of inv.lay
  have blockP : p ∈ blocks F L := Or.inl before.mem
  have blockX : x ∈ blocks F L := Or.inr hx
  have used : ∀ b ∈ L, b ≠ p := fun b hb same => inv.lay.exclusive p before.mem (same ▸ hb)
  have old : ∀ b, b ∈ F' ∨ b ∈ L \ {x} → b ∈ blocks F L := by
    intro b hb
    rcases hb with free | inUse
    · exact half.sub b free
    · exact Or.inr inUse.1
  have reads : Reads h' (blocks F L) h'.next size := ⟨fun _ _ => rfl, half.sizes⟩
  have top : h'.brk < TOP := by
    rw [half.brk]
    exact inv.top
  have side : plus p (h'.size p) = p + size p * memh := by
    rw [half.sizes p blockP]
    exact plus_size half.lay inv.top (Or.inl half.pred)
  unfold backward
  rw [side]
  by_cases meets : p + size p * memh = x
  · rw [if_pos meets]
    have total : h'.size p + h'.size x < TOP := by
      rw [half.sizes p blockP, half.sizes x blockX]
      exact sum_lt half.lay inv.top (Or.inl half.mem) meets
    have sized := reads.setSize spaced blockP total
    have atX := sized.next x blockX
    simp only [atX]
    have linked := sized.setNext spaced blockP (h'.next_lt x)
    have merged := half.lay.merge half.pred half.mem (by omega) meets
      (put_same size p (size p + size x)) (fun c other => put_ne _ _ other)
    have touched := half.touch.merge half.mem meets
      (put_same size p (size p + size x)) (fun c other => put_ne _ _ other)
    have same : h'.size p + h'.size x = size p + size x := by
      rw [half.sizes p blockP, half.sizes x blockX]
    rw [same] at linked ⊢
    have memP : p ∈ F'.erase x := Finset.mem_erase.mpr ⟨by omega, half.pred⟩
    refine ⟨F'.erase x, ?_⟩
    constructor
    · apply Inv.of_reads (put next p (next x)) (put size p (size p + size x))
      · rw [← half.brk] at merged
        exact merged
      · apply half.cycle.erase half.pred half.link (by omega)
        · rw [put_same]
        · intro a _ other _
          rw [put_ne _ _ other]
      · apply touched.none
        intro a _ b hb other pair
        rcases pair with ⟨notP, _, isP, _⟩ | ⟨_, isP, _⟩
        · exact absurd isP notP
        · omega
      · exact memP
      · exact top
      · intro b hb
        obtain ⟨_, free⟩ := Finset.mem_erase.mp hb
        refine (linked.next b (half.sub b free)).trans ?_
        by_cases isP : b = p
        · rw [isP, put_same, put_same]
          exact half.nexts x blockX (by omega)
        · rw [put_ne _ _ isP, put_ne _ _ isP]
          exact half.nexts b (half.sub b free) isP
      · intro b hb
        apply linked.size b
        rcases hb with free | inUse
        · exact old b (Or.inl (Finset.mem_of_mem_erase free))
        · exact old b (Or.inr inUse)
    · exact (half.kept.setSize blockP).setNext blockP
    · exact half.brk
    · intro b hb other
      refine (linked.size b (Or.inr hb)).trans ?_
      rw [put_ne _ _ (used b hb)]
      exact half.same b other
    · have atP := linked.size p blockP
      rw [put_same] at atP
      have least : h.size x ≤ size p + size x := half.least.trans (Nat.le_add_left _ _)
      exact ⟨p, memP, least.trans atP.ge⟩
  · rw [if_neg meets]
    have linked := reads.setNext spaced blockP (v := x) (lt_of_lt_of_le (inv.lay.below blockX) inv.top.le)
    refine ⟨F', ?_⟩
    constructor
    · apply Inv.of_reads next size
      · have lay := half.lay
        rw [← half.brk] at lay
        exact lay
      · exact half.cycle
      · apply half.touch.none
        rintro a _ b _ _ ⟨isP, isX⟩
        rw [isP, isX]
        exact meets
      · exact half.pred
      · exact top
      · intro b hb
        refine (linked.next b (half.sub b hb)).trans ?_
        by_cases isP : b = p
        · rw [isP, put_same, half.link]
        · rw [put_ne _ _ isP]
          exact half.nexts b (half.sub b hb) isP
      · intro b hb
        exact linked.size b (old b hb)
    · exact half.kept.setNext blockP
    · exact half.brk
    · intro b hb other
      exact (linked.size b (Or.inr hb)).trans (half.same b other)
    · exact ⟨x, half.mem, half.least.trans (linked.size x blockX).ge⟩

/-! ## The place on the list -/

/-- Where the loop of `free` ends. -/
def stops (h : Heap) (x p : Nat) : Prop :=
  (p < x ∧ x < h.next p) ∨ (h.next p ≤ p ∧ (p < x ∨ x < h.next p))

theorem stops_iff (inv : Inv h F L) (hx : x ∈ L) (hp : p ∈ F) : stops h x p ↔ Before F p x := by
  have above : root < x := by
    have low := inv.lay.above (Or.inr hx) fun same => inv.lay.rootFree (same ▸ hx)
    have pos := memh_pos
    omega
  constructor
  · intro stop
    rcases inv.cycle.next p hp with ⟨up, none⟩ | ⟨wraps, all⟩
    · rcases stop with ⟨low, high⟩ | ⟨down, _⟩
      · refine ⟨hp, low, ?_⟩
        intro c hc
        rcases none c hc with left | right
        · exact Or.inl left
        · exact Or.inr (high.trans_le right)
      · omega
    · have least := (all root inv.lay.rooted).1
      have low : p < x := by
        rcases stop with ⟨low, _⟩ | ⟨_, low | high⟩
        · exact low
        · exact low
        · omega
      exact ⟨hp, low, fun c hc => Or.inl (all c hc).2⟩
  · intro before
    have down : p < x := before.less
    rcases before.last (h.next p) (inv.cycle.mem p hp) with low | high
    · exact Or.inr ⟨low, Or.inl down⟩
    · exact Or.inl ⟨down, high⟩

theorem seek_here {fuel : Nat} (stop : stops h x p) : seek h x (fuel + 1) p = some p := by
  unfold seek
  rcases stop with inner | outer
  · rw [if_pos inner]
  · by_cases inner : p < x ∧ x < h.next p
    · rw [if_pos inner]
    · rw [if_neg inner, if_pos outer]

theorem seek_on {fuel : Nat} (goes : ¬ stops h x a) : seek h x (fuel + 1) a = seek h x fuel (h.next a) := by
  rw [seek, if_neg fun inner => goes (Or.inl inner), if_neg fun outer => goes (Or.inr outer)]

/-- The loop comes to the block before `x`. -/
theorem seek_returns (inv : Inv h F L) (hx : x ∈ L) (before : Before F p x) (ha : a ∈ F) :
    Returns (fun fuel => seek h x fuel a) p := by
  obtain ⟨k, reached⟩ := inv.cycle.orbit ha before.mem
  refine ⟨k + 1, ?_⟩
  intro fuel enough
  induction k generalizing a fuel with
  | zero =>
    obtain ⟨rest, rfl⟩ := Nat.exists_eq_add_of_le' enough
    have here : a = p := reached
    rw [here]
    exact seek_here ((stops_iff inv hx before.mem).mpr before)
  | succ k ih =>
    obtain ⟨rest, rfl⟩ : ∃ rest, fuel = rest + 1 := ⟨fuel - 1, by omega⟩
    by_cases stop : stops h x a
    · have same := ((stops_iff inv hx ha).mp stop).unique before
      show seek h x (rest + 1) a = some p
      rw [seek_here stop, same]
    · show seek h x (rest + 1) a = some p
      rw [seek_on stop]
      exact ih (inv.cycle.mem a ha) reached rest (by omega)

theorem Inv.pred (inv : Inv h F L) (hx : x ∈ L) : ∃ p, Before F p x := by
  have above := inv.lay.above (Or.inr hx) fun same => inv.lay.rootFree (same ▸ hx)
  have pos := memh_pos
  exact exists_before inv.lay.rooted (by omega) fun free => inv.lay.exclusive x free hx

/-- `free` returns for every block in use, and keeps the heap. -/
theorem free_freed (inv : Inv h F L) (hx : x ∈ L) :
    ∃ F' h', Returns (fun fuel => free fuel h (x + memh)) h' ∧ Freed h h' F F' L x := by
  obtain ⟨p, before⟩ := inv.pred hx
  have found := seek_returns inv hx before inv.free
  have notNull : x + memh ≠ NULL := by
    have pos := memh_pos
    unfold NULL
    omega
  have atX : MH (x + memh) = x := MH_eq (lt_of_lt_of_le (inv.lay.below (Or.inr hx)) inv.top.le)
  obtain ⟨F', next, size, half⟩ := forward_halfway inv hx before
  obtain ⟨F'', freed⟩ := backward_freed inv hx before half
  refine ⟨F'', _, ?_, freed⟩
  unfold free
  simp only [if_neg notNull, atX]
  exact found.map

end

end Malloc
