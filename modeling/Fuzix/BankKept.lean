import Fuzix.BankPages

/-!
# Pages and slots that have an owner

Every page is on the stack, in the map of one process or in the hand of the routine that
moves it, and every slot has one owner at most. What a process has stored is its image,
in its pages or on the disk. Swapping a process out moves its image.
-/

set_option linter.unusedSectionVars false

namespace Bank16k

open Table Wp

section Machine
variable [Machine]

/-! ## Owners -/

def Proc.resident (q : Proc) : Prop := ¬ q.dead ∧ ¬ q.noPage

/-- Swapped out. -/
def Proc.away (q : Proc) : Prop := ¬ q.dead ∧ q.noPage

instance (q : Proc) : Decidable q.resident := by unfold Proc.resident; infer_instance

instance (q : Proc) : Decidable q.away := by unfold Proc.away; infer_instance

/-- The last page that is needed is repeated to fill the map. -/
def Proc.laidOut (q : Proc) : Prop :=
  ∀ i, mapsNeeded q.top ≤ i → i < 4 → q.page i = q.page (mapsNeeded q.top - 1)

/-- The distinct pages of a process. One that has exited has given them back. -/
def held (q : Proc) : List Nat :=
  if q.resident then (List.range (mapsNeeded q.top)).map q.page else []

def slotOf (q : Proc) : List Nat := if q.away then [q.page2] else []

/-- What process `q` has stored at `x`. -/
def image (s : State) (q : Proc) (x : Nat) : UInt8 :=
  if q.noPage then diskByte s q.page2 x else s.mem (q.page (x / PAGESIZE)) (x % PAGESIZE)

/-- The banks from the last page on are copies of one page. -/
def Folded (f : Nat → UInt8) (n : Nat) : Prop :=
  ∀ i j y, n - 1 ≤ i → i < 4 → n - 1 ≤ j → j < 4 → y < PAGESIZE →
    swapped (i * PAGESIZE + y) → swapped (j * PAGESIZE + y) →
    f (i * PAGESIZE + y) = f (j * PAGESIZE + y)

/-- The pages of `pool` are all there, those of `hand` on their way, and no slot is in two
places, those of `lost` on their way. -/
structure Kept (pool hand lost : List Nat) (s : State) : Prop where
  unique : pool.Nodup
  size : pool.length ≤ MAX_MAPS
  proper : ∀ x, x ∈ pool → 0 < x ∧ x < 255
  pages : ∀ x, (freeList s).count x + hand.count x +
    total PTABSIZE (fun p => (held (s.ptab p)).count x) = pool.count x
  slots : ∀ x, (slotList s).count x + lost.count x +
    total PTABSIZE (fun p => (slotOf (s.ptab p)).count x) ≤ 1
  laid : ∀ p, p < PTABSIZE → (s.ptab p).resident → (s.ptab p).laidOut
  folded : ∀ p, p < PTABSIZE → (s.ptab p).away →
    Folded (diskByte s (s.ptab p).page2) (mapsNeeded (s.ptab p).top)

section Facts
variable {pool hand lost : List Nat} {s : State} {p r x : Nat}

theorem held_resident {q : Proc} (h : q.resident) :
    held q = (List.range (mapsNeeded q.top)).map q.page := if_pos h

theorem held_none {q : Proc} (h : ¬ q.resident) : held q = [] := if_neg h

theorem held_dead {q : Proc} (h : q.dead) : held q = [] := held_none fun r => r.1 h

theorem slotOf_away {q : Proc} (h : q.away) : slotOf q = [q.page2] := if_pos h

theorem slotOf_none {q : Proc} (h : ¬ q.away) : slotOf q = [] := if_neg h

theorem slotOf_dead {q : Proc} (h : q.dead) : slotOf q = [] := slotOf_none fun a => a.1 h

/-- The four entries of a map are pages that its process holds. -/
theorem page_held {q : Proc} (h : q.resident) (laid : q.laidOut) {i : Nat} (hi : i < 4) :
    q.page i ∈ held q := by
  have range := mapsNeeded_range q.top
  rw [held_resident h]
  by_cases low : i < mapsNeeded q.top
  · exact List.mem_map.mpr ⟨i, List.mem_range.mpr low, rfl⟩
  · rw [laid i (by omega) hi]
    exact List.mem_map.mpr ⟨mapsNeeded q.top - 1, List.mem_range.mpr (by omega), rfl⟩

theorem Kept.count_le (kept : Kept pool hand lost s) (x : Nat) :
    (freeList s).count x + hand.count x +
      total PTABSIZE (fun p => (held (s.ptab p)).count x) ≤ 1 := by
  rw [kept.pages x]
  exact List.nodup_iff_count_le_one.mp kept.unique x

theorem Kept.mem_pool (kept : Kept pool hand lost s)
    (h : x ∈ freeList s ∨ x ∈ hand ∨ ∃ p, p < PTABSIZE ∧ x ∈ held (s.ptab p)) : x ∈ pool := by
  have eq := kept.pages x
  apply List.count_pos_iff.mp
  rcases h with free | moved | ⟨p, hp, there⟩
  · have some := List.count_pos_iff.mpr free
    omega
  · have some := List.count_pos_iff.mpr moved
    omega
  · have some := List.count_pos_iff.mpr there
    have part := le_total (f := fun p => (held (s.ptab p)).count x) hp
    omega

theorem Kept.held_once (kept : Kept pool hand lost s) (hp : p < PTABSIZE) :
    (held (s.ptab p)).Nodup := by
  rw [List.nodup_iff_count_le_one]
  intro x
  have le := kept.count_le x
  have part := le_total (f := fun p => (held (s.ptab p)).count x) hp
  omega

/-- No page is held twice. -/
theorem Kept.held_apart (kept : Kept pool hand lost s) (hp : p < PTABSIZE) (hr : r < PTABSIZE)
    (other : p ≠ r) (there : x ∈ held (s.ptab p)) : x ∉ held (s.ptab r) := by
  intro too
  have le := kept.count_le x
  have one := List.count_pos_iff.mpr there
  have two := List.count_pos_iff.mpr too
  have without := total_change (f := fun p => (held (s.ptab p)).count x)
    (g := put (fun p => (held (s.ptab p)).count x) p 0) hp
    fun j _ hj => put_ne _ _ hj
  have part := le_total (f := put (fun p => (held (s.ptab p)).count x) p 0) hr
  rw [put_ne _ _ (Ne.symm other)] at part
  rw [put_same] at without
  omega

/-- A page that is held is neither free nor on its way. -/
theorem Kept.held_taken (kept : Kept pool hand lost s) (hp : p < PTABSIZE)
    (there : x ∈ held (s.ptab p)) : x ∉ freeList s ∧ x ∉ hand := by
  have le := kept.count_le x
  have one := List.count_pos_iff.mpr there
  have part := le_total (f := fun p => (held (s.ptab p)).count x) hp
  constructor
  · intro free
    have two := List.count_pos_iff.mpr free
    omega
  · intro moved
    have two := List.count_pos_iff.mpr moved
    omega

theorem Kept.perm (kept : Kept pool hand lost s) :
    (freeList s ++ hand ++ (List.range PTABSIZE).flatMap (fun p => held (s.ptab p))).Perm pool := by
  rw [List.perm_iff_count]
  intro x
  rw [List.count_append, List.count_append, count_table]
  exact kept.pages x

theorem length_freeList (s : State) : (freeList s).length = s.pfptr := by simp [freeList]

/-- There is room on the stack for the pages of every process. -/
theorem Kept.room (kept : Kept pool hand lost s) (hp : p < PTABSIZE) :
    s.pfptr + hand.length + (held (s.ptab p)).length < 256 := by
  have length := kept.perm.length_eq
  have part := le_total (f := fun p => (held (s.ptab p)).length) hp
  have size := kept.size
  have bound := Machine.mapsBound
  rw [List.length_append, List.length_append, length_table, length_freeList] at length
  omega

theorem Kept.small (kept : Kept pool hand lost s) : s.pfptr < 256 := by
  have length := kept.perm.length_eq
  have size := kept.size
  have bound := Machine.mapsBound
  rw [List.length_append, List.length_append, length_freeList] at length
  omega

/-- What `pagemap_free` pushes are the pages that the process holds. -/
theorem freed_held {q : Proc} (h : q.resident) (laid : q.laidOut) (once : (held q).Nodup)
    (page : ∀ x, x ∈ held q → x < 255) : freed q.page 4 0 NO_PAGE = held q := by
  have range := mapsNeeded_range q.top
  have none : ∀ i, i < 4 → q.page i ≠ NO_PAGE := by
    intro i hi same
    have less := page _ (page_held h laid hi)
    unfold NO_PAGE at same
    omega
  have apart : ∀ i j, i < mapsNeeded q.top → j < mapsNeeded q.top → i ≠ j →
      q.page i ≠ q.page j := by
    intro i j hi hj other same
    rw [held_resident h] at once
    have inj := List.inj_on_of_nodup_map once
    exact other (inj (List.mem_range.mpr hi) (List.mem_range.mpr hj) same)
  have fill := laid
  unfold Proc.laidOut at fill
  rw [held_resident h]
  have four : mapsNeeded q.top = 1 ∨ mapsNeeded q.top = 2 ∨ mapsNeeded q.top = 3 ∨
      mapsNeeded q.top = 4 := by omega
  rcases four with n | n | n | n <;> rw [n] at fill apart ⊢
  · have one := fill 1 (by decide) (by decide)
    have two := fill 2 (by decide) (by decide)
    have three := fill 3 (by decide) (by decide)
    simp [freed, none 0 (by decide), one, two, three]
  · have two := fill 2 (by decide) (by decide)
    have three := fill 3 (by decide) (by decide)
    have first := apart 1 0 (by decide) (by decide) (by decide)
    simp [freed, none 0 (by decide), two, three, first, List.range_succ]
  · have three := fill 3 (by decide) (by decide)
    have first := apart 1 0 (by decide) (by decide) (by decide)
    have second := apart 2 1 (by decide) (by decide) (by decide)
    simp [freed, none 0 (by decide), three, first, second, List.range_succ]
  · have first := apart 1 0 (by decide) (by decide) (by decide)
    have second := apart 2 1 (by decide) (by decide) (by decide)
    have third := apart 3 2 (by decide) (by decide) (by decide)
    simp [freed, none 0 (by decide), first, second, third, List.range_succ]

theorem Kept.pagesOf_held (kept : Kept pool hand lost s) (hp : p < PTABSIZE)
    (h : (s.ptab p).resident) : s.pagesOf p = held (s.ptab p) := by
  refine freed_held h (kept.laid p hp h) (kept.held_once hp) fun x there => ?_
  exact (kept.proper x (kept.mem_pool (Or.inr (Or.inr ⟨p, hp, there⟩)))).2

end Facts

/-! ## Changing one process -/

section Change
variable {pool hand hand' lost lost' : List Nat} {s t : State} {p x : Nat} {q : Proc}

theorem total_held (hp : p < PTABSIZE) (x : Nat) :
    total PTABSIZE (fun j => (held (put s.ptab p q j)).count x) + (held (s.ptab p)).count x =
      total PTABSIZE (fun j => (held (s.ptab j)).count x) + (held q).count x := by
  have change := total_change (f := fun j => (held (s.ptab j)).count x)
    (g := fun j => (held (put s.ptab p q j)).count x) hp
    fun j _ other => by simp only [put_ne _ _ other]
  simp only [put_same] at change
  exact change

theorem total_slotOf (hp : p < PTABSIZE) (x : Nat) :
    total PTABSIZE (fun j => (slotOf (put s.ptab p q j)).count x) + (slotOf (s.ptab p)).count x =
      total PTABSIZE (fun j => (slotOf (s.ptab j)).count x) + (slotOf q).count x := by
  have change := total_change (f := fun j => (slotOf (s.ptab j)).count x)
    (g := fun j => (slotOf (put s.ptab p q j)).count x) hp
    fun j _ other => by simp only [put_ne _ _ other]
  simp only [put_same] at change
  exact change

/-- One process changes, and pages and slots go between it, the stacks and the hand. -/
theorem Kept.change (kept : Kept pool hand lost s) (hp : p < PTABSIZE)
    (entry : t.ptab = put s.ptab p q)
    (pages : ∀ x, (freeList t).count x + hand'.count x + (held q).count x =
      (freeList s).count x + hand.count x + (held (s.ptab p)).count x)
    (slots : ∀ x, (slotList t).count x + lost'.count x + (slotOf q).count x ≤
      (slotList s).count x + lost.count x + (slotOf (s.ptab p)).count x)
    (laid : q.resident → q.laidOut)
    (folded : q.away → Folded (diskByte t q.page2) (mapsNeeded q.top))
    (disk : ∀ r, r < PTABSIZE → r ≠ p → (s.ptab r).away →
      ∀ x, swapped x → diskByte t (s.ptab r).page2 x = diskByte s (s.ptab r).page2 x) :
    Kept pool hand' lost' t where
  unique := kept.unique
  size := kept.size
  proper := kept.proper
  pages := by
    intro x
    have before := kept.pages x
    have moved := pages x
    have sum := total_held (s := s) (q := q) hp x
    rw [entry]
    omega
  slots := by
    intro x
    have before := kept.slots x
    have moved := slots x
    have sum := total_slotOf (s := s) (q := q) hp x
    rw [entry]
    omega
  laid := by
    intro r hr
    rw [entry]
    by_cases here : r = p
    · subst here
      rw [put_same]
      exact laid
    · rw [put_ne _ _ here]
      exact kept.laid r hr
  folded := by
    intro r hr
    rw [entry]
    by_cases here : r = p
    · subst here
      rw [put_same]
      exact folded
    · rw [put_ne _ _ here]
      intro away i j y hi hi' hj hj' hy one two
      rw [disk r hr here away _ one, disk r hr here away _ two]
      exact kept.folded r hr away i j y hi hi' hj hj' hy one two

/-- A slot is on the stack or belongs to one process. -/
theorem Kept.slot_apart (kept : Kept pool hand lost s) {r : Nat} (hr : r < PTABSIZE)
    (away : (s.ptab r).away) :
    (s.ptab r).page2 ∉ slotList s ∧ (s.ptab r).page2 ∉ lost ∧
      ∀ p, p < PTABSIZE → p ≠ r → (s.ptab p).away → (s.ptab p).page2 ≠ (s.ptab r).page2 := by
  have le := kept.slots (s.ptab r).page2
  have one : (slotOf (s.ptab r)).count (s.ptab r).page2 = 1 := by
    rw [slotOf_away away]
    simp
  have part := le_total (f := fun p => (slotOf (s.ptab p)).count (s.ptab r).page2) hr
  refine ⟨?_, ?_, ?_⟩
  · intro free
    have two := List.count_pos_iff.mpr free
    omega
  · intro moved
    have two := List.count_pos_iff.mpr moved
    omega
  · intro p hp other too same
    have second : (slotOf (s.ptab p)).count (s.ptab r).page2 = 1 := by
      rw [slotOf_away too, same]
      simp
    have without := total_change (f := fun p => (slotOf (s.ptab p)).count (s.ptab r).page2)
      (g := put (fun p => (slotOf (s.ptab p)).count (s.ptab r).page2) r 0) hr
      fun j _ hj => put_ne _ _ hj
    have part' := le_total
      (f := put (fun p => (slotOf (s.ptab p)).count (s.ptab r).page2) r 0) hp
    rw [put_ne _ _ other] at part'
    rw [put_same] at without
    omega

theorem slot_mem (some : s.swapptr ≠ 0) : s.slot ∈ slotList s :=
  List.mem_map.mpr ⟨s.swapptr - 1, List.mem_range.mpr (by omega), rfl⟩

theorem count_popSlot (some : s.swapptr ≠ 0) (x : Nat) :
    (slotList s).count x = (slotList s.popSlot).count x + [s.slot].count x := by
  have one : s.swapptr = s.swapptr - 1 + 1 := by omega
  have list : slotList s = slotList s.popSlot ++ [s.slot] := by
    show (List.range s.swapptr).map s.swapmap = _
    rw [one, List.range_succ, List.map_append]
    rfl
  rw [list, List.count_append]

/-- Two slots have no block in common. -/
theorem slots_apart {m n b : Nat} (other : m ≠ n) (low : m * SWAP_SIZE ≤ b)
    (high : b < m * SWAP_SIZE + SWAP_SIZE) :
    ¬ (n * SWAP_SIZE ≤ b ∧ b < n * SWAP_SIZE + SWAP_SIZE) := by
  intro too
  have one : b / SWAP_SIZE = m := by
    apply Nat.div_eq_of_lt_le low
    rw [Nat.succ_mul]
    exact high
  have two : b / SWAP_SIZE = n := by
    apply Nat.div_eq_of_lt_le too.1
    rw [Nat.succ_mul]
    exact too.2
  omega

/-- A slot that is not written keeps its bytes. -/
theorem written_other (page : Nat → Nat) {m n : Nat} (other : m ≠ n) {y : Nat} (h : swapped y) :
    s.written page n (m * SWAP_SIZE + (y - SWAPBASE) / 512) ((y - SWAPBASE) % 512) =
      diskByte s m y := by
  have block := swapped_block h m
  refine if_neg fun here => slots_apart other block.1 block.2 ⟨here.1, here.2.1⟩

/-- A slot that is written holds what was in memory. -/
theorem written_same (page : Nat → Nat) (n : Nat) {y : Nat} (h : swapped y) :
    s.written page n (n * SWAP_SIZE + (y - SWAPBASE) / 512) ((y - SWAPBASE) % 512) =
      s.mem (page (y / PAGESIZE)) (y % PAGESIZE) := by
  have block := swapped_block h n
  have offset : (y - SWAPBASE) % 512 < 512 := Nat.mod_lt _ (by decide)
  have place : SWAPBASE + 512 * (n * SWAP_SIZE + (y - SWAPBASE) / 512 - n * SWAP_SIZE) +
      (y - SWAPBASE) % 512 = y := by
    unfold swapped at h
    omega
  have value : s.written page n (n * SWAP_SIZE + (y - SWAPBASE) / 512) ((y - SWAPBASE) % 512) =
      s.mem (page ((SWAPBASE + 512 * (n * SWAP_SIZE + (y - SWAPBASE) / 512 - n * SWAP_SIZE) +
        (y - SWAPBASE) % 512) / PAGESIZE)) ((SWAPBASE + 512 * (n * SWAP_SIZE +
        (y - SWAPBASE) / 512 - n * SWAP_SIZE) + (y - SWAPBASE) % 512) % PAGESIZE) :=
    if_pos ⟨block.1, block.2, offset⟩
  rw [value, place]

end Change

/-! ## Swapping a process out -/

/-- Some processes have been swapped out, and nothing else has changed for anyone. -/
structure Evicted (s t : State) : Prop where
  cur : t.cur = s.cur
  status : ∀ p, (t.ptab p).status = (s.ptab p).status
  top : ∀ p, (t.ptab p).top = (s.ptab p).top
  stay : ∀ p, (s.ptab p).noPage ∨ (s.ptab p).status = .running → t.ptab p = s.ptab p
  image : ∀ p, p < PTABSIZE → ¬ (s.ptab p).dead → ∀ x, swapped x →
    image t (t.ptab p) x = image s (s.ptab p) x
  blocks : ∀ b o, t.swapdev b o ≠ s.swapdev b o → ∃ p, p < PTABSIZE ∧ (s.ptab p).resident ∧
    (t.ptab p).away ∧ (t.ptab p).page2 * SWAP_SIZE ≤ b ∧
    b < (t.ptab p).page2 * SWAP_SIZE + SWAP_SIZE

section Evict
variable {pool hand lost : List Nat} {s t u : State} {p : Nat}

/-- The processes, their memory and the disk are as before. -/
theorem Evicted.same (cur : t.cur = s.cur) (desks : t.ptab = s.ptab) (mem : t.mem = s.mem)
    (swapdev : t.swapdev = s.swapdev) : Evicted s t where
  cur := cur
  status := fun p => by rw [desks]
  top := fun p => by rw [desks]
  stay := fun p _ => by rw [desks]
  image := by
    intro p _ _ x _
    unfold Bank16k.image diskByte
    rw [desks, mem, swapdev]
  blocks := by
    intro b o changed
    rw [swapdev] at changed
    exact absurd rfl changed

theorem Evicted.refl (s : State) : Evicted s s := Evicted.same rfl rfl rfl rfl

theorem dead_congr {q r : Proc} (h : q.status = r.status) : q.dead ↔ r.dead := by
  unfold Proc.dead
  rw [h]

theorem Evicted.trans (h : Evicted s t) (k : Evicted t u) : Evicted s u where
  cur := k.cur.trans h.cur
  status := fun p => (k.status p).trans (h.status p)
  top := fun p => (k.top p).trans (h.top p)
  stay := by
    intro p there
    have first := h.stay p there
    have second : u.ptab p = t.ptab p := by
      apply k.stay
      rw [first]
      exact there
    exact second.trans first
  image := by
    intro p hp alive x hx
    have alive' : ¬ (t.ptab p).dead := fun dead => alive ((dead_congr (h.status p)).mp dead)
    exact (k.image p hp alive' x hx).trans (h.image p hp alive x hx)
  blocks := by
    intro b o changed
    by_cases later : u.swapdev b o = t.swapdev b o
    · rw [later] at changed
      obtain ⟨p, hp, before, after, range⟩ := h.blocks b o changed
      have same := k.stay p (Or.inl after.2)
      rw [← same] at after range
      exact ⟨p, hp, before, after, range⟩
    · obtain ⟨p, hp, before, after, range⟩ := k.blocks b o later
      refine ⟨p, hp, ⟨?_, ?_⟩, after, range⟩
      · exact fun dead => before.1 ((dead_congr (h.status p)).mpr dead)
      · intro gone
        apply before.2
        rw [h.stay p (Or.inl gone)]
        exact gone

/-- The slot 0 is taken for the end of the swap, and lost. -/
theorem Kept.popSlot (kept : Kept pool hand lost s) (some : s.swapptr ≠ 0) :
    Kept pool hand lost s.popSlot where
  unique := kept.unique
  size := kept.size
  proper := kept.proper
  pages := kept.pages
  slots := by
    intro x
    have before := kept.slots x
    have popped := count_popSlot some x
    show (slotList s.popSlot).count x + lost.count x +
      total PTABSIZE (fun p => (slotOf (s.ptab p)).count x) ≤ 1
    omega
  laid := kept.laid
  folded := kept.folded

theorem Evicted.popSlot (s : State) : Evicted s s.popSlot := Evicted.same rfl rfl rfl rfl

/-- The entry of a process in slot `n`. -/
def Proc.gone (q : Proc) (n : Nat) : Proc :=
  { q with page := fun i => if i = 2 then n % 256 else if i = 3 then n / 256 else 0 }

theorem gone_noPage (q : Proc) (n : Nat) : (q.gone n).noPage := ⟨rfl, rfl⟩

@[simp] theorem gone_page2 (q : Proc) (n : Nat) : (q.gone n).page2 = n := by
  show n % 256 + 256 * (n / 256) = n
  omega

theorem evict_ptab (s : State) (p : Nat) :
    (s.evict p).ptab = put s.ptab p ((s.ptab p).gone s.slot) := rfl

/-- The image that has gone to the disk. -/
theorem evict_disk (s : State) (p : Nat) {y : Nat} (h : swapped y) :
    diskByte (s.evict p) s.slot y = s.mem ((s.ptab p).page (y / PAGESIZE)) (y % PAGESIZE) :=
  written_same _ _ h

theorem evict_disk_other (s : State) (p : Nat) {m y : Nat} (other : m ≠ s.slot) (h : swapped y) :
    diskByte (s.evict p) m y = diskByte s m y :=
  written_other _ other h

theorem Kept.slot_free (kept : Kept pool hand lost s) (some : s.swapptr ≠ 0)
    (hp : p < PTABSIZE) (away : (s.ptab p).away) : (s.ptab p).page2 ≠ s.slot := by
  intro same
  apply (kept.slot_apart hp away).1
  rw [same]
  exact slot_mem some

/-- The copies of the last page have the same bytes. -/
theorem laid_folded {q : Proc} (laid : q.laidOut) (mem : Nat → Nat → UInt8) :
    Folded (fun y => mem (q.page (y / PAGESIZE)) (y % PAGESIZE)) (mapsNeeded q.top) := by
  intro i j y hi hi' hj hj' hy _ _
  have last : ∀ k, mapsNeeded q.top - 1 ≤ k → k < 4 → q.page k = q.page (mapsNeeded q.top - 1) := by
    intro k low high
    by_cases here : k = mapsNeeded q.top - 1
    · rw [here]
    · exact laid k (by omega) high
  have bank : ∀ k, (k * PAGESIZE + y) / PAGESIZE = k ∧ (k * PAGESIZE + y) % PAGESIZE = y := by
    intro k
    unfold PAGESIZE at hy ⊢
    omega
  simp only [(bank i).1, (bank i).2, (bank j).1, (bank j).2]
  rw [last i hi hi', last j hj hj']

theorem Kept.evict (kept : Kept pool hand lost s) (hp : p < PTABSIZE)
    (there : (s.ptab p).resident) (some : s.swapptr ≠ 0) :
    Kept pool hand lost (s.evict p) := by
  have noPage := gone_noPage (s.ptab p) s.slot
  have away : ((s.ptab p).gone s.slot).away := ⟨there.1, noPage⟩
  have pushed : freeList (s.evict p) = freeList s ++ held (s.ptab p) := by
    rw [← kept.pagesOf_held hp there]
    exact freeList_push s.popSlot _
  refine kept.change hp (evict_ptab s p) ?_ ?_ (fun r => absurd noPage r.2) ?_ ?_
  · intro x
    have none : held ((s.ptab p).gone s.slot) = [] := held_none fun r => r.2 noPage
    rw [pushed, none, List.count_append, List.count_nil]
    omega
  · intro x
    have popped := count_popSlot some x
    have before : slotOf (s.ptab p) = [] := slotOf_none fun a => there.2 a.2
    rw [slotOf_away away, gone_page2, before, List.count_nil]
    show (slotList s.popSlot).count x + lost.count x + [s.slot].count x ≤ _
    omega
  · intro _ i j y hi hi' hj hj' hy one two
    rw [gone_page2, evict_disk s p one, evict_disk s p two]
    exact laid_folded (kept.laid p hp there) s.mem i j y hi hi' hj hj' hy one two
  · intro r hr _ too x hx
    exact evict_disk_other s p (kept.slot_free some hr too) hx

theorem Kept.evicted (kept : Kept pool hand lost s) (hp : p < PTABSIZE)
    (there : (s.ptab p).resident) (idle : (s.ptab p).status ≠ .running) (some : s.swapptr ≠ 0) :
    Evicted s (s.evict p) where
  cur := rfl
  status := by
    intro r
    rw [evict_ptab]
    by_cases here : r = p
    · subst here
      rw [put_same]
      rfl
    · rw [put_ne _ _ here]
  top := by
    intro r
    rw [evict_ptab]
    by_cases here : r = p
    · subst here
      rw [put_same]
      rfl
    · rw [put_ne _ _ here]
  stay := by
    intro r reason
    have other : r ≠ p := by
      intro same
      subst same
      rcases reason with noPage | running
      · exact there.2 noPage
      · exact idle running
    rw [evict_ptab, put_ne _ _ other]
  image := by
    intro r hr alive x hx
    rw [evict_ptab]
    by_cases here : r = p
    · subst here
      rw [put_same]
      have after : image (s.evict r) ((s.ptab r).gone s.slot) x =
          diskByte (s.evict r) ((s.ptab r).gone s.slot).page2 x := if_pos (gone_noPage _ _)
      have before : image s (s.ptab r) x =
          s.mem ((s.ptab r).page (x / PAGESIZE)) (x % PAGESIZE) := if_neg there.2
      rw [after, before, gone_page2, evict_disk s r hx]
    · rw [put_ne _ _ here]
      by_cases noPage : (s.ptab r).noPage
      · have after : image (s.evict p) (s.ptab r) x =
            diskByte (s.evict p) (s.ptab r).page2 x := if_pos noPage
        have before : image s (s.ptab r) x = diskByte s (s.ptab r).page2 x := if_pos noPage
        rw [after, before, evict_disk_other s p (kept.slot_free some hr ⟨alive, noPage⟩) hx]
      · have after : image (s.evict p) (s.ptab r) x =
            s.mem ((s.ptab r).page (x / PAGESIZE)) (x % PAGESIZE) := if_neg noPage
        have before : image s (s.ptab r) x =
            s.mem ((s.ptab r).page (x / PAGESIZE)) (x % PAGESIZE) := if_neg noPage
        rw [after, before]
  blocks := by
    intro b o changed
    have inside : s.slot * SWAP_SIZE ≤ b ∧ b < s.slot * SWAP_SIZE + SWAP_SIZE := by
      by_cases here : s.slot * SWAP_SIZE ≤ b ∧ b < s.slot * SWAP_SIZE + SWAP_SIZE ∧ o < 512
      · exact ⟨here.1, here.2.1⟩
      · exact absurd (if_neg here) changed
    refine ⟨p, hp, there, ?_⟩
    rw [evict_ptab, put_same, gone_page2]
    exact ⟨⟨there.1, gone_noPage _ _⟩, inside⟩

end Evict

/-! ## Making room -/

section Room
variable {pool hand lost : List Nat} {s : State} {p n needed : Nat}

/-- What can be swapped out when `notself` is set. -/
def Candidate (s : State) (n : Nat) : Prop :=
  n < PTABSIZE ∧ ¬ (s.ptab n).noPage ∧ (s.ptab n).status ≠ .running ∧ (s.ptab n).status ≠ .empty

theorem look_candidates (s : State) (p : Option Nat) (order : List Nat)
    (bound : ∀ c, c ∈ order → c < PTABSIZE) (found : Option Nat × Option Nat × Nat)
    (ready : ∀ n, found.1 = some n → Candidate s n)
    (waits : ∀ n, found.2.1 = some n → Candidate s n) :
    (∀ n, (order.foldl (look s p) found).1 = some n → Candidate s n) ∧
      (∀ n, (order.foldl (look s p) found).2.1 = some n → Candidate s n) := by
  induction order generalizing found with
  | nil => exact ⟨ready, waits⟩
  | cons c order ih =>
    have hc := bound c List.mem_cons_self
    have one : (∀ n, (look s p found c).1 = some n → Candidate s n) ∧
        (∀ n, (look s p found c).2.1 = some n → Candidate s n) := by
      obtain ⟨r, f, sc⟩ := found
      unfold look
      by_cases noPage : (s.ptab c).noPage
      · simp only [noPage, if_true]
        exact ⟨ready, waits⟩
      · have last : ∀ n, (if (s.ptab c).status = .ready then some c else r) = some n →
            Candidate s n := by
          intro n same
          by_cases here : (s.ptab c).status = .ready
          · rw [if_pos here] at same
            cases same
            exact ⟨hc, noPage, by rw [here]; decide, by rw [here]; decide⟩
          · rw [if_neg here] at same
            exact ready n same
        simp only [noPage, if_false]
        split
        · rename_i waiting
          refine ⟨last, fun n same => ?_⟩
          cases same
          refine ⟨hc, noPage, ?_, ?_⟩
          · intro running
            rw [running] at waiting
            exact absurd waiting.1 (by decide)
          · intro empty
            rw [empty] at waiting
            exact absurd waiting.1 (by decide)
        · exact ⟨last, waits⟩
    exact ih (fun c' hc' => bound c' (List.mem_cons_of_mem _ hc')) _ one.1 one.2

/-- Both searches begin with the next process and go round the table. -/
theorem round_candidates (s : State) (r : Option Nat) {found : Option Nat × Option Nat × Nat}
    (rounded : ((List.range PTABSIZE).map (fun k => (s.nextp + k) % PTABSIZE)).foldl (look s r)
      (none, none, 0) = found) :
    (∀ n, found.1 = some n → Candidate s n) ∧ ∀ n, found.2.1 = some n → Candidate s n := by
  rw [← rounded]
  apply look_candidates s r
  · intro c hc
    obtain ⟨k, hk, rfl⟩ := List.mem_map.mp hc
    have positive := List.mem_range.mp hk
    exact Nat.mod_lt _ (by omega)
  · intro n no
    cases no
  · intro n no
    cases no

theorem victim_candidate {r : Option Nat} (h : swapvictim s r true = some n) : Candidate s n := by
  have both := round_candidates s r rfl
  unfold swapvictim at h
  simp only [if_true] at h
  split at h
  · rename_i f same
    exact both.2 n (same.trans h)
  · exact both.1 n h

/-- With `notself` clear it may be the current process too. -/
theorem victim_or_self {r : Option Nat} (h : swapvictim s r false = some n) :
    Candidate s n ∨ n = s.cur := by
  have both := round_candidates s r rfl
  unfold swapvictim at h
  simp only [Bool.false_eq_true, if_false] at h
  split at h
  · rename_i f same
    exact Or.inl (both.2 n (same.trans h))
  · cases h
    exact Or.inr rfl

/-- The rounds of `pagemap_alloc2` swap out no process that has exited. -/
def spares (p needed : Nat) : Nat → State → Prop
  | 0, _ => True
  | slots + 1, s => s.pfptr < needed → s.slot ≠ 0 → ∀ n ∈ swapvictim s (some p) true,
    ¬ (s.ptab n).dead ∧ spares p needed slots (s.evict n)

/-- They find enough room, too. -/
def roomy (p needed : Nat) : Nat → State → Prop
  | 0, s => needed ≤ s.pfptr
  | slots + 1, s => needed ≤ s.pfptr ∨ s.slot ≠ 0 ∧ ∃ n ∈ swapvictim s (some p) true,
    ¬ (s.ptab n).dead ∧ roomy p needed slots (s.evict n)

instance decideSpares (p needed : Nat) : (slots : Nat) → (s : State) →
    Decidable (spares p needed slots s)
  | 0, _ => isTrue trivial
  | slots + 1, s =>
    have := decideSpares p needed slots
    inferInstanceAs (Decidable (s.pfptr < needed → s.slot ≠ 0 → ∀ n ∈ swapvictim s (some p) true,
      ¬ (s.ptab n).dead ∧ spares p needed slots (s.evict n)))

instance decideRoomy (p needed : Nat) : (slots : Nat) → (s : State) →
    Decidable (roomy p needed slots s)
  | 0, s => inferInstanceAs (Decidable (needed ≤ s.pfptr))
  | slots + 1, s =>
    have := decideRoomy p needed slots
    inferInstanceAs (Decidable (needed ≤ s.pfptr ∨ s.slot ≠ 0 ∧
      ∃ n ∈ swapvictim s (some p) true, ¬ (s.ptab n).dead ∧ roomy p needed slots (s.evict n)))

theorem roomy_spares {slots : Nat} (h : roomy p needed slots s) : spares p needed slots s := by
  induction slots generalizing s with
  | zero => exact trivial
  | succ slots ih =>
    intro short _ n victim
    rcases h with enough | ⟨_, m, same, alive, rest⟩
    · omega
    · rw [victim] at same
      cases same
      exact ⟨alive, ih rest⟩

/-- The slots that are left to swap to. -/
def slotsLeft (s : State) : Nat := if Machine.swaps then s.swapptr else 0

theorem wp_swapneeded_none {stop : Panic → Prop} {r : Option Nat} {notself : Bool}
    (h : swapvictim s r notself = none) (Q : Option Nat → State → Prop) :
    wp stop (swapneeded r notself) Q s ↔ Q none s := by
  unfold swapneeded
  rw [wp_bind, wp_get, h]
  exact Iff.rfl

theorem wp_swapneeded_some {stop : Panic → Prop} {r : Option Nat} {notself : Bool}
    (h : swapvictim s r notself = some n) (Q : Option Nat → State → Prop) :
    wp stop (swapneeded r notself) Q s ↔
      wp stop (swapout n) (fun full t => Q (if full then none else some n) t) s := by
  unfold swapneeded
  rw [wp_bind, wp_get, h]
  simp only [wp_bind, wp_pure]

theorem wp_swapout_lost {stop : Panic → Prop} (there : ¬ (s.ptab n).noPage)
    (positive : s.swapptr ≠ 0) (zero : s.slot = 0) (Q : Bool → State → Prop) :
    wp stop (swapout n) Q s ↔ Q true s.popSlot := by
  have slot : s.swapmap (s.swapptr - 1) = 0 := zero
  simp [swapout, swapmapAlloc, there, positive, slot]
  rfl

/-- With a process to swap out, either it goes or the swap is at its end. -/
theorem wp_swapneeded {stop : Panic → Prop} {r : Option Nat} {notself : Bool}
    (kept : Kept pool hand lost s) (h : swapvictim s r notself = some n) (hn : n < PTABSIZE)
    (there : (s.ptab n).resident) (Q : Option Nat → State → Prop) :
    wp stop (swapneeded r notself) Q s ↔
      if s.swapptr = 0 then Q none s else if s.slot = 0 then Q none s.popSlot
      else Q (some n) (s.evict n) := by
  have small : s.pfptr + (s.pagesOf n).length < 256 := by
    have room := kept.room hn
    rw [kept.pagesOf_held hn there]
    omega
  rw [wp_swapneeded_some h, wp_swapout there.2 _ small]
  rfl

theorem wp_makeRoom_enough {stop : Panic → Prop} {slots : Nat} (enough : needed ≤ s.pfptr)
    (Q : Bool → State → Prop) : wp stop (makeRoom p needed slots) Q s ↔ Q true s := by
  cases slots with
  | zero => simp [makeRoom, enough]
  | succ slots => simp [makeRoom, enough]

theorem wp_makeRoom_zero {stop : Panic → Prop} (short : ¬ needed ≤ s.pfptr)
    (Q : Bool → State → Prop) : wp stop (makeRoom p needed 0) Q s ↔
      wp stop (swapneeded (some p) true) (fun _ t => Q false t) s := by
  simp only [makeRoom, wp_bind, wp_get, wp_ite, short, wp_pure, false_implies, true_and,
    not_false_eq_true, true_implies]

theorem wp_makeRoom_succ {stop : Panic → Prop} {slots : Nat} (short : ¬ needed ≤ s.pfptr)
    (Q : Bool → State → Prop) : wp stop (makeRoom p needed (slots + 1)) Q s ↔
      wp stop (swapneeded (some p) true) (fun victim t =>
        (victim = none → Q false t) ∧
        (victim ≠ none → wp stop (makeRoom p needed slots) Q t)) s := by
  rw [makeRoom]
  simp only [wp_bind, wp_get, wp_ite, short, false_implies, true_and, not_false_eq_true,
    true_implies]
  constructor
  · intro h
    refine wp_mono h ?_
    intro victim t post
    cases victim with
    | none => exact ⟨fun _ => post, fun no => absurd rfl no⟩
    | some n => exact ⟨(fun no => by cases no), fun _ => post⟩
  · intro h
    refine wp_mono h ?_
    intro victim t post
    cases victim with
    | none => exact post.1 rfl
    | some n => exact post.2 (fun no => by cases no)

/-- The loop of `pagemap_alloc2`. Every round swaps out one process, or fails. -/
theorem wp_makeRoom {stop : Panic → Prop} {slots : Nat} (kept : Kept pool hand lost s)
    (left : slots = s.swapptr) (safe : spares p needed slots s) :
    wp stop (makeRoom p needed slots) (fun found t => Kept pool hand lost t ∧ Evicted s t ∧
      (found = true → needed ≤ t.pfptr) ∧ (roomy p needed slots s → found = true)) s := by
  induction slots generalizing s with
  | zero =>
    by_cases enough : needed ≤ s.pfptr
    · rw [wp_makeRoom_enough enough]
      exact ⟨kept, Evicted.refl s, fun _ => enough, fun _ => rfl⟩
    · rw [wp_makeRoom_zero enough]
      have fail : Kept pool hand lost s ∧ Evicted s s ∧ (false = true → needed ≤ s.pfptr) ∧
          (roomy p needed 0 s → false = true) :=
        ⟨kept, Evicted.refl s, (fun no => by cases no), fun room => absurd room enough⟩
      cases victim : swapvictim s (some p) true with
      | none =>
        rw [wp_swapneeded_none victim]
        exact fail
      | some n =>
        have can := victim_candidate victim
        rw [wp_swapneeded_some victim]
        have run : ∀ Q : Bool → State → Prop, wp stop (swapout n) Q s ↔ Q true s := by
          intro Q
          simp [swapout, swapmapAlloc, can.2.1, ← left]
        rw [run]
        exact fail
  | succ slots ih =>
    by_cases enough : needed ≤ s.pfptr
    · rw [wp_makeRoom_enough enough]
      exact ⟨kept, Evicted.refl s, fun _ => enough, fun _ => rfl⟩
    · rw [wp_makeRoom_succ enough]
      have positive : s.swapptr ≠ 0 := by omega
      have below : slots = s.swapptr - 1 := by omega
      cases victim : swapvictim s (some p) true with
      | none =>
        rw [wp_swapneeded_none victim]
        refine ⟨fun _ => ⟨kept, Evicted.refl s, (fun no => by cases no), ?_⟩, fun no => absurd rfl no⟩
        intro room
        rcases room with enough' | ⟨_, n, same, _⟩
        · exact absurd enough' enough
        · rw [victim] at same
          cases same
      | some n =>
        obtain ⟨hn, there, idle, used⟩ := victim_candidate victim
        by_cases zero : s.slot = 0
        · rw [wp_swapneeded_some victim, wp_swapout_lost there positive zero]
          refine ⟨fun _ => ⟨kept.popSlot positive, Evicted.popSlot s, (fun no => by cases no), ?_⟩,
            fun no => absurd rfl no⟩
          intro room
          rcases room with enough' | ⟨other, _⟩
          · exact absurd enough' enough
          · exact absurd zero other
        · have next := safe (Nat.lt_of_not_le enough) zero n victim
          have resident : (s.ptab n).resident := ⟨next.1, there⟩
          rw [wp_swapneeded kept victim hn resident, if_neg positive, if_neg zero]
          refine ⟨(fun no => by cases no), fun _ => ?_⟩
          refine wp_mono (ih (kept.evict hn resident positive) below next.2) ?_
          intro found t post
          obtain ⟨keeps, moved, enough', finds⟩ := post
          refine ⟨keeps, (kept.evicted hn resident idle positive).trans moved, enough', ?_⟩
          intro room
          rcases room with already | ⟨_, m, same, _, rest⟩
          · exact absurd already enough
          · rw [victim] at same
            cases same
            exact finds rest

/-- `pagemap_alloc2` looks for room. -/
theorem wp_findRoom {stop : Panic → Prop} (kept : Kept pool hand lost s)
    (safe : spares p needed (slotsLeft s) s) :
    wp stop (findRoom p needed) (fun found t => Kept pool hand lost t ∧ Evicted s t ∧
      (found = true → needed ≤ t.pfptr) ∧ (roomy p needed (slotsLeft s) s → found = true)) s := by
  unfold findRoom slotsLeft at *
  rw [wp_bind, wp_get]
  by_cases swaps : Machine.swaps = true
  · rw [if_pos swaps] at safe ⊢
    rw [if_pos swaps]
    exact wp_makeRoom kept rfl safe
  · rw [if_neg swaps, if_neg swaps]
    refine ⟨kept, Evicted.refl s, fun found => of_decide_eq_true found, fun room => ?_⟩
    exact decide_eq_true room

end Room

end Machine

end Bank16k
