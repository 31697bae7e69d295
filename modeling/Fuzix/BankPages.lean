import Fuzix.Bank16k
import Fuzix.Lib.Total
import Fuzix.Lib.Run

/-!
# What the page and swap routines do

Each routine that moves pages or slots is a function of the state before it. A process
that is swapped out has written its four banks to its slot, and its pages are on the
stack.
-/

set_option linter.unusedSectionVars false

namespace Bank16k

open Table Wp

section Machine
variable [Machine]
variable {stop : Panic → Prop} {s : State} {p : Nat}

/-! ## The stack of pages -/

/-- The pages of a list are pushed. -/
def State.push (s : State) (l : List Nat) : State :=
  { s with
    pfree := fun k => if s.pfptr ≤ k ∧ k < s.pfptr + l.length then l.getD (k - s.pfptr) 0
      else s.pfree k
    pfptr := s.pfptr + l.length }

/-- `n` pages are popped. -/
def State.pop (s : State) (n : Nat) : State := { s with pfptr := s.pfptr - n }

/-- The page that is popped after `i` others. -/
def State.free (s : State) (i : Nat) : Nat := s.pfree (s.pfptr - 1 - i)

@[simp] theorem push_nil (s : State) : s.push [] = s := by
  have same : (fun k => if s.pfptr ≤ k ∧ k < s.pfptr + 0 then ([] : List Nat).getD (k - s.pfptr) 0
      else s.pfree k) = s.pfree := by
    funext k
    have outside : ¬ (s.pfptr ≤ k ∧ k < s.pfptr + 0) := by omega
    rw [if_neg outside]
  show { s with pfree := _, pfptr := _ } = s
  rw [List.length_nil, same]
  rfl

theorem push_push (s : State) (page : Nat) (l : List Nat) :
    (s.push [page]).push l = s.push (page :: l) := by
  have same : ((s.push [page]).push l).pfree = (s.push (page :: l)).pfree := by
    funext k
    show (if s.pfptr + 1 ≤ k ∧ k < s.pfptr + 1 + l.length then l.getD (k - (s.pfptr + 1)) 0
      else if s.pfptr ≤ k ∧ k < s.pfptr + 1 then [page].getD (k - s.pfptr) 0 else s.pfree k) =
      if s.pfptr ≤ k ∧ k < s.pfptr + (l.length + 1) then (page :: l).getD (k - s.pfptr) 0
      else s.pfree k
    by_cases here : k = s.pfptr
    · subst here
      have first : ¬ (s.pfptr + 1 ≤ s.pfptr ∧ s.pfptr < s.pfptr + 1 + l.length) := by omega
      have one : s.pfptr ≤ s.pfptr ∧ s.pfptr < s.pfptr + 1 := by omega
      have all : s.pfptr ≤ s.pfptr ∧ s.pfptr < s.pfptr + (l.length + 1) := by omega
      rw [if_neg first, if_pos one, if_pos all, Nat.sub_self]
      rfl
    · have one : ¬ (s.pfptr ≤ k ∧ k < s.pfptr + 1) := by omega
      rw [if_neg one]
      by_cases later : s.pfptr + 1 ≤ k ∧ k < s.pfptr + 1 + l.length
      · have all : s.pfptr ≤ k ∧ k < s.pfptr + (l.length + 1) := by omega
        have next : k - s.pfptr = k - (s.pfptr + 1) + 1 := by omega
        rw [if_pos later, if_pos all, next]
        rfl
      · have all : ¬ (s.pfptr ≤ k ∧ k < s.pfptr + (l.length + 1)) := by omega
        rw [if_neg later, if_neg all]
  have ptr : ((s.push [page]).push l).pfptr = (s.push (page :: l)).pfptr := by
    show s.pfptr + 1 + l.length = s.pfptr + (l.length + 1)
    omega
  show { s with pfree := ((s.push [page]).push l).pfree, pfptr := ((s.push [page]).push l).pfptr } = _
  rw [same, ptr]
  rfl

theorem freeList_push (s : State) (l : List Nat) : freeList (s.push l) = freeList s ++ l := by
  have below : (List.range s.pfptr).map (s.push l).pfree = freeList s := by
    apply List.map_congr_left
    intro k hk
    have inside := List.mem_range.mp hk
    have outside : ¬ (s.pfptr ≤ k ∧ k < s.pfptr + l.length) := by omega
    show (if s.pfptr ≤ k ∧ k < s.pfptr + l.length then _ else _) = _
    rw [if_neg outside]
  have above : ((List.range l.length).map (fun k => s.pfptr + k)).map (s.push l).pfree = l := by
    apply List.ext_getElem
    · simp
    · intro k h h'
      have inside : s.pfptr ≤ s.pfptr + k ∧ s.pfptr + k < s.pfptr + l.length := by omega
      simp [State.push, inside, List.getElem?_eq_getElem h']
  show (List.range (s.pfptr + l.length)).map (s.push l).pfree = _
  rw [List.range_add, List.map_append, below, above]

theorem wp_pushPage (page : Nat) (Q : Unit → State → Prop) (small : s.pfptr + 1 < 256) :
    wp stop (pushPage page) Q s ↔ Q () (s.push [page]) := by
  have same : put s.pfree s.pfptr page = (s.push [page]).pfree := by
    funext k
    show (if k = s.pfptr then page else s.pfree k) = if s.pfptr ≤ k ∧ k < s.pfptr + 1 then
      [page].getD (k - s.pfptr) 0 else s.pfree k
    by_cases here : k = s.pfptr
    · subst here
      rw [if_pos rfl, if_pos ⟨Nat.le_refl _, by omega⟩, Nat.sub_self]
      rfl
    · have outside : ¬ (s.pfptr ≤ k ∧ k < s.pfptr + 1) := by omega
      rw [if_neg here, if_neg outside]
  have state : { s with pfree := put s.pfree s.pfptr page, pfptr := (s.pfptr + 1) % 256 } =
      s.push [page] := by
    rw [same, Nat.mod_eq_of_lt small]
    rfl
  show Q () { s with pfree := put s.pfree s.pfptr page, pfptr := (s.pfptr + 1) % 256 } ↔ _
  rw [state]

theorem wp_popPage (Q : Nat → State → Prop) (some : 0 < s.pfptr) (small : s.pfptr < 256) :
    wp stop popPage Q s ↔ Q (s.free 0) (s.pop 1) := by
  have ptr : (s.pfptr + 255) % 256 = s.pfptr - 1 := by omega
  have run : wp stop popPage Q s ↔
      Q (s.pfree ((s.pfptr + 255) % 256)) { s with pfptr := (s.pfptr + 255) % 256 } := Iff.rfl
  rw [run, ptr]
  rfl

/-- The pages that `pagemap_free` pushes. -/
def freed (page : Nat → Nat) : Nat → Nat → Nat → List Nat
  | 0, _, _ => []
  | n + 1, i, last =>
    if page i ≠ last then page i :: freed page n (i + 1) (page i)
    else freed page n (i + 1) last

theorem wp_freeMaps (page : Nat → Nat) (n i last : Nat) (Q : Unit → State → Prop)
    (small : s.pfptr + (freed page n i last).length < 256) :
    wp stop (freeMaps page n i last) Q s ↔ Q () (s.push (freed page n i last)) := by
  induction n generalizing i last s with
  | zero =>
    show Q () s ↔ Q () (s.push [])
    rw [push_nil]
  | succ n ih =>
    by_cases again : page i = last
    · have same : freed page (n + 1) i last = freed page n (i + 1) last := by
        simp [freed, again]
      rw [same] at small ⊢
      have pass : freeMaps page (n + 1) i last = freeMaps page n (i + 1) last := by
        simp [freeMaps, again]
      rw [pass]
      exact ih (i + 1) last small
    · have cons : freed page (n + 1) i last = page i :: freed page n (i + 1) (page i) := by
        simp [freed, again]
      rw [cons, List.length_cons] at small
      have step : freeMaps page (n + 1) i last =
          (pushPage (page i) >>= fun _ => freeMaps page n (i + 1) (page i)) := by
        simp [freeMaps, again]
      have rest : (s.push [page i]).pfptr + (freed page n (i + 1) (page i)).length < 256 := by
        show s.pfptr + 1 + _ < 256
        omega
      rw [step, wp_bind, wp_pushPage _ _ (by omega), ih _ _ rest, cons, push_push]

theorem wp_pagemapFree (Q : Unit → State → Prop)
    (small : s.pfptr + (freed (s.ptab p).page 4 0 NO_PAGE).length < 256) :
    wp stop (pagemapFree p) Q s ↔ Q () (s.push (freed (s.ptab p).page 4 0 NO_PAGE)) :=
  wp_freeMaps _ 4 0 NO_PAGE Q small

/-! ## Slots -/

/-- The slot that is popped next. -/
def State.slot (s : State) : Nat := s.swapmap (s.swapptr - 1)

def State.popSlot (s : State) : State := { s with swapptr := s.swapptr - 1 }

/-- The addresses that are swapped. -/
def swapped (x : Nat) : Prop := SWAPBASE ≤ x ∧ x < SWAPBASE + 512 * SWAP_SIZE

instance (x : Nat) : Decidable (swapped x) := by unfold swapped; infer_instance

/-- Where the byte at `x` is on the disk. -/
def diskByte (s : State) (slot x : Nat) : UInt8 :=
  s.swapdev (slot * SWAP_SIZE + (x - SWAPBASE) / 512) ((x - SWAPBASE) % 512)

theorem swapped_lt {x : Nat} (h : swapped x) : x < 65536 := by
  have high := Machine.sizeHigh
  have align := Machine.baseAlign
  unfold swapped at h
  omega

/-- The block with the byte at `x` is in the slot. -/
theorem swapped_block {x : Nat} (h : swapped x) (slot : Nat) :
    slot * SWAP_SIZE ≤ slot * SWAP_SIZE + (x - SWAPBASE) / 512 ∧
      slot * SWAP_SIZE + (x - SWAPBASE) / 512 < slot * SWAP_SIZE + SWAP_SIZE := by
  unfold swapped at h
  omega

/-- The first block of bank `i` within a slot, and the number of its blocks. -/
def bankBlock (i : Nat) : Nat := if i = 0 then 0 else 0x20 * i - SWAPBASE / 512

def bankSize (i : Nat) : Nat :=
  if i = 0 then (0x4000 - SWAPBASE) / 512
  else if i = 3 then SWAP_SIZE + SWAPBASE / 512 - 0x60 else 0x20

def bankBase (i : Nat) : Nat := if i = 0 then SWAPBASE else 0x4000 * i

/-- The four transfers, one after the other. -/
theorem wp_swapBanks (xfer : Nat → Nat → Nat → Nat → B Unit) (page : Nat → Nat) (blk : Nat)
    (Q : Unit → State → Prop) :
    wp stop (swapBanks xfer page 4 0 blk ((0x4000 - SWAPBASE) / 512) SWAPBASE) Q s ↔
      wp stop (xfer (blk + bankBlock 0) (bankSize 0) (bankBase 0) (page 0)) (fun _ =>
        wp stop (xfer (blk + bankBlock 1) (bankSize 1) (bankBase 1) (page 1)) (fun _ =>
          wp stop (xfer (blk + bankBlock 2) (bankSize 2) (bankBase 2) (page 2)) (fun _ =>
            wp stop (xfer (blk + bankBlock 3) (bankSize 3) (bankBase 3) (page 3)) Q))) s := by
  have bound := Machine.baseBound
  have align := Machine.baseAlign
  have base₁ : (SWAPBASE + 0x4000) % 65536 / 0x4000 * 0x4000 = 0x4000 := by
    unfold PAGESIZE at bound
    omega
  have blk₁ : bankBlock 1 = (0x4000 - SWAPBASE) / 512 := by
    unfold PAGESIZE at bound
    show 0x20 * 1 - SWAPBASE / 512 = _
    omega
  have blk₂ : bankBlock 2 = (0x4000 - SWAPBASE) / 512 + 0x20 := by
    unfold PAGESIZE at bound
    show 0x20 * 2 - SWAPBASE / 512 = _
    omega
  have blk₃ : bankBlock 3 = (0x4000 - SWAPBASE) / 512 + 0x20 + 0x20 := by
    unfold PAGESIZE at bound
    show 0x20 * 3 - SWAPBASE / 512 = _
    omega
  have banks : swapBanks xfer page 4 0 blk ((0x4000 - SWAPBASE) / 512) SWAPBASE =
      (do
        xfer (blk + bankBlock 0) (bankSize 0) (bankBase 0) (page 0)
        xfer (blk + bankBlock 1) (bankSize 1) (bankBase 1) (page 1)
        xfer (blk + bankBlock 2) (bankSize 2) (bankBase 2) (page 2)
        xfer (blk + bankBlock 3) (bankSize 3) (bankBase 3) (page 3)
        pure ()) := by
    rw [blk₁, blk₂, blk₃]
    simp [swapBanks, base₁, bankBlock, bankSize, bankBase, Nat.add_assoc]
  rw [banks]
  simp only [wp_bind, wp_pure]

/-- The disk after the banks of a map have been written to a slot. -/
def State.written (s : State) (page : Nat → Nat) (slot : Nat) : Nat → Nat → UInt8 := fun b o =>
  let x := SWAPBASE + 512 * (b - slot * SWAP_SIZE) + o
  if slot * SWAP_SIZE ≤ b ∧ b < slot * SWAP_SIZE + SWAP_SIZE ∧ o < 512 then
    s.mem (page (x / PAGESIZE)) (x % PAGESIZE)
  else s.swapdev b o

/-- The blocks of bank `i` hold what is mapped at `i`. -/
theorem bank_block {i blk b o : Nat} (hi : i < 4) (ho : o < 512)
    (low : blk + bankBlock i ≤ b) (high : b < blk + bankBlock i + bankSize i) :
    (SWAPBASE + 512 * (b - blk) + o) / PAGESIZE = i ∧
      (SWAPBASE + 512 * (b - blk) + o) % PAGESIZE =
        bankBase i % PAGESIZE + 512 * (b - (blk + bankBlock i)) + o ∧
      blk ≤ b ∧ b < blk + SWAP_SIZE := by
  have bound := Machine.baseBound
  have align := Machine.baseAlign
  have small := Machine.sizeLow
  have large := Machine.sizeHigh
  simp only [PAGESIZE, bankBlock, bankSize, bankBase] at *
  have four : i = 0 ∨ i = 1 ∨ i = 2 ∨ i = 3 := by omega
  rcases four with rfl | rfl | rfl | rfl
  all_goals
    simp at low high ⊢
    omega

/-- Every block of a slot is one of a bank. -/
theorem block_bank {blk b : Nat} (low : blk ≤ b) (high : b < blk + SWAP_SIZE) :
    ∃ i, i < 4 ∧ blk + bankBlock i ≤ b ∧ b < blk + bankBlock i + bankSize i := by
  have bound := Machine.baseBound
  have align := Machine.baseAlign
  have small := Machine.sizeLow
  simp only [PAGESIZE] at bound
  by_cases first : b - blk < (0x4000 - SWAPBASE) / 512
  · exact ⟨0, by decide, by simp [bankBlock]; omega, by simp [bankBlock, bankSize]; omega⟩
  by_cases second : b - blk < 0x40 - SWAPBASE / 512
  · exact ⟨1, by decide, by simp [bankBlock]; omega, by simp [bankBlock, bankSize]; omega⟩
  by_cases third : b - blk < 0x60 - SWAPBASE / 512
  · exact ⟨2, by decide, by simp [bankBlock]; omega, by simp [bankBlock, bankSize]; omega⟩
  · exact ⟨3, by decide, by simp [bankBlock]; omega, by simp [bankBlock, bankSize]; omega⟩

/-- One bank more is on the disk. -/
def bankWritten (s : State) (page : Nat → Nat) (blk i : Nat) (disk : Nat → Nat → UInt8) :
    Nat → Nat → UInt8 := fun b o =>
  if blk + bankBlock i ≤ b ∧ b < blk + bankBlock i + bankSize i ∧ o < 512 then
    s.mem (page i) (bankBase i % PAGESIZE + 512 * (b - (blk + bankBlock i)) + o)
  else disk b o

theorem bankWritten_in (s : State) (page : Nat → Nat) {blk i b o : Nat} (hi : i < 4)
    (disk : Nat → Nat → UInt8) (ho : o < 512) (low : blk + bankBlock i ≤ b)
    (high : b < blk + bankBlock i + bankSize i) :
    bankWritten s page blk i disk b o =
      s.mem (page ((SWAPBASE + 512 * (b - blk) + o) / PAGESIZE))
        ((SWAPBASE + 512 * (b - blk) + o) % PAGESIZE) := by
  obtain ⟨bank, offset, _, _⟩ := bank_block hi ho low high
  rw [bank, offset]
  exact if_pos ⟨low, high, ho⟩

theorem wp_writeBanks (page : Nat → Nat) (slot : Nat) (Q : Unit → State → Prop) :
    wp stop (swapBanks swapwrite page 4 0 (slot * SWAP_SIZE) ((0x4000 - SWAPBASE) / 512) SWAPBASE)
      Q s ↔ Q () { s with swapdev := s.written page slot } := by
  rw [wp_swapBanks]
  have disk : bankWritten s page (slot * SWAP_SIZE) 3 (bankWritten s page (slot * SWAP_SIZE) 2
      (bankWritten s page (slot * SWAP_SIZE) 1 (bankWritten s page (slot * SWAP_SIZE) 0
        s.swapdev))) = s.written page slot := by
    funext b o
    by_cases inside : slot * SWAP_SIZE ≤ b ∧ b < slot * SWAP_SIZE + SWAP_SIZE ∧ o < 512
    · obtain ⟨low, high, ho⟩ := inside
      have value : s.written page slot b o = s.mem
          (page ((SWAPBASE + 512 * (b - slot * SWAP_SIZE) + o) / PAGESIZE))
          ((SWAPBASE + 512 * (b - slot * SWAP_SIZE) + o) % PAGESIZE) := if_pos ⟨low, high, ho⟩
      -- a later bank that has the block too stores the same byte
      have keep : ∀ i, i < 4 → ∀ disk, disk b o = s.written page slot b o →
          bankWritten s page (slot * SWAP_SIZE) i disk b o = s.written page slot b o := by
        intro i hi disk same
        by_cases here : slot * SWAP_SIZE + bankBlock i ≤ b ∧
            b < slot * SWAP_SIZE + bankBlock i + bankSize i ∧ o < 512
        · rw [bankWritten_in s page hi disk ho here.1 here.2.1, value]
        · exact (if_neg here).trans same
      obtain ⟨i, hi, from', upTo⟩ := block_bank low high
      have store : ∀ disk, bankWritten s page (slot * SWAP_SIZE) i disk b o =
          s.written page slot b o := by
        intro disk
        rw [bankWritten_in s page hi disk ho from' upTo, value]
      have four : i = 0 ∨ i = 1 ∨ i = 2 ∨ i = 3 := by omega
      rcases four with rfl | rfl | rfl | rfl
      · exact keep 3 (by decide) _ (keep 2 (by decide) _ (keep 1 (by decide) _ (store _)))
      · exact keep 3 (by decide) _ (keep 2 (by decide) _ (store _))
      · exact keep 3 (by decide) _ (store _)
      · exact store _
    · have other : ∀ i, i < 4 → ∀ disk,
          bankWritten s page (slot * SWAP_SIZE) i disk b o = disk b o := by
        intro i hi disk
        refine if_neg fun here => inside ?_
        obtain ⟨_, _, low, high⟩ := bank_block hi here.2.2 here.1 here.2.1
        exact ⟨low, high, here.2.2⟩
      rw [other 3 (by decide), other 2 (by decide), other 1 (by decide), other 0 (by decide)]
      exact (if_neg inside).symm
  rw [← disk]
  exact Iff.rfl

/-- Where bank `i` has the byte at `y` of its page. -/
theorem bank_byte {i y : Nat} (hi : i < 4) (hy : y < PAGESIZE) :
    (bankBase i % PAGESIZE ≤ y ∧ y < bankBase i % PAGESIZE + 512 * bankSize i ↔
      swapped (i * PAGESIZE + y)) ∧
    (bankBase i % PAGESIZE ≤ y →
      bankBlock i + (y - bankBase i % PAGESIZE) / 512 = (i * PAGESIZE + y - SWAPBASE) / 512 ∧
      (y - bankBase i % PAGESIZE) % 512 = (i * PAGESIZE + y - SWAPBASE) % 512) := by
  have bound := Machine.baseBound
  have align := Machine.baseAlign
  have small := Machine.sizeLow
  have large := Machine.sizeHigh
  simp only [PAGESIZE, swapped, bankBlock, bankSize, bankBase] at *
  have four : i = 0 ∨ i = 1 ∨ i = 2 ∨ i = 3 := by omega
  rcases four with rfl | rfl | rfl | rfl
  all_goals
    simp
    omega

/-- One bank more is in memory. -/
def bankRead (s : State) (page : Nat → Nat) (slot i : Nat) (mem : Nat → Nat → UInt8) :
    Nat → Nat → UInt8 := fun q x =>
  if q = page i ∧ bankBase i % PAGESIZE ≤ x ∧ x < bankBase i % PAGESIZE + 512 * bankSize i then
    s.swapdev (slot * SWAP_SIZE + bankBlock i + (x - bankBase i % PAGESIZE) / 512)
      ((x - bankBase i % PAGESIZE) % 512)
  else mem q x

/-- Memory when the banks of a slot have been read into a map. -/
def State.readBanks (s : State) (page : Nat → Nat) (slot : Nat) : Nat → Nat → UInt8 :=
  bankRead s page slot 3 (bankRead s page slot 2 (bankRead s page slot 1 (bankRead s page slot 0 s.mem)))

theorem wp_readBanks (page : Nat → Nat) (slot : Nat) (Q : Unit → State → Prop) :
    wp stop (swapBanks swapread page 4 0 (slot * SWAP_SIZE) ((0x4000 - SWAPBASE) / 512) SWAPBASE)
      Q s ↔ Q () { s with mem := s.readBanks page slot } := by
  rw [wp_swapBanks]
  exact Iff.rfl

/-- A page that is not in the map keeps its bytes. -/
theorem readBanks_other {page : Nat → Nat} {q : Nat} (other : ∀ i, i < 4 → page i ≠ q)
    (slot x : Nat) : s.readBanks page slot q x = s.mem q x := by
  have pass : ∀ i, i < 4 → ∀ mem, bankRead s page slot i mem q x = mem q x :=
    fun i hi mem => if_neg fun here => other i hi here.1.symm
  unfold State.readBanks
  rw [pass 3 (by decide), pass 2 (by decide), pass 1 (by decide), pass 0 (by decide)]

theorem bankRead_in (page : Nat → Nat) (slot : Nat) {i y : Nat} (hi : i < 4) (hy : y < PAGESIZE)
    (mem : Nat → Nat → UInt8) (inside : swapped (i * PAGESIZE + y)) :
    bankRead s page slot i mem (page i) y = diskByte s slot (i * PAGESIZE + y) := by
  obtain ⟨range, place⟩ := bank_byte hi hy
  have here := range.mpr inside
  obtain ⟨block, offset⟩ := place here.1
  have value : bankRead s page slot i mem (page i) y =
      s.swapdev (slot * SWAP_SIZE + bankBlock i + (y - bankBase i % PAGESIZE) / 512)
        ((y - bankBase i % PAGESIZE) % 512) := if_pos ⟨rfl, here⟩
  rw [value, Nat.add_assoc, block, offset]
  rfl

/-- A byte of the map comes from the slot, from the last bank that has its page. -/
theorem readBanks_in (page : Nat → Nat) (slot : Nat) {i y : Nat} (hi : i < 4) (hy : y < PAGESIZE)
    (inside : swapped (i * PAGESIZE + y)) :
    ∃ j, j < 4 ∧ page j = page i ∧ swapped (j * PAGESIZE + y) ∧
      s.readBanks page slot (page i) y = diskByte s slot (j * PAGESIZE + y) := by
  have store : ∀ mem, ∃ j, j < 4 ∧ page j = page i ∧ swapped (j * PAGESIZE + y) ∧
      bankRead s page slot i mem (page i) y = diskByte s slot (j * PAGESIZE + y) :=
    fun mem => ⟨i, hi, rfl, inside, bankRead_in page slot hi hy mem inside⟩
  have keep : ∀ k, k < 4 → ∀ mem, (∃ j, j < 4 ∧ page j = page i ∧ swapped (j * PAGESIZE + y) ∧
      mem (page i) y = diskByte s slot (j * PAGESIZE + y)) →
      ∃ j, j < 4 ∧ page j = page i ∧ swapped (j * PAGESIZE + y) ∧
        bankRead s page slot k mem (page i) y = diskByte s slot (j * PAGESIZE + y) := by
    intro k hk mem before
    by_cases here : page k = page i ∧ swapped (k * PAGESIZE + y)
    · refine ⟨k, hk, here.1, here.2, ?_⟩
      rw [← here.1]
      exact bankRead_in page slot hk hy mem here.2
    · have pass : bankRead s page slot k mem (page i) y = mem (page i) y := by
        refine if_neg fun inRange => here ⟨inRange.1.symm, ?_⟩
        exact (bank_byte hk hy).1.mp inRange.2
      rw [pass]
      exact before
  have four : i = 0 ∨ i = 1 ∨ i = 2 ∨ i = 3 := by omega
  rcases four with rfl | rfl | rfl | rfl
  · exact keep 3 (by decide) _ (keep 2 (by decide) _ (keep 1 (by decide) _ (store _)))
  · exact keep 3 (by decide) _ (keep 2 (by decide) _ (store _))
  · exact keep 3 (by decide) _ (store _)
  · exact store _

/-! ## Swapping out -/

/-- The pages that process `p` gives back. -/
def State.pagesOf (s : State) (p : Nat) : List Nat := freed (s.ptab p).page 4 0 NO_PAGE

/-- Process `p` has gone to the slot that is popped next. -/
def State.evict (s : State) (p : Nat) : State :=
  { (s.popSlot.push (s.pagesOf p)) with
    swapdev := s.written (s.ptab p).page s.slot
    ptab := put s.ptab p { s.ptab p with
      page := fun i => if i = 2 then s.slot % 256 else if i = 3 then s.slot / 256 else 0 } }

theorem wp_swapout (there : ¬ (s.ptab p).noPage) (Q : Bool → State → Prop)
    (small : s.pfptr + (s.pagesOf p).length < 256) :
    wp stop (swapout p) Q s ↔
      if s.swapptr = 0 then Q true s else if s.slot = 0 then Q true s.popSlot
      else Q false (s.evict p) := by
  have run : swapout p = (do
      let s ← get
      if (s.ptab p).noPage then throw .alreadySwap
      else
        let map ← swapmapAlloc
        if map = 0 then return true
        else
          swapBanks swapwrite (s.ptab p).page 4 0 (map * SWAP_SIZE) ((0x4000 - SWAPBASE) / 512)
            SWAPBASE
          pagemapFree p
          modifyProc p (fun q => { q with
            page := fun i => if i = 2 then map % 256 else if i = 3 then map / 256 else 0 })
          return false) := rfl
  rw [run]
  simp only [wp_bind, wp_get, wp_ite, there, false_implies, true_and, not_false_eq_true, true_implies]
  by_cases empty : s.swapptr = 0
  · have alloc : ∀ R : Nat → State → Prop, wp stop swapmapAlloc R s ↔ R 0 s := by
      intro R
      simp [swapmapAlloc, empty]
    rw [alloc, if_pos empty]
    simp
  · have alloc : ∀ R : Nat → State → Prop, wp stop swapmapAlloc R s ↔ R s.slot s.popSlot := by
      intro R
      simp [swapmapAlloc, empty]
      rfl
    rw [alloc, if_neg empty]
    by_cases zero : s.slot = 0
    · simp [zero]
    · simp only [zero, false_implies, true_and, not_false_eq_true, true_implies, if_false]
      rw [wp_writeBanks, wp_pagemapFree]
      · exact Iff.rfl
      · exact small

/-! ## Filling a map -/

/-- Process `p` has `n` pages more in its map, from `i` on. -/
def State.take (s : State) (p n i : Nat) : State :=
  { s with
    pfptr := s.pfptr - n
    ptab := put s.ptab p { s.ptab p with
      page := fun k => if i ≤ k ∧ k < i + n then s.free (k - i) else (s.ptab p).page k } }

theorem take_zero (s : State) (p i : Nat) : s.take p 0 i = s := by
  have same : (fun k => if i ≤ k ∧ k < i + 0 then s.free (k - i) else (s.ptab p).page k) =
      (s.ptab p).page := by
    funext k
    have outside : ¬ (i ≤ k ∧ k < i + 0) := by omega
    rw [if_neg outside]
  unfold State.take
  rw [same]
  show { s with ptab := put s.ptab p (s.ptab p) } = s
  rw [put_self]

theorem wp_fillMaps (n i : Nat) (Q : Unit → State → Prop) (enough : n ≤ s.pfptr)
    (small : s.pfptr < 256) : wp stop (fillMaps p n i) Q s ↔ Q () (s.take p n i) := by
  induction n generalizing i s with
  | zero =>
    rw [take_zero]
    exact Iff.rfl
  | succ n ih =>
    have step : fillMaps p (n + 1) i =
        (popPage >>= fun page => setPage p i page >>= fun _ => fillMaps p n (i + 1)) := rfl
    rw [step, wp_bind, wp_popPage _ (by omega) small, wp_bind]
    have set : wp stop (setPage p i (s.free 0)) (fun _ t => wp stop (fillMaps p n (i + 1)) Q t)
        (s.pop 1) ↔ wp stop (fillMaps p n (i + 1)) Q { s.pop 1 with
          ptab := put s.ptab p { s.ptab p with page := put (s.ptab p).page i (s.free 0) } } :=
      Iff.rfl
    have fewer : n ≤ s.pfptr - 1 := by omega
    rw [set, ih (i + 1) fewer (by show s.pfptr - 1 < 256; omega)]
    have page : (fun k => if i + 1 ≤ k ∧ k < i + 1 + n then (s.pop 1).free (k - (i + 1))
        else put (s.ptab p).page i (s.free 0) k) =
        fun k => if i ≤ k ∧ k < i + (n + 1) then s.free (k - i) else (s.ptab p).page k := by
      funext k
      by_cases here : k = i
      · subst here
        have outside : ¬ (k + 1 ≤ k ∧ k < k + 1 + n) := by omega
        have inside : k ≤ k ∧ k < k + (n + 1) := by omega
        rw [if_neg outside, put_same, if_pos inside, Nat.sub_self]
      · rw [put_ne _ _ here]
        by_cases later : i + 1 ≤ k ∧ k < i + 1 + n
        · have inside : i ≤ k ∧ k < i + (n + 1) := by omega
          have place : s.pfptr - 1 - 1 - (k - (i + 1)) = s.pfptr - 1 - (k - i) := by omega
          rw [if_pos later, if_pos inside]
          show s.pfree (s.pfptr - 1 - 1 - (k - (i + 1))) = s.pfree (s.pfptr - 1 - (k - i))
          rw [place]
        · have outside : ¬ (i ≤ k ∧ k < i + (n + 1)) := by omega
          rw [if_neg later, if_neg outside]
    have ptr : s.pfptr - 1 - n = s.pfptr - (n + 1) := by omega
    have state : State.take { s.pop 1 with
        ptab := put s.ptab p { s.ptab p with page := put (s.ptab p).page i (s.free 0) } } p n
          (i + 1) = s.take p (n + 1) i := by
      unfold State.take
      simp only [put_put, put_same, ← page, ← ptr]
      rfl
    rw [state]

/-- What is left to take when there is a common page already. -/
def pagesWanted (q : Proc) (c : Nat) : Nat := mapsNeeded q.top - (if c ≠ 0 then 1 else 0)

/-- The map that `pagemap_alloc2` gives to `p`. -/
def State.mapFor (s : State) (p n c : Nat) : Nat → Nat := fun i =>
  if i < n then s.free i else if i < 4 then (if c = 0 then s.free (n - 1) else c)
  else (s.ptab p).page i

def State.fill (s : State) (p n c : Nat) : State :=
  { s with
    pfptr := s.pfptr - n
    ptab := put s.ptab p { s.ptab p with page := s.mapFor p n c } }

theorem mapsNeeded_range (top : Nat) : 1 ≤ mapsNeeded top ∧ mapsNeeded top ≤ 4 := by
  unfold mapsNeeded
  omega

/-- When the room is found without moving `p`, the map is filled. -/
theorem wp_pagemapAlloc2 {c : Nat} {Q : Bool → State → Prop}
    (room : wp stop (findRoom p (pagesWanted (s.ptab p) c)) (fun found t =>
      (found = true → pagesWanted (s.ptab p) c ≤ t.pfptr ∧ t.pfptr < 256 ∧
        Q false (t.fill p (pagesWanted (s.ptab p) c) c)) ∧
      (found = false → Q true t)) s) :
    wp stop (pagemapAlloc2 p c) Q s := by
  have run : pagemapAlloc2 p c = (do
      let s ← get
      let needed := pagesWanted (s.ptab p) c
      let room ← findRoom p needed
      if room = false then return true
      else
        fillMaps p needed 0
        modifyProc p (fun q => { q with
          page := fun i => if needed ≤ i ∧ i < 4 then
            (if c = 0 then q.page (needed - 1) else c) else q.page i })
        return false) := rfl
  rw [run, wp_bind, wp_get, wp_bind]
  refine wp_mono room ?_
  intro found t post
  cases found with
  | false => exact post.2 rfl
  | true =>
    obtain ⟨enough, small, filled⟩ := post.1 rfl
    have lower := (mapsNeeded_range (s.ptab p).top).1
    have upper := (mapsNeeded_range (s.ptab p).top).2
    have at_most : pagesWanted (s.ptab p) c ≤ 4 := by
      unfold pagesWanted
      omega
    have some : c = 0 → 0 < pagesWanted (s.ptab p) c := by
      intro none
      unfold pagesWanted
      simp [none]
      omega
    generalize pagesWanted (s.ptab p) c = n at *
    simp only [Bool.true_eq_false, if_false]
    rw [wp_bind, wp_fillMaps n 0 _ enough small]
    have page : (fun i => if n ≤ i ∧ i < 4 then (if c = 0 then
        (if 0 ≤ n - 1 ∧ n - 1 < 0 + n then t.free (n - 1 - 0) else (t.ptab p).page (n - 1)) else c)
        else if 0 ≤ i ∧ i < 0 + n then t.free (i - 0) else (t.ptab p).page i) = t.mapFor p n c := by
      funext i
      unfold State.mapFor
      by_cases low : i < n
      · have outside : ¬ (n ≤ i ∧ i < 4) := by omega
        have inside : 0 ≤ i ∧ i < 0 + n := by omega
        rw [if_neg outside, if_pos inside, if_pos low]
        rfl
      · have outside : ¬ (0 ≤ i ∧ i < 0 + n) := by omega
        rw [if_neg low, if_neg outside]
        by_cases high : i < 4
        · rw [if_pos ⟨by omega, high⟩, if_pos high]
          by_cases none : c = 0
          · have last : 0 ≤ n - 1 ∧ n - 1 < 0 + n := by
              have := some none
              omega
            rw [if_pos none, if_pos none, if_pos last]
            rfl
          · rw [if_neg none, if_neg none]
        · have past : ¬ (n ≤ i ∧ i < 4) := by omega
          rw [if_neg high, if_neg past]
    have state : { t.take p n 0 with
        ptab := put (t.take p n 0).ptab p { (t.take p n 0).ptab p with
          page := fun i => if n ≤ i ∧ i < 4 then
            (if c = 0 then ((t.take p n 0).ptab p).page (n - 1) else c)
            else ((t.take p n 0).ptab p).page i } } = t.fill p n c := by
      show { t with
        pfptr := t.pfptr - n
        ptab := put (put t.ptab p _) p { put t.ptab p _ p with
          page := fun i => if n ≤ i ∧ i < 4 then (if c = 0 then (put t.ptab p _ p).page (n - 1)
            else c) else (put t.ptab p _ p).page i } } = _
      rw [put_put, put_same]
      unfold State.fill
      rw [← page]
    rw [← state] at filled
    exact filled

end Machine

end Bank16k
