import Fuzix.Lib.Pool
import Fuzix.Lib.Run

/-!
# 8K banks

The page stack and the page tables of bank8k.c, its video page, and the swap slots of
swap.c. The choice that `swapneeded` makes is a parameter. The swap device transfers what
it is asked to.
-/

set_option linter.unusedSectionVars false

namespace Bank8k

open Table Pool Run

def PAGESIZE : Nat := 0x2000

class Build where
  PTABSIZE : Nat
  MAX_MAPS : Nat
  MAX_SWAPS : Nat
  PROGLOAD : Nat
  PROGTOP : Nat
  SWAPBASE : Nat
  SWAP_SIZE : Nat
  PAGE_INVALID : Nat
  PAGE_VIDEO : Nat
  /-- `CONFIG_VIDMAP8` is defined. -/
  vidmap : Bool
  /-- `SWAPDEV` is defined. -/
  swaps : Bool
  mapsBound : MAX_MAPS < 256
  swapsBound : MAX_SWAPS < 256
  topBound : PROGTOP < 65536
  baseBound : SWAPBASE < PAGESIZE

export Build (PTABSIZE MAX_MAPS MAX_SWAPS PROGLOAD PROGTOP SWAPBASE SWAP_SIZE PAGE_INVALID PAGE_VIDEO)

/-- `used` says that the process has memory, and `p_page` that it is not null: it points
to the row of `pmap`. -/
structure Proc where
  used : Bool
  p_top : Nat
  p_page : Bool
  p_page2 : Nat
  u_top : Nat

structure State where
  pfree : Nat → Nat
  pfptr : Nat
  pmap : Nat → Nat → Nat
  swapmap : Nat → Nat
  swapptr : Nat
  ptab : Nat → Proc
  mem : Nat → Nat → UInt8
  swapdev : Nat → Nat → UInt8

def modifyProc (p : Nat) (f : Proc → Proc) (s : State) : State :=
  { s with ptab := put s.ptab p (f (s.ptab p)) }

def setCell (p i page : Nat) (s : State) : State :=
  { s with pmap := put s.pmap p (put (s.pmap p) i page) }

variable [Build]

/-- The cells that can name a page. -/
def PTNUM : Nat := if Build.vidmap then 9 else 8

def PTSIZE : Nat := if Build.vidmap then 10 else 8

def HIBANK : Nat := (PROGTOP + 0x1FFF) / PAGESIZE

def LOBANK : Nat := SWAPBASE / PAGESIZE

/-- What `pt[i]` reads for the row of `p`; the rows follow each other. -/
def cell (s : State) (p i : Nat) : Nat := s.pmap (p + i / PTSIZE) (i % PTSIZE)

/-! ## The video page -/

/-- False when there is nothing to unmap. -/
def vidmapUnmap (p : Nat) (s : State) : State × Bool :=
  if s.pmap p 8 = PAGE_INVALID then (s, false)
  else (setCell p 8 PAGE_INVALID (setCell p (s.pmap p 9) (s.pmap p 8) s), true)

def vidmapMap (p addr : Nat) (s : State) : State × Bool :=
  if s.pmap p 8 ≠ PAGE_INVALID then (s, false)
  else
    let bank := addr / PAGESIZE
    (setCell p bank PAGE_VIDEO (setCell p 9 bank (setCell p 8 (s.pmap p bank) s)), true)

/-! ## The page stack -/

/-- None when it panics. -/
def pagemapAdd (page : Nat) (s : State) : Option State :=
  if s.pfptr = MAX_MAPS then none
  else some { s with pfree := put s.pfree s.pfptr page, pfptr := (s.pfptr + 1) % 256 }

/-- `pfree[--pfptr] = page`. -/
def putPage (page : Nat) (s : State) : State :=
  let pfptr := (s.pfptr + 255) % 256
  { s with pfree := put s.pfree pfptr page, pfptr := pfptr }

/-- The loop of `pagemap_free`. -/
def freeCells (p : Nat) : Nat → Nat → State → State
  | 0, _, s => s
  | n + 1, i, s =>
    let page := s.pmap p i
    freeCells p n (i + 1) (if page ≠ PAGE_INVALID ∧ page ≠ PAGE_VIDEO then putPage page s else s)

def pagemapFree (p : Nat) (s : State) : State := freeCells p PTNUM 0 s

/-- In 16 bits. -/
def mapsNeeded (top : Nat) : Nat := (top + 0xFFFF - PROGTOP) % 65536 / PAGESIZE + 1

/-! ## Swapping -/

/-- Zero when there is no slot. -/
def swapmapAlloc (s : State) : Nat × State :=
  if s.swapptr ≠ 0 then (s.swapmap (s.swapptr - 1), { s with swapptr := s.swapptr - 1 }) else (0, s)

/-- None when it panics. -/
def swapmapAdd (slot : Nat) (s : State) : Option State :=
  if s.swapptr = MAX_SWAPS then none
  else some { s with swapmap := put s.swapmap s.swapptr slot, swapptr := (s.swapptr + 1) % 256 }

def swapwrite (blk size base page : Nat) (s : State) : State :=
  { s with swapdev := fun b o => if blk ≤ b ∧ b < blk + size ∧ o < 512
      then s.mem page (base % PAGESIZE + 512 * (b - blk) + o) else s.swapdev b o }

def swapread (blk size base page : Nat) (s : State) : State :=
  { s with mem := fun q x => if q = page ∧ base % PAGESIZE ≤ x ∧ x < base % PAGESIZE + 512 * size
      then s.swapdev (blk + (x - base % PAGESIZE) / 512) ((x - base % PAGESIZE) % 512)
      else s.mem q x }

/-- The base of the bank behind the one at `base`. -/
def nextBase (base : Nat) : Nat := (base + 0x2000) % 65536 / 0x2000 * 0x2000

/-- The loop of `swapout`; `pt` is the index of the next cell, and `pv` the video page. -/
def writeBanks (p pv : Nat) : Nat → Nat → Nat → Nat → Nat → State → State
  | 0, _, _, _, _, s => s
  | n + 1, pt, blk, size, base, s =>
    let pg := cell s p pt
    let s := if pg ≠ PAGE_INVALID then
        swapwrite blk size base (if Build.vidmap ∧ pg = PAGE_VIDEO then pv else pg) s
      else s
    writeBanks p pv n (pt + 1) (blk + size) 0x10 (nextBase base) s

/-- None when it panics. True when there is no slot. -/
def swapout (p : Nat) (s : State) : Option (State × Bool) :=
  if (s.ptab p).p_page = false then none
  else
    let map := (swapmapAlloc s).1
    let s := (swapmapAlloc s).2
    if map = 0 then some (s, true)
    else
      let s := writeBanks p (s.pmap p 8) (HIBANK - LOBANK) 0 (map * SWAP_SIZE)
        ((0x2000 - SWAPBASE) / 512) SWAPBASE s
      some (modifyProc p (fun q => { q with p_page := false, p_page2 := map }) (pagemapFree p s), false)

/-- The loop of `swapin`. It takes the page that it reads to from the cell behind the one
that it has looked at. -/
def readBanks (p : Nat) : Nat → Nat → Nat → Nat → Nat → State → State
  | 0, _, _, _, _, s => s
  | n + 1, pt, blk, size, base, s =>
    if cell s p pt ≠ PAGE_INVALID then
      readBanks p n (pt + 2) (blk + size) 0x10 (nextBase base) (swapread blk size base (cell s p (pt + 1)) s)
    else readBanks p n (pt + 1) (blk + size) 0x10 (nextBase base) s

def swapin (p map : Nat) (s : State) : State :=
  if (s.ptab p).p_page = false then s
  else readBanks p (HIBANK - LOBANK) 0 (map * SWAP_SIZE) ((0x2000 - SWAPBASE) / 512) SWAPBASE s

/-! ## Allocation -/

/-- `while (needed > pfptr)`, where `swapneeded` chooses `victims` one by one and then
nobody. False when it fails, and none when it panics. -/
def makeRoom (needed : Nat) : List Nat → State → Option (State × Bool)
  | [], s => some (s, needed ≤ s.pfptr)
  | v :: victims, s =>
    if needed ≤ s.pfptr then some (s, true)
    else
      (swapout v s).bind fun r => if r.2 then some (r.1, false) else makeRoom needed victims r.1

def findRoom (needed : Nat) (victims : List Nat) (s : State) : Option (State × Bool) :=
  makeRoom needed (if Build.swaps then victims else []) s

/-- `*ptr++ = pfree[--pfptr]`, `n` times from cell `i` on. -/
def fillCells (p : Nat) : Nat → Nat → State → State
  | 0, _, s => s
  | n + 1, i, s =>
    let pfptr := (s.pfptr + 255) % 256
    fillCells p n (i + 1) (setCell p i (s.pfree pfptr) { s with pfptr := pfptr })

def clearCells (p : Nat) : Nat → Nat → State → State
  | 0, _, s => s
  | n + 1, i, s => clearCells p n (i + 1) (setCell p i PAGE_INVALID s)

/-- False when it fails. -/
def pagemapAlloc (p : Nat) (victims : List Nat) (s : State) : Option (State × Bool) :=
  let needed := mapsNeeded (s.ptab p).p_top
  let s := modifyProc p (fun q => { q with p_page := true }) s
  (findRoom needed victims s).map fun r =>
    if r.2 then (clearCells p (PTNUM - needed) needed (fillCells p needed 0 r.1), true) else (r.1, false)

/-- The loop that frees the cells from `want` on. -/
def shrinkCells (p : Nat) : Nat → Nat → State → State
  | 0, _, s => s
  | n + 1, want, s => shrinkCells p n (want + 1) (setCell p want PAGE_INVALID (putPage (s.pmap p want) s))

/-- `ptr[have++] = pfree[pfptr++]`, `n` times. -/
def growCells (p : Nat) : Nat → Nat → State → State
  | 0, _, s => s
  | n + 1, have', s =>
    growCells p n (have' + 1) (setCell p have' (s.pfree s.pfptr) { s with pfptr := (s.pfptr + 1) % 256 })

/-- For the running process `p`. False when it fails. -/
def pagemapRealloc (p size : Nat) (victims : List Nat) (s : State) : Option (State × Bool) :=
  let have' := mapsNeeded (s.ptab p).u_top
  let want := mapsNeeded size
  let s := if Build.vidmap ∧ s.pmap p 8 ≠ PAGE_INVALID then (vidmapUnmap p s).1 else s
  if want = have' then some (s, true)
  else if want < have' then some (shrinkCells p (have' - want) want s, true)
  else
    (findRoom (want - have') victims s).map fun r =>
      if r.2 then (growCells p (want - have') have' r.1, true) else (r.1, false)

/-! ## Processes -/

/-- `ptab_alloc` for a parent with this `u_top`, and `newproc`. -/
def create (p top : Nat) (victims : List Nat) (s : State) : Option State :=
  (pagemapAlloc p victims (modifyProc p (fun q => { q with p_top := top }) s)).map fun r =>
    if r.2 then modifyProc p (fun q => { q with used := true, u_top := top }) r.1 else r.1

/-- `create_init` sets the top when the process has its pages. -/
def createInit (p : Nat) (s : State) : Option State :=
  (create p 0 [] s).map fun s =>
    if (s.ptab p).used then
      modifyProc p (fun q => { q with u_top := PROGLOAD + 4096, p_top := PROGLOAD + 4096 }) s
    else s

/-- What `_execve` does to the memory. -/
def exec (p size : Nat) (victims : List Nat) (s : State) : Option State :=
  (pagemapRealloc p size victims s).map fun r =>
    if r.2 then modifyProc p (fun q => { q with u_top := size, p_top := size }) r.1 else r.1

/-- `pagemap_free` at an exit, or after a fork that has failed. -/
def release (p : Nat) (s : State) : State :=
  modifyProc p (fun q => { q with used := false }) (pagemapFree p s)

def swapper (p : Nat) (victims : List Nat) (s : State) : Option State :=
  let map := (s.ptab p).p_page2
  (pagemapAlloc p victims s).bind fun r => swapmapAdd map (swapin p map r.1)

/-! ## Runs -/

def freeList (s : State) : List Nat := pile s.pfree s.pfptr

/-- A number of a page, not a mark. -/
def real (page : Nat) : Prop := page ≠ PAGE_INVALID ∧ page ≠ PAGE_VIDEO

instance (page : Nat) : Decidable (real page) := by unfold real; infer_instance

def rowPages (row : Nat → Nat) : List Nat := ((List.range PTNUM).map row).filter fun page => real page

/-- The process has memory, and it is not in swap. -/
def Proc.resident (q : Proc) : Prop := q.used = true ∧ q.p_page = true

instance (q : Proc) : Decidable q.resident := by unfold Proc.resident; infer_instance

def held (s : State) (p : Nat) : List Nat := if (s.ptab p).resident then rowPages (s.pmap p) else []

def idle (s : State) : Prop := ∀ p < PTABSIZE, (s.ptab p).used = false

instance (s : State) : Decidable (idle s) := by unfold idle; infer_instance

inductive Action where
  | add (page : Nat)
  | addSwap (slot : Nat)
  | init (p : Nat)
  | alloc (parent p : Nat) (victims : List Nat)
  | realloc (p size : Nat) (victims : List Nat)
  | free (p : Nat)
  | swapout (p : Nat)
  | swapin (p : Nat) (victims : List Nat)
  | map (p addr : Nat)
  | unmap (p : Nat)
  | store (p i x : Nat) (b : UInt8)

/-- Pages are added at boot, none twice. -/
def Action.apply (s : State) : Action → Option State
  | .add page => if idle s ∧ real page ∧ page ∉ freeList s then pagemapAdd page s else none
  | .addSwap slot => if idle s then swapmapAdd slot s else none
  | .init p => if idle s ∧ p < PTABSIZE then createInit p s else none
  | .alloc parent p victims =>
    if parent < PTABSIZE ∧ (s.ptab parent).resident ∧ p < PTABSIZE ∧ (s.ptab p).used = false then
      create p (s.ptab parent).u_top victims s
    else none
  | .realloc p size victims =>
    if p < PTABSIZE ∧ (s.ptab p).resident then exec p size victims s else none
  | .free p => if p < PTABSIZE ∧ (s.ptab p).resident then some (release p s) else none
  | .swapout p =>
    if p < PTABSIZE ∧ (s.ptab p).resident then (Bank8k.swapout p s).map Prod.fst else none
  | .swapin p victims =>
    if p < PTABSIZE ∧ (s.ptab p).used = true ∧ (s.ptab p).p_page = false then swapper p victims s else none
  | .map p addr =>
    if Build.vidmap ∧ p < PTABSIZE ∧ (s.ptab p).resident ∧ addr < 65536 then some (vidmapMap p addr s).1
    else none
  | .unmap p =>
    if Build.vidmap ∧ p < PTABSIZE ∧ (s.ptab p).resident then some (vidmapUnmap p s).1 else none
  | .store p i x b =>
    if p < PTABSIZE ∧ (s.ptab p).resident ∧ i < 8 ∧ real (s.pmap p i) then
      some { s with mem := put s.mem (s.pmap p i) (put (s.mem (s.pmap p i)) x b) }
    else none

def Action.adds : Action → List Nat
  | .add page => [page]
  | _ => []

/-- `swapneeded` cannot make room. -/
def stuck (victims : List Nat) (s : State) : Prop :=
  Build.swaps = false ∨ victims = [] ∨ (swapmapAlloc s).1 = 0

/-- The step frees no pages and takes none but with `pfree[--pfptr]`. -/
def Action.keeps (s : State) : Action → Prop
  | .alloc parent _ victims => mapsNeeded (s.ptab parent).u_top ≤ s.pfptr ∨ stuck victims s
  | .realloc p size victims =>
    mapsNeeded size = mapsNeeded (s.ptab p).u_top ∨
      s.pfptr + mapsNeeded (s.ptab p).u_top < mapsNeeded size ∧ stuck victims s
  | .free _ => False
  | .swapout _ => (swapmapAlloc s).1 = 0
  | _ => True

instance (victims : List Nat) (s : State) : Decidable (stuck victims s) := by
  unfold stuck; infer_instance

instance (s : State) (a : Action) : Decidable (a.keeps s) := by
  cases a <;> unfold Action.keeps <;> infer_instance

/-- The pages that a list of steps adds. -/
def added (as : List Action) : List Nat := as.flatMap Action.adds

/-! ## The pages are kept -/

/-- Every page is free or held, and no process is in swap. -/
structure Conserved (pool : List Nat) (s : State) : Prop where
  pages : (freeList s ++ (List.range PTABSIZE).flatMap (held s)).Perm pool
  here : ∀ p < PTABSIZE, (s.ptab p).used = true → (s.ptab p).p_page = true

/-- The page below the video page is kept aside. -/
def Aside (row : Nat → Nat) : Prop := row 8 ≠ PAGE_INVALID → row 9 < 8 ∧ ¬ real (row (row 9))

/-- What holds between any two steps that keep the pages. -/
structure Sound (pool : List Nat) (s : State) : Prop where
  unique : pool.Nodup
  size : pool.length ≤ MAX_MAPS
  proper : ∀ x ∈ pool, real x
  shared : Shared pool (freeList s) PTABSIZE (held s)
  here : ∀ p < PTABSIZE, (s.ptab p).used = true → (s.ptab p).p_page = true
  aside : Build.vidmap = true → ∀ p < PTABSIZE, (s.ptab p).used = true → Aside (s.pmap p)

section Facts
variable {pool : List Nat} {s t : State} {p n i : Nat}

theorem Sound.height (sound : Sound pool s) :
    s.pfptr + total PTABSIZE (fun p => (held s p).length) ≤ MAX_MAPS := by
  have length := sound.shared.length
  have size := sound.size
  unfold freeList at length
  rw [pile_length] at length
  omega

theorem Sound.small (sound : Sound pool s) : s.pfptr < 256 := by
  have height := sound.height
  have bound := Build.mapsBound
  omega

theorem modifyProc_same (f : Proc → Proc) : (modifyProc p f s).ptab p = f (s.ptab p) := put_same _ _ _

theorem modifyProc_ne (f : Proc → Proc) {r : Nat} (other : r ≠ p) :
    (modifyProc p f s).ptab r = s.ptab r := put_ne _ _ other

/-! ## Rows -/

theorem PTNUM_ge : 8 ≤ PTNUM := by
  unfold PTNUM
  split
  · omega
  · omega

/-- The cells from `i` on are filled from the stack. -/
theorem fillCells_eq (enough : n ≤ s.pfptr) (small : s.pfptr < 256) :
    fillCells p n i s = { s with
      pfptr := s.pfptr - n
      pmap := put s.pmap p (fun j => if i ≤ j ∧ j < i + n then s.pfree (s.pfptr - 1 - (j - i))
        else s.pmap p j) } := by
  induction n generalizing i s with
  | zero =>
    have row : (fun j => if i ≤ j ∧ j < i + 0 then s.pfree (s.pfptr - 1 - (j - i)) else s.pmap p j) =
        s.pmap p := by
      funext j
      exact if_neg (by omega)
    rw [row, put_self]
    rfl
  | succ n ih =>
    have less : (s.pfptr + 255) % 256 = s.pfptr - 1 := by omega
    unfold fillCells
    dsimp only
    rw [ih (by show n ≤ (s.pfptr + 255) % 256; omega) (by show (s.pfptr + 255) % 256 < 256; omega)]
    unfold setCell
    dsimp only
    rw [put_put, put_same, less]
    have row : (fun j => if i + 1 ≤ j ∧ j < i + 1 + n then s.pfree (s.pfptr - 1 - 1 - (j - (i + 1)))
          else put (s.pmap p) i (s.pfree (s.pfptr - 1)) j) =
        fun j => if i ≤ j ∧ j < i + (n + 1) then s.pfree (s.pfptr - 1 - (j - i)) else s.pmap p j := by
      funext j
      by_cases first : j = i
      · subst first
        rw [if_neg (by omega), put_same, if_pos (by omega), Nat.sub_self, Nat.sub_zero]
      · rw [put_ne _ _ first]
        by_cases inside : i + 1 ≤ j ∧ j < i + 1 + n
        · have same : s.pfptr - 1 - 1 - (j - (i + 1)) = s.pfptr - 1 - (j - i) := by omega
          rw [if_pos inside, if_pos (by omega), same]
        · rw [if_neg inside, if_neg (by omega)]
    have ptr : s.pfptr - 1 - n = s.pfptr - (n + 1) := by omega
    rw [row, ptr]

theorem clearCells_eq : clearCells p n i s = { s with
    pmap := put s.pmap p (fun j => if i ≤ j ∧ j < i + n then PAGE_INVALID else s.pmap p j) } := by
  induction n generalizing i s with
  | zero =>
    have row : (fun j => if i ≤ j ∧ j < i + 0 then PAGE_INVALID else s.pmap p j) = s.pmap p := by
      funext j
      exact if_neg (by omega)
    rw [row, put_self]
    rfl
  | succ n ih =>
    unfold clearCells
    rw [ih]
    unfold setCell
    dsimp only
    rw [put_put, put_same]
    have row : (fun j => if i + 1 ≤ j ∧ j < i + 1 + n then PAGE_INVALID
          else put (s.pmap p) i PAGE_INVALID j) =
        fun j => if i ≤ j ∧ j < i + (n + 1) then PAGE_INVALID else s.pmap p j := by
      funext j
      by_cases first : j = i
      · subst first
        rw [if_neg (by omega), put_same, if_pos (by omega)]
      · rw [put_ne _ _ first]
        by_cases inside : i + 1 ≤ j ∧ j < i + 1 + n
        · rw [if_pos inside, if_pos (by omega)]
        · rw [if_neg inside, if_neg (by omega)]
    rw [row]

theorem not_real_invalid : ¬ real PAGE_INVALID := fun no => no.1 rfl

/-- A row that starts with `n` pages and has no more. -/
theorem rowPages_fill {row f : Nat → Nat} (few : n ≤ PTNUM) (low : ∀ j < n, row j = f j ∧ real (f j))
    (high : ∀ j, n ≤ j → j < PTNUM → row j = PAGE_INVALID) : rowPages row = (List.range n).map f := by
  have split : PTNUM = n + (PTNUM - n) := by omega
  unfold rowPages
  rw [split, List.range_add, List.map_append, List.filter_append]
  have first : ((List.range n).map row).filter (fun page => real page) = (List.range n).map f := by
    have same : (List.range n).map row = (List.range n).map f := by
      apply List.map_congr_left
      intro j member
      exact (low j (List.mem_range.mp member)).1
    rw [same, List.filter_eq_self]
    intro x member
    obtain ⟨j, inside, equal⟩ := List.mem_map.mp member
    rw [← equal]
    exact decide_eq_true (low j (List.mem_range.mp inside)).2
  have second : (((List.range (PTNUM - n)).map (n + ·)).map row).filter (fun page => real page) = [] := by
    rw [List.filter_eq_nil_iff]
    intro x member
    obtain ⟨k, inside, equal⟩ := List.mem_map.mp member
    obtain ⟨j, inside, equal'⟩ := List.mem_map.mp inside
    have less := List.mem_range.mp inside
    rw [← equal, ← equal', high (n + j) (by omega) (by omega), decide_eq_true_eq]
    exact not_real_invalid
  rw [first, second, List.append_nil]

/-! ## Steps that keep the pages -/

/-- The same pages are where they were. -/
structure Still (s t : State) : Prop where
  pfree : t.pfree = s.pfree
  pfptr : t.pfptr = s.pfptr
  pmap : t.pmap = s.pmap
  ptab : t.ptab = s.ptab

theorem Still.refl (s : State) : Still s s := ⟨rfl, rfl, rfl, rfl⟩

theorem still_swapmapAlloc : Still s (swapmapAlloc s).2 := by
  unfold swapmapAlloc
  split
  · exact ⟨rfl, rfl, rfl, rfl⟩
  · exact Still.refl s

theorem still_swapout {r : State × Bool} (none : (swapmapAlloc s).1 = 0) (done : swapout p s = some r) :
    Still s r.1 ∧ r.2 = true := by
  unfold swapout at done
  dsimp only at done
  by_cases gone : (s.ptab p).p_page = false
  · rw [if_pos gone] at done
    cases done
  · rw [if_neg gone, if_pos none] at done
    injection done with same
    rw [← same]
    exact ⟨still_swapmapAlloc, rfl⟩

theorem still_findRoom {needed : Nat} {victims : List Nat} {r : State × Bool}
    (kind : needed ≤ s.pfptr ∨ stuck victims s) (done : findRoom needed victims s = some r) :
    Still s r.1 ∧ (r.2 = true → needed ≤ s.pfptr) := by
  unfold findRoom at done
  generalize hvs : (if Build.swaps then victims else []) = choice at done
  cases choice with
  | nil =>
    injection done with same
    rw [← same]
    exact ⟨Still.refl s, of_decide_eq_true⟩
  | cons v vs =>
    unfold makeRoom at done
    by_cases enough : needed ≤ s.pfptr
    · rw [if_pos enough] at done
      injection done with same
      rw [← same]
      exact ⟨Still.refl s, fun _ => enough⟩
    · rw [if_neg enough] at done
      have none : (swapmapAlloc s).1 = 0 := by
        rcases kind with no | off | nobody | none
        · exact absurd no enough
        · rw [off, if_neg Bool.false_ne_true] at hvs
          cases hvs
        · rw [nobody, ite_self] at hvs
          cases hvs
        · exact none
      obtain ⟨u, out, rest⟩ := Option.bind_eq_some_iff.mp done
      obtain ⟨still, full⟩ := still_swapout none out
      rw [if_pos full] at rest
      injection rest with same
      rw [← same]
      exact ⟨still, fun no => by cases no⟩

/-- Process `p` and the stack trade pages. -/
structure Trades (p : Nat) (s t : State) : Prop where
  others : ∀ r, r ≠ p → t.ptab r = s.ptab r ∧ t.pmap r = s.pmap r
  count : ∀ x, (freeList t).count x + (held t p).count x = (freeList s).count x + (held s p).count x
  here : (t.ptab p).used = true → (t.ptab p).p_page = true
  aside : Build.vidmap = true → (t.ptab p).used = true → Aside (t.pmap p)

theorem Sound.trade (sound : Sound pool s) (hp : p < PTABSIZE) (trades : Trades p s t) : Sound pool t := by
  constructor
  · exact sound.unique
  · exact sound.size
  · exact sound.proper
  · refine sound.shared.move hp (fun r other => ?_) trades.count
    unfold held
    rw [(trades.others r other).1, (trades.others r other).2]
  · intro r hr
    by_cases self : r = p
    · subst self
      exact trades.here
    · rw [(trades.others r self).1]
      exact sound.here r hr
  · intro video r hr
    by_cases self : r = p
    · subst self
      exact trades.aside video
    · rw [(trades.others r self).1, (trades.others r self).2]
      exact sound.aside video r hr

theorem freeList_still (still : Still s t) : freeList t = freeList s := by
  unfold freeList
  rw [still.pfree, still.pfptr]

theorem held_still (still : Still s t) (p : Nat) : held t p = held s p := by
  unfold held
  rw [still.pmap, still.ptab]

theorem Sound.still (sound : Sound pool s) (still : Still s t) : Sound pool t := by
  constructor
  · exact sound.unique
  · exact sound.size
  · exact sound.proper
  · rw [freeList_still still]
    exact sound.shared.congr (held_still still)
  · rw [still.ptab]
    exact sound.here
  · rw [still.ptab, still.pmap]
    exact sound.aside

theorem held_unused (unused : (s.ptab p).used = false) : held s p = [] := by
  apply if_neg
  intro resident
  have used := resident.1
  rw [unused] at used
  cases used

theorem mapsNeeded_le (top : Nat) : mapsNeeded top ≤ 8 := by
  unfold mapsNeeded PAGESIZE
  omega

/-- A process that gets all its pages. -/
def State.given (s : State) (p n : Nat) : State := clearCells p (PTNUM - n) n (fillCells p n 0 s)

theorem given_ptab (enough : n ≤ s.pfptr) (small : s.pfptr < 256) : (s.given p n).ptab = s.ptab := by
  unfold State.given
  rw [clearCells_eq, fillCells_eq enough small]

theorem given_pmap_ne (enough : n ≤ s.pfptr) (small : s.pfptr < 256) {r : Nat} (other : r ≠ p) :
    (s.given p n).pmap r = s.pmap r := by
  unfold State.given
  rw [clearCells_eq, fillCells_eq enough small]
  exact (put_ne _ _ other).trans (put_ne _ _ other)

theorem given_row (enough : n ≤ s.pfptr) (small : s.pfptr < 256) (few : n ≤ PTNUM) :
    (∀ j < n, (s.given p n).pmap p j = s.pfree (s.pfptr - 1 - j)) ∧
      ∀ j, n ≤ j → j < PTNUM → (s.given p n).pmap p j = PAGE_INVALID := by
  unfold State.given
  rw [clearCells_eq, fillCells_eq enough small]
  dsimp only
  rw [put_same, put_same]
  constructor
  · intro j less
    rw [if_neg (by omega), if_pos (by omega), Nat.sub_zero]
  · intro j low high
    exact if_pos (by omega)

theorem given_count (enough : n ≤ s.pfptr) (small : s.pfptr < 256) (few : n ≤ PTNUM)
    (proper : ∀ x ∈ freeList s, real x) (x : Nat) :
    (freeList s).count x = (freeList (s.given p n)).count x + (rowPages ((s.given p n).pmap p)).count x := by
  obtain ⟨low, high⟩ := given_row (s := s) (p := p) enough small few
  have free : freeList (s.given p n) = pile s.pfree (s.pfptr - n) := by
    unfold State.given
    rw [clearCells_eq, fillCells_eq enough small]
    rfl
  rw [free, rowPages_fill few (f := fun j => s.pfree (s.pfptr - 1 - j)) (fun j less => ⟨low j less, ?_⟩) high]
  · exact pile_take s.pfree enough x
  · exact proper _ (mem_pile (by omega))

theorem Sound.free_real (sound : Sound pool s) : ∀ x ∈ freeList s, real x :=
  fun x free => sound.proper x (sound.shared.free_mem free)

/-- A row that `pagemap_alloc` has filled has nothing below the video page. -/
theorem aside_given (enough : n ≤ s.pfptr) (small : s.pfptr < 256) (few : n ≤ 8) (video : Build.vidmap = true) :
    Aside ((s.given p n).pmap p) := by
  have nine : PTNUM = 9 := if_pos video
  have high := (given_row (s := s) (p := p) enough small (by omega)).2 8 few (by omega)
  exact fun no => absurd high no

theorem stuck_congr {victims : List Nat} (ptr : t.swapptr = s.swapptr) (map : t.swapmap = s.swapmap)
    (none : stuck victims s) : stuck victims t := by
  rcases none with off | nobody | none
  · exact Or.inl off
  · exact Or.inr (Or.inl nobody)
  · right
    right
    unfold swapmapAlloc at *
    rw [ptr, map]
    split
    · rename_i some
      rw [if_pos some] at none
      exact none
    · rfl

theorem stuck_modifyProc {victims : List Nat} (f : Proc → Proc) (none : stuck victims s) :
    stuck victims (modifyProc p f s) := stuck_congr (s := s) rfl rfl none

/-- Without swapping `pagemap_alloc` gives all the pages, or none. -/
theorem pagemapAlloc_cases {victims : List Nat} {r : State × Bool}
    (kind : mapsNeeded (s.ptab p).p_top ≤ s.pfptr ∨ stuck victims s) (done : pagemapAlloc p victims s = some r) :
    ∃ u, Still (modifyProc p (fun q => { q with p_page := true }) s) u ∧
      (r = (u, false) ∨ mapsNeeded (s.ptab p).p_top ≤ s.pfptr ∧ r = (u.given p (mapsNeeded (s.ptab p).p_top), true)) := by
  unfold pagemapAlloc at done
  obtain ⟨u, found, result⟩ := Option.map_eq_some_iff.mp done
  obtain ⟨still, room⟩ := still_findRoom (kind.imp id (stuck_modifyProc _)) found
  refine ⟨u.1, still, ?_⟩
  by_cases got : u.2 = true
  · right
    rw [if_pos got] at result
    exact ⟨room got, result.symm⟩
  · left
    rw [if_neg got] at result
    exact result.symm

theorem trades_create {top : Nat} {victims : List Nat} (sound : Sound pool s)
    (unused : (s.ptab p).used = false) (kind : mapsNeeded top ≤ s.pfptr ∨ stuck victims s)
    (done : create p top victims s = some t) :
    Trades p s t ∧ ((t.ptab p).used = true → (t.ptab p).u_top = top) := by
  unfold create at done
  obtain ⟨r, tried, result⟩ := Option.map_eq_some_iff.mp done
  have entry : (modifyProc p (fun q => { q with p_top := top }) s).ptab p = { s.ptab p with p_top := top } :=
    modifyProc_same _
  obtain ⟨u, still, found⟩ := pagemapAlloc_cases (s := modifyProc p (fun q => { q with p_top := top }) s)
    (by rw [entry]; exact kind.imp id (stuck_modifyProc _)) tried
  rw [entry] at found
  dsimp only at found
  have ptab : u.ptab = put s.ptab p { s.ptab p with p_top := top, p_page := true } := by
    rw [still.ptab]
    unfold modifyProc
    dsimp only
    rw [put_put, put_same]
  have pmap : u.pmap = s.pmap := still.pmap
  have free : freeList u = freeList s := by
    unfold freeList
    rw [still.pfree, still.pfptr]
    rfl
  rcases found with failed | ⟨enough, given⟩
  · have same : t = u := by
      rw [← result, failed]
      rfl
    have off : (t.ptab p).used = false := by
      rw [same, ptab, put_same]
      exact unused
    refine ⟨⟨fun r other => ?_, fun x => ?_, fun used => ?_, fun _ used => ?_⟩, fun used => ?_⟩
    · rw [same, ptab, pmap, put_ne _ _ other]
      exact ⟨rfl, rfl⟩
    · rw [held_unused off, held_unused unused, same, free]
    · rw [off] at used
      cases used
    · rw [off] at used
      cases used
    · rw [off] at used
      cases used
  · have same : t = modifyProc p (fun q => { q with used := true, u_top := top }) (u.given p (mapsNeeded top)) := by
      rw [← result, given]
      rfl
    have ptr : u.pfptr = s.pfptr := still.pfptr
    have enough : mapsNeeded top ≤ s.pfptr := enough
    have small := sound.small
    have few := mapsNeeded_le top
    have width := PTNUM_ge
    have gave : (u.given p (mapsNeeded top)).ptab = u.ptab := given_ptab (by omega) (by omega)
    have slot : t.ptab p = { s.ptab p with used := true, p_top := top, p_page := true, u_top := top } := by
      rw [same, modifyProc_same, gave, ptab, put_same]
    have rows : t.pmap = (u.given p (mapsNeeded top)).pmap := by
      rw [same]
      rfl
    refine ⟨⟨fun r other => ?_, fun x => ?_, fun _ => ?_, fun video _ => ?_⟩, fun _ => ?_⟩
    · rw [rows, given_pmap_ne (by omega) (by omega) other, pmap, same, modifyProc_ne _ other, gave, ptab,
        put_ne _ _ other]
      exact ⟨rfl, rfl⟩
    · have resident : (t.ptab p).resident := by
        rw [slot]
        exact ⟨rfl, rfl⟩
      have here : held t p = rowPages ((u.given p (mapsNeeded top)).pmap p) := by
        rw [← rows]
        exact if_pos resident
      have rest : freeList t = freeList (u.given p (mapsNeeded top)) := by
        rw [same]
        rfl
      have count := given_count (s := u) (p := p) (n := mapsNeeded top) (by omega) (by omega) (by omega)
        (by rw [free]; exact sound.free_real) x
      rw [held_unused unused, here, rest, List.count_nil, ← free]
      exact count.symm
    · rw [slot]
    · rw [rows]
      exact aside_given (by omega) (by omega) few video
    · rw [slot]

/-- Only the top of the process changes. -/
theorem Trades.retop {f : Proc → Proc} (trades : Trades p s t) (used : ∀ q, (f q).used = q.used)
    (page : ∀ q, (f q).p_page = q.p_page) : Trades p s (modifyProc p f t) := by
  have slot : (modifyProc p f t).ptab p = f (t.ptab p) := modifyProc_same f
  have resident : ((modifyProc p f t).ptab p).resident ↔ (t.ptab p).resident := by
    unfold Proc.resident
    rw [slot, used, page]
  constructor
  · intro r other
    rw [modifyProc_ne f other]
    exact trades.others r other
  · intro x
    have same : held (modifyProc p f t) p = held t p := by
      unfold held
      simp only [resident]
      rfl
    rw [same]
    exact trades.count x
  · rw [slot, used, page]
    exact trades.here
  · rw [slot, used]
    exact trades.aside

theorem trades_init (sound : Sound pool s) (unused : (s.ptab p).used = false)
    (done : createInit p s = some t) : Trades p s t := by
  unfold createInit at done
  obtain ⟨u, made, result⟩ := Option.map_eq_some_iff.mp done
  have trades := (trades_create sound unused (Or.inr (Or.inr (Or.inl rfl))) made).1
  rw [← result]
  split
  · exact trades.retop (fun _ => rfl) (fun _ => rfl)
  · exact trades

/-! ## The video page in a row -/

/-- How often a row names a page. -/
theorem count_rowPages (row : Nat → Nat) (x : Nat) :
    (rowPages row).count x = if real x then total PTNUM (fun j => if row j = x then 1 else 0) else 0 := by
  have counted : ∀ n, ((List.range n).map row).count x = total n (fun j => if row j = x then 1 else 0) := by
    intro n
    induction n with
    | zero => rfl
    | succ n ih =>
      rw [List.range_succ, List.map_append, List.count_append, ih, total_succ, List.map_singleton,
        List.count_singleton]
      simp
  unfold rowPages
  by_cases good : real x
  · rw [if_pos good, List.count_filter (by exact decide_eq_true good), counted]
  · rw [if_neg good]
    apply List.count_eq_zero.mpr
    intro member
    exact good (of_decide_eq_true (List.mem_filter.mp member).2)

/-- A page moves from cell `i` to cell `j`, and both other values are marks. -/
theorem rowPages_swap {row : Nat → Nat} {i j mark : Nat} (hi : i < PTNUM) (hj : j < PTNUM) (other : i ≠ j)
    (free : ¬ real (row j)) (marked : ¬ real mark) (x : Nat) :
    (rowPages (put (put row j (row i)) i mark)).count x = (rowPages row).count x := by
  rw [count_rowPages, count_rowPages]
  by_cases good : real x
  · rw [if_pos good, if_pos good]
    have none : row j ≠ x := fun same => free (same ▸ good)
    have none' : mark ≠ x := fun same => marked (same ▸ good)
    have first := total_change (f := fun k => if row k = x then 1 else 0)
      (g := fun k => if put row j (row i) k = x then 1 else 0) hj (fun k _ apart => by
        show (if put row j (row i) k = x then 1 else 0) = _
        rw [put_ne _ _ apart])
    have second := total_change (f := fun k => if put row j (row i) k = x then 1 else 0)
      (g := fun k => if put (put row j (row i)) i mark k = x then 1 else 0) hi (fun k _ apart => by
        show (if put (put row j (row i)) i mark k = x then 1 else 0) = _
        rw [put_ne _ _ apart])
    simp only [put_same, put_ne _ _ other, if_neg none, if_neg none'] at first second
    omega
  · rw [if_neg good, if_neg good]

theorem rowPages_congr {row row' : Nat → Nat} (same : ∀ j < PTNUM, row' j = row j) : rowPages row' = rowPages row := by
  unfold rowPages
  have equal : (List.range PTNUM).map row' = (List.range PTNUM).map row := by
    apply List.map_congr_left
    intro j member
    exact same j (List.mem_range.mp member)
  rw [equal]

theorem Trades.refl (sound : Sound pool s) (hp : p < PTABSIZE) : Trades p s s :=
  ⟨fun _ _ => ⟨rfl, rfl⟩, fun _ => rfl, sound.here p hp, fun video => sound.aside video p hp⟩

theorem Trades.still {u : State} (trades : Trades p s t) (still : Still t u) : Trades p s u := by
  constructor
  · rw [still.ptab, still.pmap]
    exact trades.others
  · rw [freeList_still still, held_still still]
    exact trades.count
  · rw [still.ptab]
    exact trades.here
  · rw [still.ptab, still.pmap]
    exact trades.aside

/-- Only the row of the process changes. -/
theorem trades_row {row : Nat → Nat} (sound : Sound pool s) (hp : p < PTABSIZE)
    (count : ∀ x, (rowPages row).count x = (rowPages (s.pmap p)).count x) (aside : Aside row) :
    Trades p s { s with pmap := put s.pmap p row } := by
  constructor
  · exact fun r other => ⟨rfl, put_ne _ _ other⟩
  · intro x
    have same : (held { s with pmap := put s.pmap p row } p).count x = (held s p).count x := by
      unfold held
      dsimp only
      split
      · rw [put_same]
        exact count x
      · rfl
    rw [same]
    rfl
  · exact sound.here p hp
  · intro _ _
    dsimp only
    rw [put_same]
    exact aside

theorem trades_unmap (sound : Sound pool s) (hp : p < PTABSIZE) (used : (s.ptab p).used = true)
    (video : Build.vidmap = true) : Trades p s (vidmapUnmap p s).1 := by
  unfold vidmapUnmap
  split
  · exact Trades.refl sound hp
  · rename_i mapped
    obtain ⟨low, free⟩ := sound.aside video p hp used mapped
    have nine : PTNUM = 9 := if_pos video
    have rows : (setCell p 8 PAGE_INVALID (setCell p (s.pmap p 9) (s.pmap p 8) s)) =
        { s with pmap := put s.pmap p (put (put (s.pmap p) (s.pmap p 9) (s.pmap p 8)) 8 PAGE_INVALID) } := by
      unfold setCell
      dsimp only
      rw [put_put, put_same]
    show Trades p s (setCell p 8 PAGE_INVALID (setCell p (s.pmap p 9) (s.pmap p 8) s))
    rw [rows]
    apply trades_row sound hp
    · intro x
      exact rowPages_swap (by omega) (by omega) (by omega) free not_real_invalid x
    · intro no
      rw [put_same] at no
      exact absurd rfl no

theorem trades_map {addr : Nat} (sound : Sound pool s) (hp : p < PTABSIZE) (small : addr < 65536)
    (video : Build.vidmap = true) : Trades p s (vidmapMap p addr s).1 := by
  unfold vidmapMap
  split
  · exact Trades.refl sound hp
  · rename_i unmapped
    have free : s.pmap p 8 = PAGE_INVALID := of_not_not unmapped
    have low : addr / PAGESIZE < 8 := by
      unfold PAGESIZE
      omega
    have nine : PTNUM = 9 := if_pos video
    dsimp only
    generalize addr / PAGESIZE = bank at low
    have rows : setCell p bank PAGE_VIDEO (setCell p 9 bank (setCell p 8 (s.pmap p bank) s)) =
        { s with pmap := put s.pmap p (put (put (put (s.pmap p) 8 (s.pmap p bank)) 9 bank) bank PAGE_VIDEO) } := by
      unfold setCell
      dsimp only
      rw [put_put, put_same, put_put, put_same]
    rw [rows]
    have not_video : ¬ real PAGE_VIDEO := fun no => no.2 rfl
    apply trades_row sound hp
    · intro x
      have first : rowPages (put (put (put (s.pmap p) 8 (s.pmap p bank)) 9 bank) bank PAGE_VIDEO) =
          rowPages (put (put (s.pmap p) 8 (s.pmap p bank)) bank PAGE_VIDEO) := by
        apply rowPages_congr
        intro j less
        by_cases here : j = bank
        · rw [here, put_same, put_same]
        · rw [put_ne _ _ here, put_ne _ _ here, put_ne _ _ (by omega : j ≠ 9)]
      rw [first]
      exact rowPages_swap (by omega) (by omega) (by omega) (by rw [free]; exact not_real_invalid) not_video x
    · intro _
      have apart : (9 : Nat) ≠ bank := by omega
      rw [put_ne _ _ apart, put_same, put_same]
      exact ⟨low, not_video⟩

theorem trades_exec {size : Nat} {victims : List Nat} (sound : Sound pool s) (hp : p < PTABSIZE)
    (used : (s.ptab p).used = true) (kind : (Action.realloc p size victims).keeps s)
    (done : exec p size victims s = some t) : Trades p s t := by
  unfold exec pagemapRealloc at done
  obtain ⟨r, tried, result⟩ := Option.map_eq_some_iff.mp done
  dsimp only at tried
  have unmapped : Trades p s (if Build.vidmap ∧ s.pmap p 8 ≠ PAGE_INVALID then (vidmapUnmap p s).1 else s) := by
    split
    · rename_i mapped
      exact trades_unmap sound hp used mapped.1
    · exact Trades.refl sound hp
  have swap : (if Build.vidmap ∧ s.pmap p 8 ≠ PAGE_INVALID then (vidmapUnmap p s).1 else s).swapptr = s.swapptr ∧
      (if Build.vidmap ∧ s.pmap p 8 ≠ PAGE_INVALID then (vidmapUnmap p s).1 else s).pfptr = s.pfptr ∧
      (if Build.vidmap ∧ s.pmap p 8 ≠ PAGE_INVALID then (vidmapUnmap p s).1 else s).swapmap = s.swapmap := by
    unfold vidmapUnmap
    split
    · split
      · exact ⟨rfl, rfl, rfl⟩
      · exact ⟨rfl, rfl, rfl⟩
    · exact ⟨rfl, rfl, rfl⟩
  generalize (if Build.vidmap ∧ s.pmap p 8 ≠ PAGE_INVALID then (vidmapUnmap p s).1 else s) = u at *
  have moved : Trades p s r.1 := by
    split at tried
    · injection tried with same
      rw [← same]
      exact unmapped
    · rename_i differ
      rcases kind with same | ⟨few, none⟩
      · exact absurd same differ
      · rw [if_neg (by omega)] at tried
        obtain ⟨v, found, given⟩ := Option.map_eq_some_iff.mp tried
        have none' : stuck victims u := stuck_congr swap.1 swap.2.2 none
        obtain ⟨still, room⟩ := still_findRoom (Or.inr none') found
        have short : v.2 = false := by
          by_contra yes
          have enough := room (Bool.eq_true_of_not_eq_false yes)
          omega
        rw [short, if_neg Bool.false_ne_true] at given
        rw [← given]
        exact unmapped.still still
  rw [← result]
  split
  · exact moved.retop (fun _ => rfl) (fun _ => rfl)
  · exact moved

/-! ## Steps -/

theorem idle_held (none : idle s) (k : Nat) (hk : k < PTABSIZE) : held s k = [] := held_unused (none k hk)

theorem Sound.add {page : Nat} (sound : Sound pool s) (none : idle s) (good : real page)
    (new : page ∉ freeList s) (done : pagemapAdd page s = some t) : Sound (pool ++ [page]) t := by
  unfold pagemapAdd at done
  split at done
  · cases done
  · rename_i room
    injection done with same
    have bound := Build.mapsBound
    have height := sound.height
    have next : (s.pfptr + 1) % 256 = s.pfptr + 1 := by omega
    have free : freeList t = freeList s ++ [page] := by
      rw [← same]
      unfold freeList
      dsimp only
      rw [next]
      exact pile_put s.pfree s.pfptr page
    have notIn : page ∉ pool := by
      intro member
      apply new
      have all := sound.shared page
      have nothing : total PTABSIZE (fun k => (held s k).count page) = 0 := by
        rw [total_congr (g := fun _ => 0), total_zero]
        intro k hk
        rw [idle_held none k hk, List.count_nil]
      have some := List.count_pos_iff.mpr member
      rw [nothing] at all
      exact List.count_pos_iff.mp (by omega)
    have rows : held t = held s := by
      rw [← same]
      rfl
    constructor
    · rw [List.nodup_append]
      refine ⟨sound.unique, List.nodup_singleton _, ?_⟩
      intro a member b here same
      rw [List.mem_singleton.mp here] at same
      exact notIn (same ▸ member)
    · have length := sound.shared.length
      have nothing : total PTABSIZE (fun k => (held s k).length) = 0 := by
        rw [total_congr (g := fun _ => 0), total_zero]
        intro k hk
        rw [idle_held none k hk, List.length_nil]
      unfold freeList at length
      rw [pile_length, nothing] at length
      rw [List.length_append, List.length_singleton]
      omega
    · intro x member
      rcases List.mem_append.mp member with old | one
      · exact sound.proper x old
      · rw [List.mem_singleton.mp one]
        exact good
    · rw [free, rows]
      exact shared_add sound.shared page
    · rw [← same]
      exact sound.here
    · rw [← same]
      exact sound.aside

theorem still_swapmapAdd {slot : Nat} (done : swapmapAdd slot s = some t) : Still s t := by
  unfold swapmapAdd at done
  split at done
  · cases done
  · injection done with same
    rw [← same]
    exact ⟨rfl, rfl, rfl, rfl⟩

theorem Sound.step {a : Action} (sound : Sound pool s) (kind : a.keeps s) (step : a.apply s = some t) :
    Sound (pool ++ a.adds) t := by
  have traded : ∀ p, p < PTABSIZE → Trades p s t → Sound (pool ++ []) t := by
    intro p hp trades
    rw [List.append_nil]
    exact sound.trade hp trades
  have stilled : Still s t → Sound (pool ++ []) t := by
    intro still
    rw [List.append_nil]
    exact sound.still still
  cases a with
  | add page =>
    obtain ⟨⟨none, good, new⟩, done⟩ := Option.ite_none_right_eq_some.mp step
    exact sound.add none good new done
  | addSwap slot =>
    obtain ⟨_, done⟩ := Option.ite_none_right_eq_some.mp step
    exact stilled (still_swapmapAdd done)
  | init p =>
    obtain ⟨⟨none, hp⟩, done⟩ := Option.ite_none_right_eq_some.mp step
    exact traded p hp (trades_init sound (none p hp) done)
  | alloc parent p victims =>
    obtain ⟨⟨_, _, hp, unused⟩, done⟩ := Option.ite_none_right_eq_some.mp step
    exact traded p hp (trades_create sound unused kind done).1
  | realloc p size victims =>
    obtain ⟨⟨hp, resident⟩, done⟩ := Option.ite_none_right_eq_some.mp step
    exact traded p hp (trades_exec sound hp resident.1 kind done)
  | free p => exact absurd kind id
  | swapout p =>
    obtain ⟨_, done⟩ := Option.ite_none_right_eq_some.mp step
    obtain ⟨r, out, same⟩ := Option.map_eq_some_iff.mp done
    exact stilled (same ▸ (still_swapout kind out).1)
  | swapin p victims =>
    obtain ⟨⟨hp, used, away⟩, _⟩ := Option.ite_none_right_eq_some.mp step
    rw [sound.here p hp used] at away
    cases away
  | map p addr =>
    obtain ⟨⟨video, hp, _, small⟩, same⟩ := Option.ite_none_right_eq_some.mp step
    injection same with same
    exact traded p hp (same ▸ trades_map sound hp small video)
  | unmap p =>
    obtain ⟨⟨video, hp, resident⟩, same⟩ := Option.ite_none_right_eq_some.mp step
    injection same with same
    exact traded p hp (same ▸ trades_unmap sound hp resident.1 video)
  | store p i x b =>
    obtain ⟨_, same⟩ := Option.ite_none_right_eq_some.mp step
    injection same with same
    apply stilled
    rw [← same]
    exact ⟨rfl, rfl, rfl, rfl⟩

/-! ## Coming back from swap -/

/-- `swapin` reads to the cells behind `pt` only. -/
theorem readBanks_other {pt blk size base page : Nat}
    (apart : ∀ k, pt < k → k < pt + 2 * n → cell s p k ≠ page) :
    (readBanks p n pt blk size base s).mem page = s.mem page := by
  induction n generalizing s pt blk size base with
  | zero => rfl
  | succ n ih =>
    unfold readBanks
    split
    · refine Eq.trans (ih fun k low high => apart k (by omega) (by omega)) ?_
      unfold swapread
      funext x
      exact if_neg fun here => apart (pt + 1) (by omega) (by omega) here.1.symm
    · exact ih (fun k low high => apart k (by omega) (by omega))

theorem HIBANK_le : HIBANK ≤ 8 := by
  have top := Build.topBound
  unfold HIBANK PAGESIZE
  omega

/-- The first page of a process is not read back. -/
theorem swapin_first {map : Nat} (apart : ∀ k, 0 < k → k < 16 → cell s p k ≠ cell s p 0) :
    (swapin p map s).mem (cell s p 0) = s.mem (cell s p 0) := by
  have banks := HIBANK_le
  unfold swapin
  split
  · rfl
  · exact readBanks_other fun k low high => apart k low (by omega)

end Facts

/-- The kernel has just been loaded. -/
structure Cold (s : State) : Prop where
  pfptr : s.pfptr = 0
  idle : idle s

theorem Cold.sound {s : State} (cold : Cold s) : Sound [] s := by
  have off : ∀ p < PTABSIZE, (s.ptab p).used ≠ true := by
    intro p hp used
    rw [cold.idle p hp] at used
    cases used
  constructor
  · exact List.nodup_nil
  · exact Nat.zero_le _
  · intro x no
    cases no
  · intro x
    have free : freeList s = [] := by
      unfold freeList pile
      rw [cold.pfptr]
      rfl
    have nothing : total PTABSIZE (fun k => (held s k).count x) = 0 := by
      rw [total_congr (g := fun _ => 0), total_zero]
      intro k hk
      rw [idle_held cold.idle k hk, List.count_nil]
    rw [free, nothing]
    rfl
  · exact fun p hp used => absurd used (off p hp)
  · exact fun _ p hp used => absurd used (off p hp)

theorem added_snoc (as : List Action) (a : Action) : added (as ++ [a]) = added as ++ a.adds := by
  simp [added]

/-- A step that keeps the pages. -/
def keepsPages (s : State) (a : Action) (t : State) : Prop := a.keeps s ∧ a.apply s = some t

theorem Sound.run {s t : State} {as : List Action} (sound : Sound [] s)
    (run : Steps keepsPages s as t) : Sound (added as) t := by
  induction run with
  | nil => exact sound
  | snoc _ last ih =>
    rw [added_snoc]
    exact ih.step last.1 last.2

/-- The pages are kept as long as none goes back to the stack or comes off its wrong end,
and no process goes to swap. What is read back from swap misses the first page. -/
theorem pages_kept (s t : State) (as : List Action) (cold : Cold s) (run : Steps keepsPages s as t) :
    Conserved (added as) t ∧
      ∀ (u : State) (p map : Nat), (∀ k, 0 < k → k < 16 → cell u p k ≠ cell u p 0) →
        (swapin p map u).mem (cell u p 0) = u.mem (cell u p 0) := by
  have sound := cold.sound.run run
  exact ⟨⟨shared_iff_perm.mp sound.shared, sound.here⟩, fun _ _ _ apart => swapin_first apart⟩

/-- Two processes with 56K each. -/
@[reducible] def small : Build where
  PTABSIZE := 2
  MAX_MAPS := 64
  MAX_SWAPS := 8
  PROGLOAD := 0x100
  PROGTOP := 0xE000
  SWAPBASE := 0
  SWAP_SIZE := 0x70
  PAGE_INVALID := 0xFF
  PAGE_VIDEO := 0xFE
  vidmap := true
  swaps := true
  mapsBound := by decide
  swapsBound := by decide
  topBound := by decide
  baseBound := by decide

def off : State where
  pfree := fun _ => 0
  pfptr := 0
  pmap := fun _ _ => 0
  swapmap := fun _ => 0
  swapptr := 0
  ptab := fun _ => ⟨false, 0, false, 0, 0⟩
  mem := fun _ _ => 0
  swapdev := fun _ _ => 0

theorem off_cold : @Cold small off := by
  let _ := small
  exact ⟨rfl, fun _ _ => rfl⟩

omit [Build] in
/-- Init maps the video page and forks. -/
theorem pages_kept_fork : ∃ (_ : Build) (t : State), Steps keepsPages off
    [.add 1, .add 2, .add 3, .init 0, .map 0 0, .alloc 0 1 []] t ∧
    (freeList t ++ (List.range 2).flatMap (held t)).Perm [1, 2, 3] ∧
    (swapin 1 1 t).mem (cell t 1 0) = t.mem (cell t 1 0) := by
  let m := small
  have runs : (perform Action.apply Action.keeps [.add 1, .add 2, .add 3, .init 0, .map 0 0,
      .alloc 0 1 []] off).map (fun t => (List.range 16).all fun k => k = 0 ∨ cell t 1 k ≠ cell t 1 0) =
      some true := by decide +kernel
  obtain ⟨t, done, apart⟩ := Option.map_eq_some_iff.mp runs
  have run : Steps keepsPages off _ t := perform_steps done
  have kept := pages_kept off t _ off_cold run
  refine ⟨m, t, run, kept.1.pages, kept.2 t 1 1 fun k some less => ?_⟩
  have each := of_decide_eq_true (List.all_eq_true.mp apart k (List.mem_range.mpr less))
  exact each.resolve_left (Nat.ne_of_gt some)

omit [Build] in
/-- A page that is freed goes missing, and what was in a page that goes to swap does not
come back. -/
theorem pages_missing : ∃ (_ : Build), Cold off ∧
    (∃ t, Steps (fun s (a : Action) t => a.apply s = some t) off
      [.add 1, .add 2, .add 3, .init 0, .alloc 0 1 [], .free 1] t ∧
      ¬ (freeList t ++ (List.range PTABSIZE).flatMap (held t)).Perm
        (added [.add 1, .add 2, .add 3, .init 0, .alloc 0 1 [], .free 1])) ∧
    ∃ s t, Steps (fun s (a : Action) t => a.apply s = some t) off
      [.add 1, .add 2, .add 3, .add 4, .addSwap 1, .init 0, .store 0 0 7 5] s ∧
      Steps (fun s (a : Action) t => a.apply s = some t) s [.swapout 0, .swapin 0 []] t ∧
      (s.ptab 0).resident ∧ (t.ptab 0).resident ∧
      s.mem (s.pmap 0 0) 7 = 5 ∧ t.mem (t.pmap 0 0) 7 = 0 := by
  let m := small
  have first : (perform Action.apply (fun _ _ => True) [.add 1, .add 2, .add 3, .init 0, .alloc 0 1 [], .free 1] off).map
      (fun t => (freeList t ++ (List.range 2).flatMap (held t)).length) = some 255 := by decide +kernel
  have second : (perform Action.apply (fun _ _ => True) [.add 1, .add 2, .add 3, .add 4, .addSwap 1, .init 0,
      .store 0 0 7 5] off).map (fun s => (decide (s.ptab 0).resident, s.mem (s.pmap 0 0) 7,
        (perform Action.apply (fun _ _ => True) [.swapout 0, .swapin 0 []] s).map
          fun t => (decide (t.ptab 0).resident, t.mem (t.pmap 0 0) 7))) = some (true, 5, some (true, 0)) := by
    decide +kernel
  refine ⟨m, off_cold, ?_, ?_⟩
  · obtain ⟨t, done, length⟩ := Option.map_eq_some_iff.mp first
    refine ⟨t, (perform_steps done).mono fun _ _ _ step => step.2, fun perm => ?_⟩
    have same : 255 = 3 := length.symm.trans perm.length_eq
    cases same
  · obtain ⟨s, done, facts⟩ := Option.map_eq_some_iff.mp second
    injection facts with here rest
    injection rest with five later
    obtain ⟨t, back, facts'⟩ := Option.map_eq_some_iff.mp later
    injection facts' with here' zero
    exact ⟨s, t, (perform_steps done).mono fun _ _ _ step => step.2,
      (perform_steps back).mono fun _ _ _ step => step.2, of_decide_eq_true here, of_decide_eq_true here', five, zero⟩

end Bank8k
