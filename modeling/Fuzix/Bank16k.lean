import Fuzix.Lib.Wp
import Fuzix.Sched

/-!
# Banked memory and swap

The 16K pages of bank16k.c and the swap slots of swap.c. A process has four bytes that
name its pages; when it is swapped out the first two are zero and the others name its
slot. The swap device transfers what it is asked to. The fields of `udata` that every
transfer sets are left out.
-/

namespace Bank16k

open Table Wp

export Sched (Status)

/-- `freeMaps` starts with a page that is none. -/
def NO_PAGE : Nat := 0xFF

def PAGESIZE : Nat := 0x4000

class Machine where
  PTABSIZE : Nat
  MAX_MAPS : Nat
  MAX_SWAPS : Nat
  PROGLOAD : Nat
  PROGTOP : Nat
  SWAPBASE : Nat
  SWAP_SIZE : Nat
  /-- `SWAPDEV` is defined. -/
  swaps : Bool
  /-- `_switchin` starts with `get_common`, or else it calls `swapper`. -/
  ownCommon : Bool
  /-- The part of a page that `copy_common` copies. -/
  inCommon : Nat → Bool
  mapsBound : MAX_MAPS < 256
  swapsBound : MAX_SWAPS < 256
  baseBound : SWAPBASE < PAGESIZE
  baseAlign : SWAPBASE % 512 = 0
  sizeLow : 0x60 ≤ SWAP_SIZE + SWAPBASE / 512
  sizeHigh : SWAP_SIZE + SWAPBASE / 512 ≤ 0x80
  /-- The boot does not cross a bank. -/
  initBank : (PROGLOAD + 4096 + 0xFFFF - PROGTOP) % 65536 / 16384 = (0xFFFF - PROGTOP) % 65536 / 16384

export Machine (PTABSIZE MAX_MAPS MAX_SWAPS PROGLOAD PROGTOP SWAPBASE SWAP_SIZE)

/-- `page` holds the bytes of `p_page` and `p_page2`. -/
structure Proc where
  status : Status
  top : Nat
  waitno : Nat
  page : Nat → Nat

/-- `common` is the page mapped at the top, and `low` the byte that is read as the status
of a process whose pointer is null. -/
structure State where
  pfree : Nat → Nat
  pfptr : Nat
  swapmap : Nat → Nat
  swapptr : Nat
  ptab : Nat → Proc
  cur : Nat
  common : Nat
  nextp : Nat
  waitno : Nat
  low : Nat
  mem : Nat → Nat → UInt8
  swapdev : Nat → Nat → UInt8

inductive Panic where
  | mapOver
  | maxSwap
  | alreadySwap
  | killedInit
deriving DecidableEq

abbrev B := StateT State (Except Panic)

def State.me (s : State) : Proc := s.ptab s.cur

def modifyProc (p : Nat) (f : Proc → Proc) : B Unit :=
  modify (fun s => { s with ptab := put s.ptab p (f (s.ptab p)) })

/-- `p_page == 0`. -/
def Proc.noPage (q : Proc) : Prop := q.page 0 = 0 ∧ q.page 1 = 0

instance (q : Proc) : Decidable q.noPage := by unfold Proc.noPage; infer_instance

def Proc.page2 (q : Proc) : Nat := q.page 2 + 256 * q.page 3

def Proc.dead (q : Proc) : Prop := q.status = .empty ∨ q.status = .zombie

instance (q : Proc) : Decidable q.dead := by unfold Proc.dead; infer_instance

/-! ## Pages -/

/-- `pfree[pfptr++] = page`. -/
def pushPage (page : Nat) : B Unit :=
  modify (fun s => { s with pfree := put s.pfree s.pfptr page, pfptr := (s.pfptr + 1) % 256 })

/-- `pfree[--pfptr]`. -/
def popPage : B Nat := do
  modify (fun s => { s with pfptr := (s.pfptr + 255) % 256 })
  let s ← get
  return s.pfree s.pfptr

variable [Machine]

def pagemapAdd (page : Nat) : B Unit := do
  let s ← get
  if s.pfptr = MAX_MAPS then throw .mapOver
  else pushPage page

/-- The loop of `pagemap_free`. -/
def freeMaps (page : Nat → Nat) : Nat → Nat → Nat → B Unit
  | 0, _, _ => pure ()
  | n + 1, i, last => do
    if page i ≠ last then
      pushPage (page i)
      freeMaps page n (i + 1) (page i)
    else freeMaps page n (i + 1) last

def pagemapFree (p : Nat) : B Unit := do
  let s ← get
  freeMaps (s.ptab p).page 4 0 NO_PAGE

/-- In 16 bits. -/
def mapsNeeded (top : Nat) : Nat := (top + 0xFFFF - PROGTOP) % 65536 / 16384 + 1

/-! ## Swap slots -/

def swapmapAdd (swap : Nat) : B Unit := do
  let s ← get
  if s.swapptr = MAX_SWAPS then throw .maxSwap
  else modify (fun s => { s with
    swapmap := put s.swapmap s.swapptr swap
    swapptr := s.swapptr + 1 })

def swapmapAlloc : B Nat := do
  let s ← get
  if s.swapptr ≠ 0 then
    modify (fun s => { s with swapptr := s.swapptr - 1 })
    return s.swapmap (s.swapptr - 1)
  else return 0

def swapwrite (blk size base page : Nat) : B Unit :=
  modify (fun s => { s with
    swapdev := fun b o => if blk ≤ b ∧ b < blk + size ∧ o < 512
      then s.mem page (base % PAGESIZE + 512 * (b - blk) + o) else s.swapdev b o })

def swapread (blk size base page : Nat) : B Unit :=
  modify (fun s => { s with
    mem := fun q x => if q = page ∧ base % PAGESIZE ≤ x ∧ x < base % PAGESIZE + 512 * size
      then s.swapdev (blk + (x - base % PAGESIZE) / 512) ((x - base % PAGESIZE) % 512)
      else s.mem q x })

/-- The four transfers of `swapout` and `swapin`. -/
def swapBanks (xfer : Nat → Nat → Nat → Nat → B Unit) (page : Nat → Nat) :
    Nat → Nat → Nat → Nat → Nat → B Unit
  | 0, _, _, _, _ => pure ()
  | n + 1, i, blk, size, base => do
    xfer blk size base (page i)
    swapBanks xfer page n (i + 1) (blk + size)
      (if i = 2 then SWAP_SIZE + SWAPBASE / 512 - 0x60 else 0x20)
      ((base + 0x4000) % 65536 / 0x4000 * 0x4000)

/-- True when there is no more swap. -/
def swapout (p : Nat) : B Bool := do
  let s ← get
  if (s.ptab p).noPage then throw .alreadySwap
  else
    let map ← swapmapAlloc
    if map = 0 then return true
    else
      swapBanks swapwrite (s.ptab p).page 4 0 (map * SWAP_SIZE) ((0x4000 - SWAPBASE) / 512) SWAPBASE
      pagemapFree p
      modifyProc p (fun q => { q with
        page := fun i => if i = 2 then map % 256 else if i = 3 then map / 256 else 0 })
      return false

def swapin (p map : Nat) : B Unit := do
  let s ← get
  if (s.ptab p).noPage then pure ()
  else swapBanks swapread (s.ptab p).page 4 0 (map * SWAP_SIZE) ((0x4000 - SWAPBASE) / 512) SWAPBASE

def Status.code : Status → Nat
  | .empty => 0
  | .running => 1
  | .ready => 2
  | .sleep => 3
  | .stopped => 4
  | .forking => 5
  | .zombie => 6
  | .nosleep => 7

/-- `p->p_status`. -/
def statusOf (s : State) : Option Nat → Nat
  | some p => Status.code (s.ptab p).status
  | none => s.low

/-- One round of the loop of `swapvictim`: the last ready process, and the one that has
waited longest with its time. -/
def look (s : State) (p : Option Nat) (found : Option Nat × Option Nat × Nat) (c : Nat) :
    Option Nat × Option Nat × Nat :=
  let (r, f, sc) := found
  if (s.ptab c).noPage then found
  else
    let r := if (s.ptab c).status = .ready then some c else r
    let time := (s.waitno + 65536 - (s.ptab c).waitno) % 65536
    -- the second status is that of `p`
    if Status.code .ready < Status.code (s.ptab c).status ∧ statusOf s p ≤ Status.code .forking ∧
        sc ≤ time then (r, some c, time) else (r, f, sc)

/-- The process that wants memory is `p`. -/
def swapvictim (s : State) (p : Option Nat) (notself : Bool) : Option Nat :=
  let order := (List.range PTABSIZE).map (fun k => (s.nextp + k) % PTABSIZE)
  let (r, f, _) := order.foldl (look s p) (none, none, 0)
  match f with
  | some f => some f
  | none => if notself then r else some s.cur

def swapneeded (p : Option Nat) (notself : Bool) : B (Option Nat) := do
  let s ← get
  match swapvictim s p notself with
  | none => return none
  | some n =>
    let full ← swapout n
    return if full then none else some n

/-! ## Allocation -/

/-- `while (needed > pfptr)`; every round that goes on takes a slot. -/
def makeRoom (p needed : Nat) : Nat → B Bool
  | 0 => do
    let s ← get
    if needed ≤ s.pfptr then return true
    else
      let _ ← swapneeded (some p) true
      return false
  | slots + 1 => do
    let s ← get
    if needed ≤ s.pfptr then return true
    else
      let victim ← swapneeded (some p) true
      match victim with
      | none => return false
      | some _ => makeRoom p needed slots

/-- Whether there is room, or can be made. -/
def findRoom (p needed : Nat) : B Bool := do
  let s ← get
  if Machine.swaps then makeRoom p needed s.swapptr else return decide (needed ≤ s.pfptr)

def setPage (p i page : Nat) : B Unit :=
  modifyProc p (fun q => { q with page := put q.page i page })

/-- `ptr[i] = pfree[--pfptr]`, from `i` on. -/
def fillMaps (p : Nat) : Nat → Nat → B Unit
  | 0, _ => pure ()
  | n + 1, i => do
    let page ← popPage
    setPage p i page
    fillMaps p n (i + 1)

/-- True when it fails. `c` is the common page if there is one already. -/
def pagemapAlloc2 (p c : Nat) : B Bool := do
  let s ← get
  let needed := mapsNeeded (s.ptab p).top - (if c ≠ 0 then 1 else 0)
  let room ← findRoom p needed
  if room = false then return true
  else
    fillMaps p needed 0
    modifyProc p (fun q => { q with
      page := fun i => if needed ≤ i ∧ i < 4 then (if c = 0 then q.page (needed - 1) else c)
        else q.page i })
    return false

def pagemapAlloc (p : Nat) : B Bool := pagemapAlloc2 p 0

/-- The loop of `pagemap_realloc` that frees pages. -/
def shrinkMaps (p : Nat) : Nat → Nat → B Unit
  | 0, _ => pure ()
  | n + 1, i => do
    let s ← get
    pushPage ((s.ptab p).page (i - 1))
    setPage p (i - 1) ((s.ptab p).page 3)
    shrinkMaps p n (i + 1)

/-- True when it fails. -/
def pagemapRealloc (size : Nat) : B Bool := do
  let s ← get
  let have' := mapsNeeded s.me.top
  let want := mapsNeeded size
  if want = have' then return false
  else if want < have' then
    shrinkMaps s.cur (have' - want) want
    return false
  else if want - have' ≤ s.pfptr then
    fillMaps s.cur (want - have') (have' - 1)
    return false
  else return true

/-! ## Coming back from swap -/

def copyCommon (page : Nat) : B Unit :=
  modify (fun s => { s with
    mem := put s.mem page (fun x => if Machine.inCommon x then s.mem s.common x
      else s.mem page x) })

def getCommon : B Nat := do
  let s ← get
  if s.me.dead then popPage
  else if s.pfptr ≠ 0 then
    let page ← popPage
    copyCommon page
    return page
  else
    let _ ← swapneeded none false
    popPage

def swapper2 (p map : Nat) : B Unit := do
  swapin p map
  swapmapAdd map

def swapFinish (page p : Nat) : B Unit := do
  let s ← get
  let _ ← pagemapAlloc2 p page
  swapper2 p (s.ptab p).page2

def swapper (p : Nat) : B Unit := do
  let s ← get
  let _ ← pagemapAlloc p
  swapper2 p (s.ptab p).page2

/-- What `_switchin` does with a process that is swapped out. -/
def bringIn (p : Nat) : B Unit := do
  if Machine.ownCommon then
    let page ← getCommon
    swapFinish page p
  else swapper p

/-! ## Processes -/

/-- An entry that `ptab_alloc` has cleared. -/
def blank (top : Nat) : Proc where
  status := .empty
  top := top
  waitno := 0
  page := fun _ => 0

def setStatus (p : Nat) (status : Status) : B Unit :=
  modifyProc p (fun q => { q with status := status })

def freeSlot (s : State) : Option Nat :=
  (List.range PTABSIZE).find? (fun p => (s.ptab p).status = .empty)

/-- `fork_copy`, the first `n` banks. -/
def copyBanks (source target : Nat → Nat) : Nat → B Unit
  | 0 => pure ()
  | n + 1 => do
    copyBanks source target n
    modify (fun s => { s with mem := put s.mem (target n) (s.mem (source n)) })

/-- `copied` says whether `dofork` could. The child runs first. -/
def fork (copied : Bool) : B Unit := do
  let s ← get
  match freeSlot s with
  | none => pure ()
  | some p =>
    modifyProc p (fun _ => blank s.me.top)
    let failed ← pagemapAlloc p
    if failed then pure ()
    else
      setStatus p .forking
      let s ← get
      if copied then
        copyBanks s.me.page (s.ptab p).page 4
        setStatus s.cur .ready
        setStatus p .running
        modify (fun s => { s with cur := p, common := (s.ptab p).page 3 })
      else
        pagemapFree p
        setStatus p .empty

/-- The top of the first process is set when it has its pages. -/
def createInit : B Unit := do
  modifyProc 0 (fun _ => blank 0)
  let failed ← pagemapAlloc 0
  if failed then pure ()
  else
    modifyProc 0 (fun q => { q with top := PROGLOAD + 4096, status := .running })
    modify (fun s => { s with cur := 0, common := (s.ptab 0).page 3 })

/-- What `_execve` does to the memory. -/
def exec (size : Nat) : B Unit := do
  let s ← get
  let failed ← pagemapRealloc size
  if failed then pure ()
  else modifyProc s.cur (fun q => { q with top := size })

/-- `gone` says that nobody waits for the process. -/
def doexit (gone : Bool) : B Unit := do
  let s ← get
  -- `create_init` takes the first entry and the first pid
  if s.cur = 0 then throw .killedInit
  else
    pagemapFree s.cur
    setStatus s.cur (if gone then .empty else .zombie)

def switchin (p : Nat) : B Unit := do
  let s ← get
  if (s.ptab p).noPage then bringIn p
  setStatus p .running
  modify (fun s => { s with cur := p, common := (s.ptab p).page 3 })

/-! ## Runs -/

/-- The pages on the stack, the next one to be allocated last. -/
def freeList (s : State) : List Nat := (List.range s.pfptr).map s.pfree

def slotList (s : State) : List Nat := (List.range s.swapptr).map s.swapmap

inductive Action where
  | add (page : Nat)
  | addSwap (slot : Nat)
  | init
  | fork (copied : Bool)
  | exec (size : Nat)
  | exit (gone : Bool)
  | reap (p : Nat)
  | sched (p : Nat) (status : Status) (waitno : Nat)
  | select (p : Nat)
  | tick
  | low (b : Nat)
  | swapout (p : Nat)
  | switchin (p : Nat)
  | store (i x : Nat) (b : UInt8)

/-- No process has been made yet. -/
def booting (s : State) : Prop := ∀ p, p < PTABSIZE → (s.ptab p).status = .empty

/-- Pages and slots are added at boot, none twice. The page 0 stands for a process that
is swapped out. -/
def Action.enabled (s : State) : Action → Prop
  | .add page => booting s ∧ 0 < page ∧ page < 256 ∧ page ∉ freeList s
  | .addSwap slot => booting s ∧ slot < 256 ∧ slot ∉ slotList s
  | .init => booting s ∧ 0 < PTABSIZE
  | .reap p => s.me.status = .running ∧ p < PTABSIZE ∧ (s.ptab p).status = .zombie
  | .sched p status _ => p < PTABSIZE ∧ ¬ (s.ptab p).dead ∧
      (status = .ready ∨ status = .sleep ∨ status = .stopped)
  | .select p => p < PTABSIZE
  | .tick => True
  | .low b => b < 256
  | .swapout p => Machine.swaps ∧ p < PTABSIZE ∧ ¬ (s.ptab p).dead ∧ ¬ (s.ptab p).noPage ∧
      (s.ptab p).status ≠ .running
  | .switchin p => p < PTABSIZE ∧ (s.ptab p).status = .ready ∧ s.me.status ≠ .running
  | .store i x _ => s.me.status = .running ∧ i < 4 ∧ x < PAGESIZE
  | _ => s.me.status = .running

instance (s : State) : Decidable (booting s) := by unfold booting; infer_instance

instance (s : State) : (a : Action) → Decidable (a.enabled s)
  | .add page => inferInstanceAs (Decidable (booting s ∧ 0 < page ∧ page < 256 ∧ page ∉ freeList s))
  | .addSwap slot => inferInstanceAs (Decidable (booting s ∧ slot < 256 ∧ slot ∉ slotList s))
  | .init => inferInstanceAs (Decidable (booting s ∧ 0 < PTABSIZE))
  | .reap p => inferInstanceAs (Decidable (s.me.status = .running ∧ p < PTABSIZE ∧
      (s.ptab p).status = .zombie))
  | .sched p status _ => inferInstanceAs (Decidable (p < PTABSIZE ∧ ¬ (s.ptab p).dead ∧
      (status = .ready ∨ status = .sleep ∨ status = .stopped)))
  | .select p => inferInstanceAs (Decidable (p < PTABSIZE))
  | .tick => isTrue trivial
  | .low b => inferInstanceAs (Decidable (b < 256))
  | .swapout p => inferInstanceAs (Decidable (Machine.swaps ∧ p < PTABSIZE ∧ ¬ (s.ptab p).dead ∧
      ¬ (s.ptab p).noPage ∧ (s.ptab p).status ≠ .running))
  | .switchin p => inferInstanceAs (Decidable (p < PTABSIZE ∧ (s.ptab p).status = .ready ∧
      s.me.status ≠ .running))
  | .store i x _ => inferInstanceAs (Decidable (s.me.status = .running ∧ i < 4 ∧ x < PAGESIZE))
  | .fork _ => inferInstanceAs (Decidable (s.me.status = .running))
  | .exec _ => inferInstanceAs (Decidable (s.me.status = .running))
  | .exit _ => inferInstanceAs (Decidable (s.me.status = .running))

def Action.run : Action → B Unit
  | .add page => pagemapAdd page
  | .addSwap slot => swapmapAdd slot
  | .init => createInit
  | .fork copied => Bank16k.fork copied
  | .exec size => Bank16k.exec size
  | .exit gone => doexit gone
  | .reap p => setStatus p .empty
  | .sched p status waitno => modifyProc p (fun q => { q with status := status, waitno := waitno })
  | .select p => modify (fun s => { s with nextp := p })
  | .tick => modify (fun s => { s with waitno := (s.waitno + 1) % 65536 })
  | .low b => modify (fun s => { s with low := b })
  | .swapout p => discard (Bank16k.swapout p)
  | .switchin p => Bank16k.switchin p
  | .store i x b => modify (fun s => { s with
      mem := put s.mem (s.me.page i) (put (s.mem (s.me.page i)) x b) })

end Bank16k
