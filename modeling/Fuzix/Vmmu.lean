import Mathlib.Algebra.Group.Nat.Defs
import Fuzix.Lib.Dll
import Fuzix.Lib.Fuel
import Fuzix.Lib.Table

/-!
# Blocks of memory that move

The flat memory manager flat_mem.c: every block of the pool is on the list of one process or on
the free list, the lists are sorted by the place of the blocks, and a block has the virtual
address at which its owner wants it. `moveblks` and `vmmu_setcontext` are here; a loop takes
fuel, and where the code panics or follows a null pointer there is no answer.
-/

namespace Vmmu

open Table Fuel Dll

/-- A `struct memblk`: the head of a list, of which 0 is `freelist`, or an entry of `memmap`. -/
inductive Node where
  | head (k : Nat)
  | blk (i : Nat)
deriving DecidableEq

class Machine where
  membase : Nat
  MMU_BLKSIZE : Nat
  nblks : Nat
  whole : 0 < MMU_BLKSIZE

export Machine (membase MMU_BLKSIZE nblks)

def freelist : Nat := 0

/-- The entries, and what is in the block of memory at an address. -/
structure Map (B : Type) where
  next : Node → Option Nat
  prev : Nat → Node
  vaddr : Nat → Nat
  home : Nat → Nat
  gap : Nat → Nat
  freemem : BitVec 32
  data : Nat → B

def UINT_MAX : Nat := 2 ^ 32 - 1

/-- `--n` for an `unsigned int`. -/
def dec (n : Nat) : Nat := if n = 0 then UINT_MAX else n - 1

section
variable [Machine] {B : Type}

def blktoadd (m : Nat) : Nat := membase + m * MMU_BLKSIZE

def addtoblk (p : Nat) : Nat := (p - membase) / MMU_BLKSIZE

def mapped (s : Map B) (a : Nat) : Prop := s.vaddr a = blktoadd a

instance (s : Map B) (a : Nat) : Decidable (mapped s a) := by unfold mapped; infer_instance

def setNext (s : Map B) (n : Node) (a : Option Nat) : Map B := { s with next := put s.next n a }

def setPrev (s : Map B) (a : Nat) (n : Node) : Map B := { s with prev := put s.prev a n }

/-- The blocks get their owner; the answer is the block behind the segment. -/
def assign (slist dlist : Nat) : Nat → Option Nat → Map B → Option Nat × Map B
  | _, none, s => (none, s)
  | 0, some b, s => (some b, s)
  | i + 1, some b, s =>
    let free := if dlist = freelist then s.freemem + BitVec.ofNat 32 MMU_BLKSIZE else s.freemem
    let free := if slist = freelist then free - BitVec.ofNat 32 MMU_BLKSIZE else free
    assign slist dlist i (s.next (.blk b))
      { s with home := put s.home b dlist, gap := put s.gap b 0, freemem := free }

/-- The segment from `first` to before `after` leaves its list. -/
def detach (first : Nat) (after : Option Nat) (s : Map B) : Map B :=
  let s := match after with
    | some a => setNext s (s.prev a) none
    | none => s
  let s := setNext s (s.prev first) after
  match after with
  | some a => setPrev s a (s.prev first)
  | none => s

/-- `while (first->next && (first->next<nlink) && --num) first = first->next`. -/
def stretch (s : Map B) (nlink : Nat) : Nat → Nat → Nat → Option (Nat × Nat)
  | 0, _, _ => none
  | fuel + 1, first, num =>
    match s.next (.blk first) with
    | none => some (first, num)
    | some n =>
      if n < nlink then
        if dec num = 0 then some (first, 0) else stretch s nlink fuel n (dec num)
      else some (first, num)

/-- The loop of `moveblks`: the segment is merged into the list from `dlist` on. -/
def place : Nat → Node → Nat → Nat → Map B → Option (Map B)
  | 0, _, _, _, _ => none
  | fuel + 1, dlist, first, num, s =>
    match s.next dlist with
    | none => some (setPrev (setNext s dlist (some first)) first dlist)
    | some nlink =>
      if nlink < first then place fuel (.blk nlink) first num s
      else if first < nlink then
        let s := setPrev (setNext s dlist (some first)) first dlist
        (stretch s nlink fuel first num).bind fun out =>
          let ofirst := s.next (.blk out.1)
          let s := setPrev (setNext s (.blk out.1) (some nlink)) nlink (.blk out.1)
          if dec out.2 = 0 then some s
          else ofirst.bind fun first => place fuel (.blk nlink) first (dec out.2) s
      else none

def moveblks (fuel slist dlist first num : Nat) (s : Map B) : Option (Map B) :=
  if num = 0 then some s
  else
    let out := assign slist dlist num (some first) s
    place fuel (.head dlist) first num (detach first out.1 out.2)

def fast_swap_block (p q : Nat) (s : Map B) : Map B :=
  { s with data := put (put s.data p (s.data q)) q (s.data p) }

/-- The block `here` of the list and the block at its virtual address change places. -/
def exchange (fuel list here : Nat) (s : Map B) : Option (Map B) :=
  let s := fast_swap_block (blktoadd here) (s.vaddr here) s
  let oblk := addtoblk (s.vaddr here)
  let owner := s.home oblk
  (moveblks fuel list owner here 1 s).bind fun s => moveblks fuel (s.home oblk) list oblk 1 s

/-- The loop of `vmmu_setcontext`. -/
def walk (list : Nat) : Nat → Option Nat → Map B → Option (Map B)
  | _, none, s => some s
  | 0, some _, _ => none
  | fuel + 1, some here, s =>
    let nxt := s.next (.blk here)
    if mapped s here then walk list fuel nxt s
    else (exchange fuel list here s).bind fun s => walk list fuel nxt s

def vmmu_setcontext (fuel list : Nat) (s : Map B) : Option (Map B) := walk list fuel (s.next (.head list)) s

end

end Vmmu
