import Fuzix.Lib.Fuel
import Fuzix.Lib.Store

/-!
# The heap of the C library

`malloc`, `calloc`, `realloc` and `free` over one memory of bytes, as the library has them: a
circular list of the free blocks with its root in the data of the program, a start pointer that
moves, and `brk` for more. Pointers and `size_t` have one width, and arithmetic on them wraps.
-/

namespace Malloc

open Table Store

/-- The machine of the program: the width of pointers, their byte order, where `__mroot` is and
where the break is when the program starts. -/
class Machine where
  width : Nat
  big : Bool
  root : Nat
  start : Nat
  wide : 2 ≤ width
  rooted : 0 < root
  low : root + 2 * width ≤ start
  fits : start < 256 ^ width

export Machine (width root start)

section
variable [Machine]

/-- Addresses and sizes are below `TOP`. -/
def TOP : Nat := 256 ^ width

/-- `sizeof(struct memh)`. -/
def memh : Nat := 2 * width

def BRKSIZE : Nat := 512 / memh

def NULL : Nat := 0

/-- The memory, `__mfreeptr`, and the end of the memory. -/
structure Heap where
  mem : Memory
  mfreeptr : Nat
  brk : Nat

def Heap.next (h : Heap) (p : Nat) : Nat := load Machine.big width h.mem p

def Heap.size (h : Heap) (p : Nat) : Nat := load Machine.big width h.mem (p + width)

def Heap.setNext (h : Heap) (p v : Nat) : Heap := { h with mem := store Machine.big width h.mem p v }

def Heap.setSize (h : Heap) (p v : Nat) : Heap :=
  { h with mem := store Machine.big width h.mem (p + width) v }

/-- `p + n` for a pointer to a `struct memh`. -/
def plus (p n : Nat) : Nat := (p + n * memh) % TOP

/-- `((struct memh *)(p)) - 1`. -/
def MH (p : Nat) : Nat := (p + TOP - memh) % TOP

/-! ## free -/

/-- The loop that finds the free block just before `mh`. -/
def seek (h : Heap) (mh : Nat) : Nat → Nat → Option Nat
  | 0, _ => none
  | fuel + 1, p =>
    if p < mh ∧ mh < h.next p then some p
    else if h.next p ≤ p ∧ (p < mh ∨ mh < h.next p) then some p
    else seek h mh fuel (h.next p)

/-- Fix up and if we can merge forward. -/
def forward (h : Heap) (mh p : Nat) : Heap :=
  if plus mh (h.size mh) = h.next p then
    let h := h.setSize mh (h.size mh + h.size (h.next p))
    h.setNext mh (h.next (h.next p))
  else h.setNext mh (h.next p)

/-- Ditto backwards. -/
def backward (h : Heap) (mh p : Nat) : Heap :=
  if plus p (h.size p) = mh then
    let h := h.setSize p (h.size p + h.size mh)
    h.setNext p (h.next mh)
  else h.setNext p mh

def free (fuel : Nat) (h : Heap) (ptr : Nat) : Option Heap :=
  if ptr = NULL then some h
  else (seek h (MH ptr) fuel h.mfreeptr).map fun p =>
    { backward (forward h (MH ptr) p) (MH ptr) p with mfreeptr := p }

/-! ## malloc -/

/-- `grants` says which breaks `brk` accepts. -/
def brkmore (grants : Nat → Bool) (fuel : Nat) (h : Heap) (nb : Nat) : Option (Nat × Heap) :=
  let nb := if nb < BRKSIZE then BRKSIZE else nb
  let p := h.brk
  if p = TOP - 1 then some (NULL, h)
  else if (p + memh * nb) % TOP < p then some (NULL, h)
  else if !grants (plus p nb) then some (NULL, h)
  else
    let h := Heap.setSize { h with brk := plus p nb } p nb
    (free fuel h (plus p 1)).map fun h => (h.mfreeptr, h)

/-- A block was found: all of it or its end is taken. -/
def carve (h : Heap) (prev p nblocks : Nat) : Nat × Heap :=
  if h.size p = nblocks then
    -- a hole of the right size is unlinked
    (plus p 1, { h.setNext prev (h.next p) with mfreeptr := prev })
  else
    -- the end of a larger one goes to the user, so that no link has to move
    let h := h.setSize p (h.size p - nblocks)
    let q := plus p (h.size p)
    (plus q 1, { h.setSize q nblocks with mfreeptr := prev })

/-- The loop of `malloc`. -/
def search (grants : Nat → Bool) (nblocks : Nat) : Nat → Heap → Nat → Nat → Option (Nat × Heap)
  | 0, _, _, _ => none
  | fuel + 1, h, prev, p =>
    if nblocks ≤ h.size p then some (carve h prev p nblocks)
    else if p = h.mfreeptr then
      (brkmore grants fuel h nblocks).bind fun out =>
        if out.1 = NULL then some (NULL, out.2)
        else search grants nblocks fuel out.2 out.1 (out.2.next out.1)
    else search grants nblocks fuel h p (h.next p)

def malloc (grants : Nat → Bool) (fuel : Nat) (h : Heap) (size : Nat) : Option (Nat × Heap) :=
  let nblocks := (size + memh + memh - 1) % TOP
  if nblocks < size then some (NULL, h)
  else search grants (nblocks / memh) fuel h h.mfreeptr (h.next h.mfreeptr)

/-! ## calloc and realloc -/

def memset (h : Heap) (ptr : Nat) (c : UInt8) (n : Nat) : Heap :=
  { h with mem := fun k => if ptr ≤ k ∧ k < ptr + n then c else h.mem k }

def memcpy (h : Heap) (dst src n : Nat) : Heap :=
  { h with mem := fun k => if dst ≤ k ∧ k < dst + n then h.mem (src + (k - dst)) else h.mem k }

def calloc (grants : Nat → Bool) (fuel : Nat) (h : Heap) (elm sz : Nat) : Option (Nat × Heap) :=
  let v := (elm * sz) % TOP
  (malloc grants fuel h v).map fun out =>
    if out.1 = NULL then out else (out.1, memset out.2 out.1 0 v)

def realloc (grants : Nat → Bool) (fuel : Nat) (h : Heap) (ptr size : Nat) : Option (Nat × Heap) :=
  let mh := MH ptr
  if size = 0 then (free fuel h ptr).map fun h => (NULL, h)
  else if ptr = NULL then malloc grants fuel h size
  else
    let nblocks := (size + memh + memh - 1) % TOP / memh
    if nblocks = h.size mh then some (ptr, h)
    else if nblocks < h.size mh then some (ptr, h)
    else (malloc grants fuel h size).bind fun out =>
      if out.1 = NULL then some (ptr, out.2)
      else (free fuel (memcpy out.2 out.1 ptr (out.2.size mh * memh % TOP)) ptr).map fun h => (out.1, h)

/-! ## A program that uses them -/

/-- `live` is kept for the statements: the blocks handed out and not yet freed, by their
addresses, with the sizes asked for. -/
structure World where
  heap : Heap
  live : Nat → Option Nat

/-- The calls, each with the breaks that `brk` accepts during it, and a store of the program. -/
inductive Action where
  | malloc (grants : Nat → Bool) (size : Nat)
  | calloc (grants : Nat → Bool) (elm sz : Nat)
  | realloc (grants : Nat → Bool) (ptr size : Nat)
  | free (ptr : Nat)
  | write (ptr off : Nat) (byte : UInt8)

/-- A block of `size` bytes at `r`, unless there is none. -/
def hand (live : Nat → Option Nat) (r size : Nat) : Nat → Option Nat :=
  if r = NULL then live else put live r (some size)

/-- The result of a call, or 0, and what comes after it. -/
def Action.apply (fuel : Nat) (w : World) : Action → Option (Nat × World)
  | .malloc grants size =>
    (Malloc.malloc grants fuel w.heap size).map fun out => (out.1, ⟨out.2, hand w.live out.1 size⟩)
  | .calloc grants elm sz =>
    (Malloc.calloc grants fuel w.heap elm sz).map fun out => (out.1, ⟨out.2, hand w.live out.1 (elm * sz)⟩)
  | .realloc grants ptr size =>
    (Malloc.realloc grants fuel w.heap ptr size).map fun out =>
      (out.1, ⟨out.2, if size = 0 then put w.live ptr none
        else if out.1 = NULL then w.live else hand (put w.live ptr none) out.1 size⟩)
  | .free ptr => (Malloc.free fuel w.heap ptr).map fun h => (NULL, ⟨h, put w.live ptr none⟩)
  | .write ptr off byte => some (NULL, ⟨{ w.heap with mem := put w.heap.mem (ptr + off) byte }, w.live⟩)

/-- The program passes values of the type `size_t` and blocks that are live, and it stores inside
the blocks it was given. -/
def legal (w : World) : Action → Prop
  | .malloc _ size => size < TOP
  | .calloc _ elm sz => elm < TOP ∧ sz < TOP
  | .realloc _ ptr size => (ptr = NULL ∨ (w.live ptr).isSome) ∧ size < TOP
  | .free ptr => ptr = NULL ∨ (w.live ptr).isSome
  | .write ptr off _ => off < (w.live ptr).getD 0

/-- The program has started: the list is its root, whatever the other bytes are. -/
def initial (mem : Memory) : World :=
  ⟨(Heap.setNext ⟨mem, root, start⟩ root root).setSize root 0, fun _ => none⟩

/-- A call that returns, with some fuel. -/
def Step (w : World) (a : Action) (r : Nat) (w' : World) : Prop := ∃ fuel, a.apply fuel w = some (r, w')

end

end Malloc
