import Fuzix.Lib.Region

/-!
# The 16-bit program loader

`_execve` reads a header, checks that the program fits, collects the arguments and the
environment of the caller, and then lays out the new process: the image at `progload`
and the arguments, their pointers and the first words of the stack below `top`. All
addresses are 16 bits wide. The memory of the caller and `pagemap_realloc` are inputs.
-/

set_option linter.unusedSectionVars false

namespace Exec16

open Cyclic

def ENOEXEC : Nat := 8
def ENOMEM : Nat := 12
def E2BIG : Nat := 7

/-- What differs between processors and platforms. -/
class Loader where
  PROGLOAD : BitVec 16
  MAPBASE : BitVec 16
  ramtop : BitVec 16
  EMAGIC : UInt8
  EMAGIC_2 : UInt8
  littleEndian : Bool
  /-- `ALIGNUP` makes an even number. -/
  even : Bool
  /-- `CONFIG_CALL_R2L` -/
  rightToLeft : Bool
  /-- `pagemap_realloc` finds the memory. -/
  realloc : BitVec 16 → Bool

export Loader (PROGLOAD MAPBASE ramtop EMAGIC EMAGIC_2 littleEndian even rightToLeft realloc)

section Loader
variable [Loader]

def alignUp (n : Nat) : Nat := if even then (n + 1) / 2 * 2 else n

/-- A word as two bytes of memory. -/
def bytesOf (w : BitVec 16) : List UInt8 :=
  let low := UInt8.ofNat w.toNat
  let high := UInt8.ofNat (w.toNat / 256)
  if littleEndian then [low, high] else [high, low]

def wordAt (hdr : Nat → UInt8) (k : Nat) : BitVec 16 :=
  let first := (hdr k).toNat
  let second := (hdr (k + 1)).toNat
  BitVec.ofNat 16 (if littleEndian then first + 256 * second else 256 * first + second)

/-! ## The header -/

def headerOk (hdr : Nat → UInt8) : Prop :=
  (hdr 0 = EMAGIC ∨ hdr 0 = EMAGIC_2) ∧ hdr 3 = 70 ∧ hdr 4 = 90 ∧ hdr 5 = 88 ∧ hdr 6 = 49

instance (hdr : Nat → UInt8) : Decidable (headerOk hdr) := by unfold headerOk; infer_instance

structure Plan where
  progload : BitVec 16
  top : BitVec 16
  bss : BitVec 16
  binSize : BitVec 16
deriving DecidableEq

/-- The part of `_execve` up to the arguments, for a file of `size` bytes. -/
def plan (hdr : Nat → UInt8) (size : Nat) : Except Nat Plan :=
  if size < 16 then .error ENOEXEC
  else if ¬ headerOk hdr then .error ENOEXEC
  else
    let page := BitVec.ofNat 16 ((hdr 7).toNat * 256)
    let progload := if page = 0 then PROGLOAD else page
    let want := wordAt hdr 8
    let top := if want = 0 then ramtop else want + progload
    let bss := wordAt hdr 14
    let binSize := BitVec.ofNat 16 size
    let progptr := binSize + 1024 + bss
    if (top - progload).toNat < progptr.toNat ∨ progptr.toNat < binSize.toNat then .error ENOMEM
    else .ok ⟨progload, top, bss, binSize⟩

/-! ## The arguments -/

/-- The memory of the caller. -/
structure Memory where
  ugetp : BitVec 16 → BitVec 16
  ugetc : BitVec 16 → UInt8

/-- The count and the bytes of the strings. `stale` is the byte of the buffer after
them. -/
structure Argblk where
  argc : Nat
  buf : List UInt8
  stale : UInt8
deriving DecidableEq

/-- The inner loop of `rargs`: one string with its zero. `room` bytes are left of 500. -/
def copyString (m : Memory) : Nat → BitVec 16 → List UInt8 → Option (Nat × List UInt8)
  | 0, _, _ => none
  | room + 1, ptr, buf =>
    let c := m.ugetc ptr
    if c = 0 then some (room, buf ++ [c]) else copyString m room (ptr + 1) (buf ++ [c])

/-- The outer loop: every string takes a byte of the room at least. -/
def readArgs (m : Memory) (stale : UInt8) : Nat → Nat → BitVec 16 → Nat → List UInt8 →
    Except Nat Argblk
  | 0, _, _, _, _ => .error E2BIG
  | fuel + 1, room, up, argc, buf =>
    let ptr := m.ugetp up
    if ptr = 0 then .ok ⟨argc, buf, stale⟩
    else
      match copyString m room ptr buf with
      | none => .error E2BIG
      | some (room, buf) => readArgs m stale fuel room (up + 2) (argc + 1) buf

def rargs (m : Memory) (argv : BitVec 16) (stale : UInt8) : Except Nat Argblk :=
  readArgs m stale 501 500 argv 0 []

/-- Bytes stored in the memory of the new process. -/
structure Store where
  addr : BitVec 16
  bytes : List UInt8

def Store.region (st : Store) : Region := ⟨st.addr.toNat, st.bytes.length⟩

/-- `do ++ptr; while (*sptr++);` -/
def skipString : List UInt8 → BitVec 16 → BitVec 16 × List UInt8
  | [], ptr => (ptr, [])
  | c :: rest, ptr => if c = 0 then (ptr + 1, rest) else skipString rest (ptr + 1)

/-- The loop of `wargs`: a pointer for each string, and a null pointer. -/
def pointers : Nat → BitVec 16 → BitVec 16 → List UInt8 → List Store
  | 0, argv, _, _ => [⟨argv, bytesOf 0⟩]
  | argc + 1, argv, ptr, sptr =>
    let next := if argc = 0 then (ptr, sptr) else skipString sptr ptr
    ⟨argv, bytesOf ptr⟩ :: pointers argc (argv + 2) next.1 next.2

/-- The strings, with the byte that makes their length even. -/
def Argblk.strings (a : Argblk) : List UInt8 :=
  a.buf ++ List.replicate (alignUp a.buf.length - a.buf.length) a.stale

/-- The base of the pointers, and what is stored. -/
def wargs (ptr : BitVec 16) (a : Argblk) : BitVec 16 × List Store :=
  let ptr := ptr - BitVec.ofNat 16 a.strings.length
  let argbase := ptr - BitVec.ofNat 16 (2 * (a.argc + 1))
  (argbase, ⟨ptr, a.strings⟩ :: pointers a.argc argbase ptr a.buf)

/-! ## The new process -/

structure Process where
  progload : BitVec 16
  /-- `u_top` -/
  top : BitVec 16
  /-- What the header, the file and the zeroed memory after it take. -/
  image : List Region
  stores : List Store
  /-- `u_isp` -/
  isp : BitVec 16

/-- `uput` of the header, `readi` of the rest of the file and `uzero`. -/
def imageOf (p : Plan) : List Region :=
  let start := p.progload.toNat
  let rest := p.binSize.toNat - 16
  [⟨start, 16⟩, ⟨(start + 16) % 65536, rest⟩, ⟨(start + (16 + rest)) % 65536, p.bss.toNat⟩]

def stackWords (nenvp nargv argc : BitVec 16) : List Store :=
  if rightToLeft then [⟨nenvp - 4, bytesOf nargv⟩, ⟨nenvp - 2, bytesOf argc⟩]
  else [⟨nenvp - 4, bytesOf argc⟩, ⟨nenvp - 2, bytesOf nargv⟩]

def lay (p : Plan) (args envs : Argblk) : Process :=
  let nargv := wargs (p.top - 2) args
  let nenvp := wargs nargv.1 envs
  ⟨p.progload, p.top, imageOf p,
    nargv.2 ++ nenvp.2 ++ stackWords nenvp.1 nargv.1 (BitVec.ofNat 16 args.argc), nenvp.1 - 4⟩

/-- `_execve` of a file that may be executed. `stale` are the bytes left in the two
buffers. -/
def execve (hdr : Nat → UInt8) (size : Nat) (m : Memory) (argv envp : BitVec 16)
    (stale : UInt8 × UInt8) : Except Nat Process := do
  let p ← plan hdr size
  let args ← rargs m argv stale.1
  let envs ← rargs m envp stale.2
  if realloc (p.top - MAPBASE) then return lay p args envs else throw ENOMEM

/-! ## Where everything lies -/

/-- The stores are the bytes of one region. -/
def Covers (ss : List Store) (r : Region) : Prop :=
  ∀ a, (∃ st ∈ ss, st.region.has 65536 a) ↔ r.has 65536 a

theorem Covers.append {ss ts : List Store} {s m t n : Nat} (low : Covers ss ⟨s, m⟩)
    (high : Covers ts ⟨t, n⟩) (next : t = (s + m) % 65536) :
    Covers (ss ++ ts) ⟨s, m + n⟩ ∧ Covers (ts ++ ss) ⟨s, m + n⟩ := by
  have both : ∀ a, Region.has 65536 ⟨s, m + n⟩ a ↔
      (∃ st ∈ ss, st.region.has 65536 a) ∨ ∃ st ∈ ts, st.region.has 65536 a := by
    intro a
    rw [has_append, low a, high a, next, has_mod]
  constructor
  · intro a
    rw [both]
    simp only [List.mem_append, or_and_right, exists_or]
  · intro a
    rw [both]
    simp only [List.mem_append, or_and_right, exists_or]
    exact or_comm

@[simp] theorem bytesOf_length (w : BitVec 16) : (bytesOf w).length = 2 := by
  unfold bytesOf
  dsimp only
  split <;> rfl

/-- The bytes that one call of `wargs` stores. -/
def argSize (a : Argblk) : Nat := 2 * (a.argc + 1) + a.strings.length

/-- All that `lay` stores is one block that ends two bytes below the top. -/
def blockSize (args envs : Argblk) : Nat := 4 + (argSize envs + argSize args)

def imageSize (p : Plan) : Nat := 16 + (p.binSize.toNat - 16) + p.bss.toNat

/-- The image and the block of the arguments lie between `progload` and `u_top`, and
do not meet. -/
def Placed (q : Process) : Prop :=
  (∀ r ∈ q.image, r.inside 65536 q.progload.toNat q.top.toNat) ∧
  (∀ st ∈ q.stores, st.region.inside 65536 q.progload.toNat q.top.toNat) ∧
  ∀ r ∈ q.image, ∀ st ∈ q.stores, r.apart 65536 st.region

/-- The image, the block and the two bytes above it fit below the top. -/
def Fits (p : Plan) (args envs : Argblk) : Prop :=
  p.progload.toNat + imageSize p + blockSize args envs + 2 ≤ p.top.toNat

theorem execve_ok {hdr : Nat → UInt8} {size : Nat} {m : Memory} {argv envp : BitVec 16}
    {stale : UInt8 × UInt8} {p : Plan} {args envs : Argblk} (header : plan hdr size = .ok p)
    (first : rargs m argv stale.1 = .ok args) (second : rargs m envp stale.2 = .ok envs)
    (room : realloc (p.top - MAPBASE) = true) :
    execve hdr size m argv envp stale = .ok (lay p args envs) := by
  unfold execve
  rw [header, first, second]
  exact if_pos room

end Loader

/-! ## Two programs -/

/-- A Z80 with user memory from 0x100 to 0xF000. -/
@[reducible] def z80 : Loader where
  PROGLOAD := 0x100
  MAPBASE := 0
  ramtop := 0xF000
  EMAGIC := 0xC3
  EMAGIC_2 := 0x18
  littleEndian := true
  even := false
  rightToLeft := false
  realloc := fun size => size ≤ 0xF000

/-- The header of a program that wants `bss` zeroed bytes and all memory there is. -/
def header (bss : UInt8 × UInt8) (k : Nat) : UInt8 :=
  [0xC3, 0, 0, 70, 90, 88, 49, 0, 0, 0, 0, 0, 0, 0, bss.1, bss.2].getD k 0

instance exceptDecidableEq {ε α : Type} [DecidableEq ε] [DecidableEq α] : DecidableEq (Except ε α)
  | .ok a, .ok b => if h : a = b then isTrue (congrArg _ h)
    else isFalse (fun no => h (Except.ok.inj no))
  | .error a, .error b => if h : a = b then isTrue (congrArg _ h)
    else isFalse (fun no => h (Except.error.inj no))
  | .ok _, .error _ => isFalse (fun no => by cases no)
  | .error _, .ok _ => isFalse (fun no => by cases no)

end Exec16
