import Mathlib.Algebra.Group.Nat.Defs
import Fuzix.Filesys

/-!
# Reading and writing inodes

`readi`, `writei` and the closing of descriptors, as in inode.c, for a build
without networking. The bytes a transfer stores in memory are its answer, the
bytes it fetches its argument. The chunks of a transfer run without a switch of
process; only a pipe may have to sleep before the first chunk.
-/

namespace Fuzix

open Wp Table Words

variable [Build]

def BLKOVERSIZE : Nat := 25
def PIPE_RING : Nat := 18 * 512
def PIPE_MAX : Nat := 16 * 512

/-- `sleep` is a call of `psleep_flags` that puts the process to sleep. -/
inductive Xfer where
  | done (data : List UInt8)
  | sleep

/-- `udata.u_count -= left`, and `-1` when nothing was moved because of an error. -/
def settleCount (left : Nat) : K Unit := do
  let s ← get
  let n := s.u.count - left
  modifyU (fun u => { u with count := if n = 0 ∧ u.error ≠ 0 then minusOne else n })

/-- `u_base` and `u_offset` advance; a pipe wraps at the end of its direct blocks. -/
def advance (ispipe : Bool) (amount : Nat) : K Unit :=
  modifyU (fun u => { u with
    offset := if ispipe ∧ PIPE_RING ≤ u.offset + amount then 0 else u.offset + amount })

def chunk (toread offset : Nat) : Nat := min toread (BLKSIZE - offset % BLKSIZE)

/-- `toread` bytes are still to come. The first argument bounds the rounds. -/
def readLoop (i dev : Nat) (ispipe : Bool) :
    Nat → Nat → List UInt8 → K (Nat × List UInt8)
  | 0, toread, data => return (toread, data)
  | rounds + 1, toread, data => do
    if toread = 0 then return (0, data)
    else
      let s ← get
      let off := s.u.offset
      let amount := chunk toread off
      let pblk ← bmap i (off / BLKSIZE % 65536) true
      match ← (if pblk = NULLBLK then some <$> zerobuf else bread dev pblk) with
      | none => return (toread, data)
      | some bp =>
        advance ispipe amount
        onlyIf ispipe (modifyNode i (fun d => { d with size := d.size - amount }))
        readLoop i dev ispipe rounds (toread - amount)
          (data ++ bytes bp (off % BLKSIZE) amount)

/-- The loop of `readi` and the return value after it. -/
def readBlocks (i dev : Nat) (ispipe : Bool) : K Xfer := do
  let s ← get
  let (left, data) ← readLoop i dev ispipe s.u.count s.u.count []
  settleCount left
  return .done data

/-- The condition of `pipewait`, tested before every sleep: `none` sleeps. -/
def pipewait (i : Nat) (ndelay : Bool) : K (Option Bool) := do
  let s ← get
  let c := s.itab i
  if c.node.size ≠ 0 then
    modifyU (fun u => { u with count := min u.count c.node.size })
    return some true
  else if c.writers = 0 then
    modifyU (fun u => { u with count := 0 })
    return some false
  else if ndelay then
    modifyU (fun u => { u with count := 0, error := EAGAIN })
    return some false
  else return none

/-- The count that is left before the end of a file. -/
def fileLimit (i : Nat) : K Unit := do
  let s ← get
  let size := (s.itab i).node.size
  modifyU (fun u => { u with
    count := if size ≤ u.offset then 0 else min u.count (size - u.offset) })

def cdevXfer : K Xfer := do
  let s ← get
  let n := (s.io s.xfers).count
  modify (fun s => { s with xfers := s.xfers + 1 })
  modifyU (fun u => { u with
    count := n
    offset := if n = minusOne then u.offset else u.offset + n })
  return .done []

def readi (i : Nat) (ndelay : Bool) : K Xfer := do
  let s ← get
  let c := s.itab i
  if fmt c.node.mode = F_DIR ∨ fmt c.node.mode = F_REG then
    fileLimit i
    readBlocks i c.dev false
  else if fmt c.node.mode = F_SOCK ∨ fmt c.node.mode = F_PIPE then
    match ← pipewait i ndelay with
    | none => return .sleep
    | some false => return .done []
    | some true => readBlocks i c.dev true
  else if fmt c.node.mode = F_BDEV then readBlocks i (devnum c) false
  else if fmt c.node.mode = F_CDEV then cdevXfer
  else
    setError ENODEV
    return .done []

/-- `bfree(bp, flag)`: with `O_SYNC` the block is written at once. -/
def putBlock (dev blk : Nat) (b : Block) (osync : Bool) : K Bool := do
  if osync then bfreeSync dev blk b
  else
    bawrite dev blk b
    return true

def writeLoop (i dev : Nat) (ispipe osync : Bool) : Nat → List UInt8 → K Nat
  | 0, src => return src.length
  | rounds + 1, src => do
    if src.length = 0 then return 0
    else
      let s ← get
      let off := s.u.offset
      let amount := chunk src.length off
      if off / 2 ^ BLKOVERSIZE ≠ 0 then
        setError EFBIG
        return src.length
      else
        let pblk ← bmap i (off / BLKSIZE % 65536) false
        if pblk = NULLBLK then return src.length
        else
          match ← (if amount = BLKSIZE then some <$> breadRewrite else bread dev pblk) with
          | none => return src.length
          | some bp =>
            if ← putBlock dev pblk (splice bp (off % BLKSIZE) (src.take amount)) osync then
              advance ispipe amount
              onlyIf ispipe (modifyNode i (fun d => { d with size := d.size + amount }))
              writeLoop i dev ispipe osync rounds (src.drop amount)
            else return src.length

def growSize (i : Nat) : K Unit := do
  let s ← get
  if (s.itab i).node.size < s.u.offset then
    modifyInode i (fun c => { c with
      node := { c.node with size := s.u.offset }
      dirty := true })

def writeBlocks (i dev : Nat) (ispipe osync : Bool) (src : List UInt8) : K Xfer := do
  let left ← writeLoop i dev ispipe osync src.length src
  onlyIf (ispipe = false) (growSize i)
  settleCount left
  return .done []

/-- `16 * BLKSIZE - i_size`, in the 32 bits of `i_size`. -/
def roomLeft (size : Nat) : Nat := (PIPE_MAX + 4294967296 - size) % 4294967296

/-- The condition tested before every sleep of a writer: `none` sleeps. A writer
that does not wait returns with its count as it was. -/
def pipeRoom (i count : Nat) (ndelay : Bool) : K (Option Bool) := do
  let s ← get
  let c := s.itab i
  if count ≤ roomLeft c.node.size then return some true
  else if c.readers = 0 then
    modifyU (fun u => { u with count := minusOne, error := EPIPE })
    return some false
  else if ndelay then
    setError EAGAIN
    return some false
  else return none

def writei (i : Nat) (access : Access) (src : List UInt8) : K Xfer := do
  let s ← get
  let c := s.itab i
  if fmt c.node.mode = F_BDEV then writeBlocks i (devnum c) false access.sync src
  else if fmt c.node.mode = F_DIR ∨ fmt c.node.mode = F_REG then
    writeBlocks i c.dev false access.sync src
  else if fmt c.node.mode = F_PIPE then
    match ← pipeRoom i src.length access.ndelay with
    | none => return .sleep
    | some false => return .done []
    | some true => writeBlocks i c.dev true access.sync src
  else if fmt c.node.mode = F_CDEV then cdevXfer
  else
    setError ENODEV
    return .done []

/-- The flags of kernel-internal transfers. -/
def Access.kernel : Access := ⟨O_RDONLY, false, false, false, false, false⟩

/-! ## The open file table -/

def oftAlloc : K (Option Nat) := do
  let s ← get
  match (List.range OFTSIZE).find? (fun j => (s.oftab j).refs = 0) with
  | some j =>
    modifyOft j (fun o => { o with refs := 1, inode := none })
    return some j
  | none =>
    setError ENFILE
    return none

/-- The count `c` is decremented in 8 bits and stored over the flags. -/
def deflock (o : Oft) : K Unit := do
  match o.inode with
  | none => throw .null
  | some i =>
    if o.access.flock then
      modifyInode i (fun c =>
        if c.flock = 15 then { c with flock := 0 }
        else if c.flock = 0 then { c with flock := 15, dirty := true, rdonly := true }
        else { c with flock := c.flock - 1 })

def oftDeref (k : Nat) : K Unit := do
  let s ← get
  let refs := ((s.oftab k).refs + 255) % 256
  modifyOft k (fun o => { o with refs := refs })
  match (s.oftab k).inode with
  | none => pure ()
  | some i =>
    if refs = 0 then
      deflock (s.oftab k)
      iDeref i
      modifyOft k (fun o => { o with inode := none })

def ufAllocN (base : Nat) : K (Option Nat) := do
  let s ← get
  match (List.range UFTSIZE).find? (fun j => base % 256 ≤ j ∧ s.u.files j = NO_FILE) with
  | some j => return some j
  | none =>
    setError EMFILE
    return none

def ufAlloc : K (Option Nat) := ufAllocN 0

def setFile (fd k : Nat) : K Unit :=
  modifyU (fun u => { u with files := put u.files fd k })

/-- The argument is passed in 8 bits. -/
def getinode (fd : Nat) : K (Option Nat) := do
  let s ← get
  let uindex := fd % 256
  if UFTSIZE ≤ uindex ∨ s.u.files uindex = NO_FILE then
    setError EBADF
    return none
  else
    let k := s.u.files uindex
    if OFTSIZE ≤ k then panic .getinoBadt
    else
      match (s.oftab k).inode with
      | none => panic .getinoOft
      | some i =>
        if ITABSIZE ≤ i then panic .getinoOft
        else
          magic i
          return some i

/-- An entry that was open in mode `m` is closed for good. -/
def dropUser (i m : Nat) : K Unit :=
  modifyInode i (fun c => { c with
    writers := if m ≠ O_RDONLY then (c.writers + 255) % 256 else c.writers
    readers := if m ≠ O_WRONLY then (c.readers + 255) % 256 else c.readers })

/-- True when the descriptor is not open. -/
def doclose (fd : Nat) : K Bool := do
  match ← getinode fd with
  | none => return true
  | some i =>
    let s ← get
    let k := s.u.files (fd % 256)
    onlyIf ((s.oftab k).refs = 1) (dropUser i (s.oftab k).access.accmode)
    modifyU (fun u => { u with
      files := put u.files (fd % 256) NO_FILE
      cloexec := put u.cloexec (fd % 256) false })
    oftDeref k
    return false

/-- `u_files[fd]` with the descriptor as it was passed. -/
def oftOf (fd : Nat) : K Nat := do
  let s ← get
  if UFTSIZE ≤ fd then throw .wild
  else return s.u.files fd

/-- The entry of the open file table for an index taken from a descriptor. -/
def getOft (k : Nat) : K Oft := do
  let s ← get
  if OFTSIZE ≤ k then throw .wild
  else return s.oftab k

def rwsetup (isRead : Bool) (fd nbytes : Nat) : K (Option (Nat × Access)) := do
  modifyU (fun u => { u with count := nbytes })
  match ← getinode fd with
  | none => return none
  | some i =>
    let k ← oftOf fd
    let o ← getOft k
    if o.access.accmode = (if isRead then O_WRONLY else O_RDONLY) then
      setError EBADF
      return none
    else
      setftime i (if isRead then ⟨true, false, false⟩ else Times.all)
      let s ← get
      let c := s.itab i
      let ptr := if fmt c.node.mode = F_REG ∧ isRead = false ∧ o.access.append
        then c.node.size else o.ptr
      modifyOft k (fun o => { o with ptr := ptr })
      modifyU (fun u => { u with offset := ptr })
      return some (i, o.access)

def updoff (fd : Nat) : K Unit := do
  let k ← oftOf fd
  let s ← get
  if OFTSIZE ≤ k then throw .wild
  else modifyOft k (fun o => { o with ptr := s.u.offset })

end Fuzix
