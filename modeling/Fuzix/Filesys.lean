import Fuzix.Kernel

/-!
# Blocks and inodes

The allocation of blocks and inodes, the block map of an inode and the table of
in-core inodes, as in filesys.c and the `sync` of inode.c.
-/

namespace Fuzix

open Wp Table Words

variable [Build]

def NULLBLK : Nat := 0xFFFF

/-- `f 0`, ..., `f (n - 1)` in this order. -/
def forUp (f : Nat → K Unit) : Nat → K Unit
  | 0 => pure ()
  | n + 1 => do
    forUp f n
    f n

/-- `f (n - 1)`, ..., `f 0` in this order. -/
def forDown (f : Nat → K Unit) : Nat → K Unit
  | 0 => pure ()
  | n + 1 => do
    f n
    forDown f n

/-! ## Superblocks -/

def fsTabGet (s : Kernel) (dev : Nat) : Option Nat :=
  (List.range NMOUNTS).find? (fun m => (s.fstab m).dev = dev)

def newfstab (s : Kernel) : Option Nat := fsTabGet s NO_DEVICE

def corruptFs (dev : Nat) : K Unit := do
  let s ← get
  match fsTabGet s dev with
  | none => throw .null
  | some m => modifyFs m (fun fs => { fs with mounted := 1 })

def getdev (dev : Nat) : K Nat := do
  let s ← get
  match fsTabGet s dev with
  | none => panic .gdBad
  | some m =>
    if (s.fstab m).fs.mounted = 0 then panic .gdBad
    else
      onlyIf ((s.fstab m).rdonly = false) (modifyFs m (fun fs => { fs with
        time := s.now % 4294967296
        timeh := s.now / 4294967296 % 256
        fmod := .dirty }))
      return m

def baddev (fs : Filesys) : Bool := fs.mounted ≠ SMOUNTED

def validblk (dev num : Nat) : K Unit := do
  let s ← get
  match fsTabGet s dev with
  | none => panic .validblkNm
  | some m =>
    let fs := (s.fstab m).fs
    if fs.mounted = 0 then panic .validblkNm
    else if num < fs.isize ∨ fs.fsize ≤ num then panic .validblkInv
    else pure ()

/-! ## The free list -/

/-- `blktok(&dev->s_nfree, buf, 0, sizeof(int) + 50 * sizeof(blkno_t))`: with a
32-bit `int` the copy runs on into `s_ninode`. -/
def Filesys.loadChain (fs : Filesys) (b : Block) : Filesys :=
  { fs with
    nfree := word b 0
    free := fun j => if j < FILESYS_TABSIZE then word b (j + 1) else fs.free j
    ninode := match width with
      | .int16 => fs.ninode
      | .int32 => word b 51 }

def Filesys.storeChain (fs : Filesys) (b : Block) : Block :=
  let b := setWords (setWord b 0 fs.nfree) 1 fs.free FILESYS_TABSIZE
  match width with
  | .int16 => b
  | .int32 => setWord b 51 fs.ninode

def noSpace : K Nat := do
  setError ENOSPC
  return 0

def corrupt (m : Nat) : K Nat := do
  modifyFs m (fun fs => { fs with mounted := 1 })
  noSpace

/-- Refill `s_free` when its last block was taken. -/
def refill (devno m newno : Nat) : K Bool := do
  let s ← get
  if (s.fstab m).fs.nfree = 0 then
    match ← bread devno newno with
    | none => return false
    | some b =>
      modifyFs m (fun fs => fs.loadChain b)
      return true
  else return true

def blkAlloc (devno : Nat) : K Nat := do
  let m ← getdev devno
  let s ← get
  let fs := (s.fstab m).fs
  if baddev fs then noSpace
  else if fs.nfree = 0 ∨ FILESYS_TABSIZE < fs.nfree then corrupt m
  else
    let newno := fs.free (fs.nfree - 1)
    modifyFs m (fun fs => { fs with nfree := fs.nfree - 1 })
    if newno = 0 then
      if fs.tfree ≠ 0 then corrupt m
      else
        modifyFs m (fun fs => { fs with nfree := fs.nfree + 1 })
        noSpace
    else if ← refill devno m newno then
      validblk devno newno
      let s ← get
      if (s.fstab m).fs.tfree = 0 then corrupt m
      else
        modifyFs m (fun fs => { fs with tfree := fs.tfree - 1 })
        let _ ← breadRewrite
        bawrite devno newno zeroBlock
        return newno
    else corrupt m

/-- A full `s_free` moves into the block that is being freed. -/
def spill (devno m blk : Nat) : K Unit := do
  let s ← get
  if (s.fstab m).fs.nfree = FILESYS_TABSIZE then
    let junk ← breadRewrite
    bawrite devno blk ((s.fstab m).fs.storeChain junk)
    modifyFs m (fun fs => { fs with nfree := 0 })

def blkFree (devno blk : Nat) : K Unit := do
  if blk = 0 then pure ()
  else
    let m ← getdev devno
    let s ← get
    if baddev (s.fstab m).fs then pure ()
    else
      validblk devno blk
      spill devno m blk
      let s ← get
      if FILESYS_TABSIZE ≤ (s.fstab m).fs.nfree then throw .overrun
      else
        modifyFs m (fun fs => { fs with
          tfree := (fs.tfree + 1) % 65536
          free := put fs.free fs.nfree blk
          nfree := fs.nfree + 1 })

/-! ## Writing inodes back -/

def magic (i : Nat) : K Unit := do
  let s ← get
  if (s.itab i).magic ≠ CMAGIC then panic .corrupti else pure ()

def wrInode (i : Nat) : K Unit := do
  magic i
  let s ← get
  let c := s.itab i
  match ← bread c.dev (c.num / 8 + 2) with
  | some b =>
    let _ ← bfreeSync c.dev (c.num / 8 + 2) (c.node.store b c.num)
    modifyInode i (fun c => { c with dirty := false })
  | none => corruptFs c.dev

def syncInode (i : Nat) : K Unit := do
  let s ← get
  if 0 < (s.itab i).refs ∧ (s.itab i).dirty then
    wrInode i
    modifyInode i (fun c => { c with dirty := false })

def syncMount (m : Nat) : K Unit := do
  let s ← get
  if (s.fstab m).dev ≠ NO_DEVICE ∧ (s.fstab m).fs.fmod ≠ .clean then
    onlyIf ((s.fstab m).fs.fmod = .goClean) (modifyFs m (fun fs => { fs with fmod := .clean }))
    let junk ← breadRewrite
    let s ← get
    let _ ← bfreeSync (s.fstab m).dev 1 ((s.fstab m).fs.store junk)

/-- The closing `bufsync` leaves the content of every block as it is. -/
def sync : K Unit := do
  forUp syncInode ITABSIZE
  forUp syncMount NMOUNTS

/-! ## Inode numbers -/

def inodeLimit (fs : Filesys) : Nat := (fs.isize - 2) * 8

/-- Enter the free inodes of one block into `s_inode` from position `k`. -/
def scanBlock (m blk : Nat) (b : Block) : List Nat → Nat → K Nat
  | [], k => return k
  | j :: rest, k => do
    let di := Dinode.load b j
    if di.mode = 0 ∧ di.nlink = 0 then
      modifyFs m (fun fs => { fs with inode := put fs.inode k (8 * (blk - 2) + j) })
      if k + 1 = FILESYS_TABSIZE then return k + 1
      else scanBlock m blk b rest (k + 1)
    else scanBlock m blk b rest k

/-- Scan the last `n` inode blocks; `none` is a failed read. -/
def scanInodes (devno m isize : Nat) : Nat → Nat → K (Option Nat)
  | 0, k => return some k
  | n + 1, k => do
    match ← bread devno (isize - (n + 1)) with
    | none => return none
    | some b =>
      let k ← scanBlock m (isize - (n + 1)) b (List.range 8) k
      if k = FILESYS_TABSIZE then return some k
      else scanInodes devno m isize n k

def takeInode (m : Nat) : K Nat := do
  let s ← get
  let fs := (s.fstab m).fs
  if fs.tinode = 0 then corrupt m
  else if FILESYS_TABSIZE < fs.ninode then throw .overrun
  else
    let ino := fs.inode (fs.ninode - 1)
    modifyFs m (fun fs => { fs with ninode := fs.ninode - 1 })
    if ino < 2 ∨ inodeLimit fs ≤ ino then corrupt m
    else
      modifyFs m (fun fs => { fs with tinode := fs.tinode - 1 })
      return ino

def iAlloc (devno : Nat) : K Nat := do
  let m ← getdev devno
  let s ← get
  let fs := (s.fstab m).fs
  if baddev fs then corrupt m
  else if fs.ninode ≠ 0 then takeInode m
  else
    sync
    match ← scanInodes devno m fs.isize (fs.isize - 2) 0 with
    | none => corrupt m
    | some 0 => if fs.tinode ≠ 0 then corrupt m else noSpace
    | some k =>
      modifyFs m (fun fs => { fs with ninode := k })
      takeInode m

def iFree (devno ino : Nat) : K Unit := do
  let m ← getdev devno
  let s ← get
  let fs := (s.fstab m).fs
  if baddev fs then pure ()
  else if ino < 2 ∨ inodeLimit fs ≤ ino then panic .ifreeBadi
  else if fs.ninode < FILESYS_TABSIZE then
    modifyFs m (fun fs => { fs with
      tinode := (fs.tinode + 1) % 65536
      inode := put fs.inode fs.ninode ino
      ninode := fs.ninode + 1 })
  else modifyFs m (fun fs => { fs with tinode := (fs.tinode + 1) % 65536 })

/-! ## The blocks of an inode -/

def freeblk (dev : Nat) : Nat → Nat → K Unit
  | 0, blk => if blk = 0 then pure () else blkFree dev blk
  | level + 1, blk => do
    if blk = 0 then pure ()
    else
      match ← bread dev blk with
      | none => corruptFs dev
      | some b =>
        forDown (fun j => freeblk dev level (word b j)) 256
        blkFree dev blk

/-- True when the file system is read only and nothing was done. -/
def fTrunc (i : Nat) : K Bool := do
  let s ← get
  let c := s.itab i
  if c.rdonly then
    setError EROFS
    return true
  else
    freeblk c.dev 2 (c.node.addr 19)
    freeblk c.dev 1 (c.node.addr 18)
    forDown (fun j => freeblk c.dev 0 (c.node.addr j)) 18
    modifyInode i (fun c => { c with
      node := { c.node with addr := fun _ => 0, size := 0 }
      dirty := true })
    return false

/-- The block at `i_addr[slot]`, allocated when writing. -/
def bmapSlot (ip slot : Nat) (rwflg : Bool) : K (Option Nat) := do
  let s ← get
  let c := s.itab ip
  let nb := c.node.addr slot
  if nb ≠ 0 then return some nb
  else if rwflg then return none
  else
    let nb ← blkAlloc c.dev
    if nb = 0 then return none
    else
      modifyInode ip (fun c => { c with
        node := { c.node with addr := put c.node.addr slot nb }
        dirty := true })
      return some nb

/-- The block at entry `k` of the indirect block `nb`, allocated when writing.
Block 0 stands for an indirect block that cannot be read. -/
def bmapIndirect (dev nb k : Nat) (rwflg : Bool) : K (Option Nat) := do
  match ← bread dev nb with
  | none =>
    corruptFs dev
    return some 0
  | some bp =>
    if word bp k ≠ 0 then return some (word bp k)
    else if rwflg then return none
    else
      let new ← blkAlloc dev
      if new = 0 then return none
      else
        bawrite dev nb (setWord bp k new)
        return some new

def isBdev (c : Cinode) : Bool := fmt c.node.mode = F_BDEV

/-- `none` is `NULLBLK`. The flag `rwflg` is set for reading. -/
def bmapTree (ip bn : Nat) (rwflg : Bool) : K (Option Nat) := do
  let s ← get
  let dev := (s.itab ip).dev
  if bn < 18 then bmapSlot ip bn rwflg
  else if bn - 18 < 256 then
    match ← bmapSlot ip 18 rwflg with
    | none => return none
    | some nb => bmapIndirect dev nb (bn - 18) rwflg
  else
    match ← bmapSlot ip 19 rwflg with
    | none => return none
    | some nb =>
      match ← bmapIndirect dev nb ((bn - 18 - 256) / 256 % 256) rwflg with
      | none => return none
      | some 0 => return some 0
      | some nb => bmapIndirect dev nb ((bn - 18 - 256) % 256) rwflg

def bmap (ip bn : Nat) (rwflg : Bool) : K Nat := do
  let s ← get
  if isBdev (s.itab ip) then return bn
  else
    let nb ← bmapTree ip bn rwflg
    return nb.getD NULLBLK

/-! ## The in-core inode table -/

inductive Slot where
  | found (j : Nat)
  | unused (j : Nat)
  | full

/-- The slot of an inode, or else the last slot without references. -/
def iFind (s : Kernel) (dev ino : Nat) : Slot :=
  match (List.range ITABSIZE).find? (fun j => (s.itab j).dev = dev ∧ (s.itab j).num = ino) with
  | some j => .found j
  | none =>
    match (List.range ITABSIZE).reverse.find? (fun j => (s.itab j).refs = 0) with
    | some j => .unused j
    | none => .full

/-- A new inode must look free, an old one allocated. -/
def iCheck (j : Nat) (isnew : Bool) : K (Option Nat) := do
  let s ← get
  let d := (s.itab j).node
  let good := if isnew then d.nlink = 0 ∧ fmt d.mode = 0 else d.nlink ≠ 0 ∧ fmt d.mode ≠ 0
  if good then
    modifyInode j (fun c => { c with refs := (c.refs + 1) % 256 })
    return some j
  else return none

def iGet (dev ino : Nat) (isnew : Bool) : K (Option Nat) := do
  let s ← get
  match fsTabGet s dev with
  | none => throw .null
  | some m =>
    if ino < ROOTINODE ∨ inodeLimit (s.fstab m).fs ≤ ino then return none
    else
      match iFind s dev ino with
      | .full =>
        setError ENFILE
        return none
      | .found j => iCheck j isnew
      | .unused j =>
        match ← bread dev (ino / 8 + 2) with
        | none => return none
        | some b =>
          modifyInode j (fun c => { c with
            node := Dinode.load b ino
            dev := dev
            num := ino
            magic := CMAGIC
            dirty := false
            rdonly := (s.fstab m).rdonly
            flock := 0 })
          iCheck j isnew

/-- Inode number 0 asks for a new inode. -/
def iOpen (dev ino : Nat) : K (Option Nat) := do
  if validdev dev = false then panic .iopen
  else if ino = 0 then
    let new ← iAlloc dev
    if new = 0 then
      setError ENOSPC
      return none
    else iGet dev new true
  else iGet dev ino false

def iRef (i : Nat) : K Unit :=
  modifyInode i (fun c => { c with refs := (c.refs + 1) % 256 })

def ownsBlocks (d : Dinode) : Bool :=
  fmt d.mode = F_REG ∨ fmt d.mode = F_DIR ∨ fmt d.mode = F_PIPE

/-- Free the number of an inode without links. -/
def iDrop (i : Nat) : K Unit := do
  modifyNode i (fun d => { d with mode := 0 })
  let s ← get
  iFree (s.itab i).dev (s.itab i).num

/-- Write an unreferenced inode back if it changed, and free it if it has no links. -/
def iRelease (i : Nat) : K Unit := do
  let s ← get
  let c := s.itab i
  if c.refs = 0 ∧ c.dirty then
    onlyIf (c.node.nlink = 0) (iDrop i)
    wrInode i

def iDeref (i : Nat) : K Unit := do
  magic i
  let s ← get
  let c := s.itab i
  if c.refs = 0 then panic .inodeFreed
  else
    modifyInode i (fun c => { c with refs := c.refs - 1 })
    onlyIf (c.refs = 1 ∧ c.node.nlink = 0 ∧ ownsBlocks c.node) (discard (fTrunc i))
    iRelease i

/-! ## Permissions and times -/

def super (s : Kernel) : Bool := s.u.euid = 0

def esuper : K Bool := do
  let s ← get
  if s.u.euid = 0 then return false
  else
    setError EPERM
    return true

def getperm (s : Kernel) (i : Nat) : Nat :=
  let d := (s.itab i).node
  if super s then 7
  else if d.uid = s.u.euid then d.mode / 64 % 8
  else if d.gid = s.u.egid then d.mode / 8 % 8
  else if s.u.groups d.gid then d.mode / 8 % 8
  else d.mode % 8

def mayRead (perm : Nat) : Bool := perm / 4 % 2 = 1
def mayWrite (perm : Nat) : Bool := perm / 2 % 2 = 1
def maySearch (perm : Nat) : Bool := perm % 2 = 1

structure Times where
  a : Bool
  m : Bool
  c : Bool

def Times.all : Times := ⟨true, true, true⟩

def setftime (i : Nat) (flag : Times) : K Unit := do
  let s ← get
  if (s.itab i).rdonly then pure ()
  else
    let t := s.now % 4294967296
    modifyInode i (fun c => { c with
      dirty := true
      node := { c.node with
        atime := if flag.a then t else c.node.atime
        mtime := if flag.m then t else c.node.mtime
        ctime := if flag.c then t else c.node.ctime } })

end Fuzix
