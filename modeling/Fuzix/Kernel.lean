import Fuzix.Devio
import Fuzix.Lib.Words

/-!
# Kernel state

The tables of kernel.h and kdata.h. A pointer into a table is its index and a
null pointer is `none`. The blocks of a device are the content the buffer
cache guarantees: `bread` hands out what was last released for the block.
Drivers, the clock and the memory allocator are inputs.
-/

namespace Fuzix

open Wp Table Words

export Devio (IntWidth NO_DEVICE)

/-- The constants of one build. The bounds hold for every platform in the tree:
the counters are 8 bits wide. -/
class Build where
  ITABSIZE : Nat
  OFTSIZE : Nat
  UFTSIZE : Nat
  PTABSIZE : Nat
  NMOUNTS : Nat
  width : IntWidth
  configAcct : Bool
  validdev : Nat → Bool
  /-- The bytes in memory before a scratch buffer, the nearest first. -/
  below : Nat → UInt8
  noDevice : validdev NO_DEVICE = false
  oftBound : OFTSIZE < 128
  uftBound : UFTSIZE ≤ 16
  oftRefsBound : PTABSIZE * UFTSIZE + PTABSIZE + 1 < 256
  inodeRefsBound : 2 * PTABSIZE + OFTSIZE + NMOUNTS + 16 < 256

export Build (ITABSIZE OFTSIZE UFTSIZE PTABSIZE NMOUNTS width configAcct validdev)

def ROOTINODE : Nat := 1
def CMAGIC : Nat := 24721
def NO_FILE : Nat := 0xFF
def FILESYS_TABSIZE : Nat := 50
def SMOUNTED : Nat := 12742
def FILENAME_LEN : Nat := 30
def DIR_LEN : Nat := 32
def BLKSIZE : Nat := 512

def EPERM : Nat := 1
def ENOENT : Nat := 2
def EINTR : Nat := 4
def EIO : Nat := 5
def ENXIO : Nat := 6
def ENOEXEC : Nat := 8
def EBADF : Nat := 9
def EAGAIN : Nat := 11
def ENOMEM : Nat := 12
def EACCES : Nat := 13
def EFAULT : Nat := 14
def ENOTBLK : Nat := 15
def EBUSY : Nat := 16
def EEXIST : Nat := 17
def EXDEV : Nat := 18
def ENODEV : Nat := 19
def ENOTDIR : Nat := 20
def EISDIR : Nat := 21
def EINVAL : Nat := 22
def ENFILE : Nat := 23
def EMFILE : Nat := 24
def EFBIG : Nat := 27
def ENOSPC : Nat := 28
def ESPIPE : Nat := 29
def EROFS : Nat := 30
def EMLINK : Nat := 31
def EPIPE : Nat := 32
def ENOTEMPTY : Nat := 36

/-- `usize_t` of `-1`. -/
def minusOne [Build] : Nat :=
  match width with
  | .int16 => 65535
  | .int32 => 4294967295

/-! ## Inodes -/

def F_REG : Nat := 0o100000
def F_DIR : Nat := 0o040000
def F_PIPE : Nat := 0o010000
def F_BDEV : Nat := 0o060000
def F_CDEV : Nat := 0o020000
def F_SOCK : Nat := 0o140000
def MODE_MASK : Nat := 0o7777

/-- The format bits `i_mode & F_MASK`. -/
def fmt (mode : Nat) : Nat := mode / 4096 % 16 * 4096

structure Dinode where
  mode : Nat
  nlink : Nat
  uid : Nat
  gid : Nat
  size : Nat
  atime : Nat
  mtime : Nat
  ctime : Nat
  addr : Nat → Nat

def Dinode.load (b : Block) (ino : Nat) : Dinode :=
  let k := 32 * (ino % 8)
  { mode := word b k
    nlink := word b (k + 1)
    uid := word b (k + 2)
    gid := word b (k + 3)
    size := long b (k + 4)
    atime := long b (k + 6)
    mtime := long b (k + 8)
    ctime := long b (k + 10)
    addr := fun j => if j < 20 then word b (k + 12 + j) else 0 }

/-- The 32 words of an inode on disk. -/
def Dinode.image (d : Dinode) (j : Nat) : Nat :=
  match j with
  | 0 => d.mode
  | 1 => d.nlink
  | 2 => d.uid
  | 3 => d.gid
  | 4 => d.size
  | 5 => d.size / 65536
  | 6 => d.atime
  | 7 => d.atime / 65536
  | 8 => d.mtime
  | 9 => d.mtime / 65536
  | 10 => d.ctime
  | 11 => d.ctime / 65536
  | j + 12 => d.addr j

def Dinode.store (d : Dinode) (b : Block) (ino : Nat) : Block :=
  setWords b (32 * (ino % 8)) d.image 32

/-- `c_flags`: `CDIRTY`, `CRDONLY` and the lock count in `CFLOCK`. -/
structure Cinode where
  magic : Nat
  dev : Nat
  num : Nat
  node : Dinode
  refs : Nat
  readers : Nat
  writers : Nat
  dirty : Bool
  rdonly : Bool
  flock : Nat

def Cinode.mode (c : Cinode) : Nat := c.node.mode

def isdevice (c : Cinode) : Bool := c.node.mode / 8192 % 2 = 1

def devnum (c : Cinode) : Nat := c.node.addr 0

/-! ## Mounted file systems -/

inductive Fmod where
  | goClean
  | dirty
  | clean
  | other (n : Nat)
deriving DecidableEq

def Fmod.ofNat : Nat → Fmod
  | 0 => .goClean
  | 1 => .dirty
  | 2 => .clean
  | n => .other n

def Fmod.toNat : Fmod → Nat
  | .goClean => 0
  | .dirty => 1
  | .clean => 2
  | .other n => n

structure Filesys where
  mounted : Nat
  isize : Nat
  fsize : Nat
  nfree : Nat
  free : Nat → Nat
  ninode : Nat
  inode : Nat → Nat
  fmod : Fmod
  timeh : Nat
  time : Nat
  tfree : Nat
  tinode : Nat
  mntpt : Option Nat

/-- The superblock. The pointer `s_mntpt` on the medium is never used. -/
def Filesys.load (b : Block) : Filesys where
  mounted := word b 0
  isize := word b 1
  fsize := word b 2
  nfree := word b 3
  free := fun j => word b (4 + j)
  ninode := word b 54
  inode := fun j => word b (55 + j)
  fmod := .ofNat (word b 105 % 256)
  timeh := word b 105 / 256
  time := long b 106
  tfree := word b 108
  tinode := word b 109
  mntpt := none

def Filesys.store (fs : Filesys) (b : Block) : Block :=
  let b := setWord b 0 fs.mounted
  let b := setWord b 1 fs.isize
  let b := setWord b 2 fs.fsize
  let b := setWord b 3 fs.nfree
  let b := setWords b 4 fs.free FILESYS_TABSIZE
  let b := setWord b 54 fs.ninode
  let b := setWords b 55 fs.inode FILESYS_TABSIZE
  let b := setWord b 105 (fs.fmod.toNat + 256 * fs.timeh)
  let b := setLong b 106 fs.time
  let b := setWord b 108 fs.tfree
  setWord b 109 fs.tinode

structure Mount where
  dev : Nat
  rdonly : Bool
  nosuid : Bool
  fs : Filesys

/-! ## Files and processes -/

def O_RDONLY : Nat := 0
def O_WRONLY : Nat := 1
def O_RDWR : Nat := 2
def O_ACCMODE (x : Nat) : Nat := x % 4

/-- `o_access` with the flags that are saved in it. -/
structure Access where
  accmode : Nat
  append : Bool
  sync : Bool
  ndelay : Bool
  direct : Bool
  flock : Bool
deriving DecidableEq

/-- The low byte of the flags of `open`. -/
def Access.ofFlag (flag : Nat) : Access where
  accmode := O_ACCMODE flag
  append := flag / 4 % 2 = 1
  sync := flag / 8 % 2 = 1
  ndelay := flag / 16 % 2 = 1
  direct := flag / 32 % 2 = 1
  flock := flag / 128 % 2 = 1

structure Oft where
  ptr : Nat
  inode : Option Nat
  access : Access
  refs : Nat

/-- The system call a process sleeps in. A process waiting in `d_open` has
booked a descriptor and an entry of the open file table; one waiting for a pipe
has the offset and the count of its transfer in its `udata`. -/
inductive Wait where
  | opening (uindex oftindex flag : Nat)
  | reading (fd i : Nat) (access : Access)
  | writing (fd i : Nat) (access : Access) (src : List UInt8)

structure Udata where
  error : Nat
  count : Nat
  offset : Nat
  mask : Nat
  euid : Nat
  egid : Nat
  groups : Nat → Bool
  files : Nat → Nat
  cloexec : Nat → Bool
  cwd : Nat
  root : Nat
  rename : Option Nat
  ctty : Option Nat

inductive Status where
  | empty
  | live
  | zombie
deriving DecidableEq

structure Proc where
  status : Status
  parent : Nat
  ignoresChild : Bool
  wait : Option Wait
  u : Udata

/-- What happens on the device in one call of `bread`: a block whose eviction
fails keeps the device's content, the read itself may fail, and a buffer that
is not read holds whatever was in it. A character driver transfers `count`. -/
structure Io where
  lost : Option (Nat × Nat × Block)
  fails : Bool
  junk : Block
  count : Nat

structure Kernel where
  disk : Nat → Nat → Block
  io : Nat → Io
  xfers : Nat
  /-- How often a failed search of a directory may be repeated. -/
  patience : Nat
  now : Nat
  itab : Nat → Cinode
  oftab : Nat → Oft
  fstab : Nat → Mount
  ptab : Nat → Proc
  cur : Nat
  root : Nat
  rootDev : Nat
  acctFh : Option Nat

inductive Panic where
  | gdBad
  | ifreeBadi
  | validblkNm
  | validblkInv
  | getinoBadt
  | getinoOft
  | inodeFreed
  | corrupti
  | iopen
  | killedInit
deriving DecidableEq

/-- `null` is a use of a null pointer, `wild` an index outside a descriptor table
or the open file table, `overrun` one outside a list of the superblock, `hang` a
loop that does not end. -/
inductive Stop where
  | panic (why : Panic)
  | null
  | wild
  | overrun
  | hang
deriving DecidableEq

abbrev K := StateT Kernel (Except Stop)

def panic {α : Type} (why : Panic) : K α := throw (.panic why)

/-- A step taken only under a condition. -/
def onlyIf (c : Prop) [Decidable c] (m : K Unit) : K Unit := if c then m else pure ()

/-! ## Access to the tables -/

def modifyInode (i : Nat) (f : Cinode → Cinode) : K Unit :=
  modify (fun s => { s with itab := put s.itab i (f (s.itab i)) })

def modifyNode (i : Nat) (f : Dinode → Dinode) : K Unit :=
  modifyInode i (fun c => { c with node := f c.node })

def modifyOft (k : Nat) (f : Oft → Oft) : K Unit :=
  modify (fun s => { s with oftab := put s.oftab k (f (s.oftab k)) })

def modifyMount (m : Nat) (f : Mount → Mount) : K Unit :=
  modify (fun s => { s with fstab := put s.fstab m (f (s.fstab m)) })

def modifyFs (m : Nat) (f : Filesys → Filesys) : K Unit :=
  modifyMount m (fun mnt => { mnt with fs := f mnt.fs })

def modifyProc (p : Nat) (f : Proc → Proc) : K Unit :=
  modify (fun s => { s with ptab := put s.ptab p (f (s.ptab p)) })

def Kernel.u (s : Kernel) : Udata := (s.ptab s.cur).u

def modifyU (f : Udata → Udata) : K Unit :=
  modify (fun s => { s with
    ptab := put s.ptab s.cur { s.ptab s.cur with u := f s.u } })

def setError (e : Nat) : K Unit := modifyU (fun u => { u with error := e })

section Rules
variable {stop : Stop → Prop} {s : Kernel}

@[simp] theorem wp_modifyInode (i : Nat) (f : Cinode → Cinode) (Q : Unit → Kernel → Prop) :
    wp stop (modifyInode i f) Q s ↔ Q () { s with itab := put s.itab i (f (s.itab i)) } :=
  Iff.rfl

@[simp] theorem wp_modifyOft (k : Nat) (f : Oft → Oft) (Q : Unit → Kernel → Prop) :
    wp stop (modifyOft k f) Q s ↔ Q () { s with oftab := put s.oftab k (f (s.oftab k)) } :=
  Iff.rfl

@[simp] theorem wp_modifyProc (p : Nat) (f : Proc → Proc) (Q : Unit → Kernel → Prop) :
    wp stop (modifyProc p f) Q s ↔ Q () { s with ptab := put s.ptab p (f (s.ptab p)) } :=
  Iff.rfl

@[simp] theorem wp_modifyU (f : Udata → Udata) (Q : Unit → Kernel → Prop) :
    wp stop (modifyU f) Q s ↔
      Q () { s with ptab := put s.ptab s.cur { s.ptab s.cur with u := f s.u } } :=
  Iff.rfl

@[simp] theorem wp_panic {α : Type} (why : Panic) (Q : α → Kernel → Prop) :
    wp stop (panic why) Q s ↔ stop (.panic why) :=
  Iff.rfl

@[simp] theorem wp_onlyIf (c : Prop) [Decidable c] (m : K Unit) (Q : Unit → Kernel → Prop) :
    wp stop (onlyIf c m) Q s ↔ (c → wp stop m Q s) ∧ (¬ c → Q () s) := by
  simp only [onlyIf, wp_ite, wp_pure]

end Rules

/-! ## Buffers -/

/-- A block whose eviction failed. -/
def loseBlock : Option (Nat × Nat × Block) → K Unit
  | none => pure ()
  | some (dev, blk, b) => do
    modify (fun s => { s with disk := put₂ s.disk dev blk b })
    setError EIO

/-- A transfer for a buffer: what it evicts may be lost. -/
def evict : K Io := do
  let s ← get
  let x := s.io s.xfers
  modify (fun s => { s with xfers := s.xfers + 1 })
  loseBlock x.lost
  return x

def bread (dev blk : Nat) : K (Option Block) := do
  let x ← evict
  if x.fails then
    setError EIO
    return none
  else
    let s ← get
    return some (s.disk dev blk)

/-- `bread` of a block that will be overwritten: the buffer is not read. -/
def breadRewrite : K Block := do
  let x ← evict
  return x.junk

/-- The buffer of `zerobuf`. -/
def zerobuf : K Block := do
  let _ ← evict
  return zeroBlock

def bawrite (dev blk : Nat) (b : Block) : K Unit :=
  modify (fun s => { s with disk := put₂ s.disk dev blk b })

/-- `bfree(buf, 2)`: the content is kept in the cache when the transfer fails. -/
def bfreeSync (dev blk : Nat) (b : Block) : K Bool := do
  bawrite dev blk b
  let s ← get
  let x := s.io s.xfers
  modify (fun s => { s with xfers := s.xfers + 1 })
  if x.fails then
    setError EIO
    return false
  else
    return true

end Fuzix
