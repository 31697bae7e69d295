import Fuzix.Namei

/-!
# System calls

The calls on files, directories, mounts and processes. An answer `none` is
`-1`. What drivers, the memory allocator and the program loader answer is part
of the call, and a call that sleeps leaves what it waits for in the process.
-/

namespace Fuzix

open Wp Table Words

variable [Build]

def hasFlag (flag bit : Nat) : Bool := flag.testBit bit

/-- `a & ~b`. -/
def andNot (a b : Nat) : Nat := a - (a &&& b)

/-- What a driver's `open` does; only a terminal without carrier waits. The flag
of `opens` is set when the terminal becomes the controlling one. -/
inductive Driver where
  | opens (ctty : Bool)
  | refuses (error : Nat)
  | waits

/-! ## Descriptors -/

def dupTo (fd newd : Nat) : K Unit := do
  let k ← oftOf fd
  setFile newd k
  let _ ← getOft k
  modifyOft k (fun o => { o with refs := (o.refs + 1) % 256 })

def dup (oldd : Nat) : K (Option Nat) := do
  match ← getinode oldd with
  | none => return none
  | some _ =>
    match ← ufAlloc with
    | none => return none
    | some newd =>
      dupTo oldd newd
      return some newd

def dup2 (oldd newd : Nat) : K (Option Nat) := do
  match ← getinode oldd with
  | none => return none
  | some _ =>
    if UFTSIZE ≤ newd then
      setError EBADF
      return none
    else
      let s ← get
      onlyIf (s.u.files newd ≠ NO_FILE) (discard (doclose newd))
      dupTo oldd newd
      return some 0

inductive Fcntl where
  | setfl
  | getfl
  | getfd
  | setfd
  | dupfd
  | other

def fcntl (fd : Nat) (request : Fcntl) (data : Nat) : K (Option Nat) := do
  match ← getinode fd with
  | none => return none
  | some _ =>
    let k ← oftOf fd
    let _ ← getOft k
    let s ← get
    match request with
    | .setfl =>
      modifyOft k (fun o => { o with
        access := { o.access with append := hasFlag data 2, ndelay := hasFlag data 4 } })
      return some 0
    | .getfl => return some data
    | .getfd => return some (if s.u.cloexec fd then 4096 else 0)
    | .setfd =>
      modifyU (fun u => { u with
        cloexec := if hasFlag data 12 then put u.cloexec fd true
          else put (fun _ => false) fd (u.cloexec fd) })
      return some 0
    | .dupfd =>
      match ← ufAllocN data with
      | none => return none
      | some newd =>
        dupTo fd newd
        return some 0
    | .other =>
      setError EINVAL
      return none

def close (fd : Nat) : K (Option Nat) := do
  if ← doclose (fd % 256) then return none else return some 0

/-! ## open -/

/-- Look the name up, or create it. -/
def openInode (name : Path) (flag mode : Nat) : K (Option Nat) := do
  let (ino, parent) ← nOpenParent name
  match ino, parent with
  | some _, none => throw .null
  | some ino, some parent =>
    iDeref parent
    if hasFlag flag 8 ∧ hasFlag flag 9 then
      setError EEXIST
      iDeref ino
      return none
    else return some ino
  | none, none => return none
  | none, some parent =>
    let s ← get
    if s.u.error = EFAULT then return none
    else if hasFlag flag 8 = false then
      setError ENOENT
      return none
    else
      let fname ← filenameOf name
      match ← newfile parent fname with
      | none => return none
      | some ino =>
        let s ← get
        modifyNode ino (fun d => { d with mode := F_REG + andNot (mode % 4096) s.u.mask })
        setftime ino Times.all
        wrInode ino
        return some ino

/-- The error when the inode may not be opened with these flags. -/
def openDenied (s : Kernel) (ino flag : Nat) : Option Nat :=
  let c := s.itab ino
  let perm := getperm s ino
  let r := (flag + 1) % 2 = 1
  let w := (flag + 1) / 2 % 2 = 1
  if (r ∧ mayRead perm = false) ∨ (w ∧ mayWrite perm = false) then some EACCES
  else if w ∧ fmt c.node.mode = F_DIR then some EISDIR
  else if w ∧ isdevice c = false ∧ c.rdonly then some EROFS
  else none

inductive Opened where
  | yes
  | no
  | waits

def TTYDEV : Nat := 0x0200

def isTty (da : Nat) : Bool := da / 256 = 2

def ttyPost (i : Nat) (ctty : Bool) : K Unit :=
  modifyU (fun u => { u with ctty := if ctty then some i else u.ctty })

def dOpen (da i : Nat) (drv : Driver) : K Opened := do
  if validdev da = false then
    setError ENXIO
    return .no
  else
    match drv with
    | .refuses e =>
      setError e
      return .no
    | .waits => return if isTty da then .waits else .no
    | .opens ctty =>
      onlyIf (isTty da) (ttyPost i ctty)
      return .yes

/-- Opening `/dev/tty` replaces the inode by the controlling terminal's. -/
def devOpeni (k : Nat) (drv : Driver) : K Opened := do
  let s ← get
  match (s.oftab k).inode with
  | none => throw .null
  | some i =>
    if devnum (s.itab i) = TTYDEV then
      match s.u.ctty with
      | none =>
        setError ENODEV
        return .no
      | some t =>
        iDeref i
        modifyOft k (fun o => { o with inode := some t })
        let s ← get
        iRef t
        dOpen (devnum (s.itab t)) t drv
    else dOpen (devnum (s.itab i)) i drv

def cantopen (uindex k : Nat) : K (Option Nat) := do
  oftDeref k
  setFile uindex NO_FILE
  return none

/-- Every open of the inode goes back to its start. -/
def rewindAll (ino : Nat) : K Unit :=
  modify (fun s =>
    let rewind (o : Oft) : Oft := if o.inode = some ino then { o with ptr := 0 } else o
    { s with oftab := fun j => if j < OFTSIZE then rewind (s.oftab j) else s.oftab j })

/-- The descriptor and the entry are filled in. -/
def openDone (uindex k flag ino : Nat) : K (Option Nat) := do
  modifyOft k (fun o => { o with ptr := 0, access := .ofFlag flag })
  modifyU (fun u => { u with
    files := put u.files uindex k
    cloexec := if hasFlag flag 12 ∧ k < 16 then put u.cloexec k true else u.cloexec })
  modifyInode ino (fun c => { c with
    writers := if O_ACCMODE flag ≠ O_RDONLY then (c.writers + 1) % 256 else c.writers
    readers := if O_ACCMODE flag ≠ O_WRONLY then (c.readers + 1) % 256 else c.readers })
  return some uindex

/-- What `_open` does when the device is open. -/
def openFinish (uindex k flag : Nat) : K (Option Nat) := do
  let s ← get
  match (s.oftab k).inode with
  | none => throw .null
  | some ino =>
    if (flag + 1) / 2 % 2 = 1 ∧ hasFlag flag 10 ∧ fmt (s.itab ino).node.mode = F_REG then
      if ← fTrunc ino then
        iDeref ino
        cantopen uindex k
      else
        rewindAll ino
        openDone uindex k flag ino
    else openDone uindex k flag ino

def setWait (w : Option Wait) : K Unit := do
  let s ← get
  modifyProc s.cur (fun p => { p with wait := w })

def badFlags (flag : Nat) : Bool :=
  O_ACCMODE flag = 3 ∨ hasFlag flag 6 ∨ hasFlag flag 7 ∨ hasFlag flag 13 ∨
    hasFlag flag 14 ∨ hasFlag flag 15

/-- The part of `_open` after the lookup. -/
def openEntry (uindex k flag ino : Nat) (drv : Driver) : K (Option Nat) := do
  modifyOft k (fun o => { o with inode := some ino })
  let s ← get
  match openDenied s ino flag with
  | some e =>
    setError e
    cantopen uindex k
  | none =>
    if isdevice (s.itab ino) then
      match ← devOpeni k drv with
      | .no => cantopen uindex k
      | .yes => openFinish uindex k flag
      | .waits =>
        setWait (some (.opening uindex k flag))
        return none
    else openFinish uindex k flag

def open' (name : Path) (flag mode : Nat) (drv : Driver) : K (Option Nat) := do
  if badFlags flag then
    setError EINVAL
    return none
  else
    match ← ufAlloc with
    | none => return none
    | some uindex =>
      match ← oftAlloc with
      | none =>
        setFile uindex NO_FILE
        return none
      | some k =>
        match ← openInode name flag mode with
        | none => cantopen uindex k
        | some ino => openEntry uindex k flag ino drv

/-! ## pipe -/

/-- Two descriptors' worth of entries: `u1`, `oft1`, `u2`, `oft2`. -/
def pipeSlots : K (Option (Nat × Nat × Nat × Nat)) := do
  match ← ufAlloc with
  | none => return none
  | some u1 =>
    match ← oftAlloc with
    | none => return none
    | some oft1 =>
      setFile u1 oft1
      match ← ufAlloc with
      | none =>
        oftDeref oft1
        setFile u1 NO_FILE
        return none
      | some u2 =>
        match ← oftAlloc with
        | none =>
          oftDeref oft1
          setFile u1 NO_FILE
          return none
        | some oft2 => return some (u1, oft1, u2, oft2)

def pipeInode : K (Option Nat) := do
  let s ← get
  iOpen s.rootDev 0

def pipe : K (Option Nat) := do
  match ← pipeSlots with
  | none => return none
  | some (u1, oft1, u2, oft2) =>
    match ← pipeInode with
    | none =>
      oftDeref oft2
      oftDeref oft1
      setFile u1 NO_FILE
      return none
    | some ino =>
      let s ← get
      if (s.itab ino).rdonly then
        setError EROFS
        iDeref ino
        oftDeref oft1
        setFile u1 NO_FILE
        return none
      else
        setFile u2 oft2
        modifyOft oft1 (fun o => { o with
          ptr := 0, inode := some ino, access := .ofFlag O_RDONLY })
        modifyOft oft2 (fun o => { o with
          ptr := 0, inode := some ino, access := .ofFlag O_WRONLY })
        modifyInode ino (fun c => { c with
          refs := (c.refs + 1) % 256
          node := { c.node with mode := F_PIPE + 0o777, nlink := 0 }
          readers := (c.readers + 1) % 256
          writers := (c.writers + 1) % 256 })
        return some 0

/-! ## read and write -/

/-- After `readi` or `writei` has run or the wait was broken off. -/
def endXfer (fd : Nat) : K (Option Nat) := do
  updoff fd
  let s ← get
  return if s.u.count = minusOne then none else some s.u.count

def readFrom (fd i : Nat) (access : Access) : K (Option Nat) := do
  match ← readi i access.ndelay with
  | .sleep =>
    setWait (some (.reading fd i access))
    return none
  | .done _ => endXfer fd

def writeTo (fd i : Nat) (access : Access) (src : List UInt8) : K (Option Nat) := do
  match ← writei i access src with
  | .sleep =>
    setWait (some (.writing fd i access src))
    return none
  | .done _ => endXfer fd

/-- `(ssize_t)nbytes < 0`. -/
def negative (nbytes : Nat) : Bool := minusOne / 2 < nbytes

/-- The flag is set when the buffer passes `valaddr`. -/
def read (fd nbytes : Nat) (mapped : Bool) : K (Option Nat) := do
  if nbytes = 0 then return some 0
  else if negative nbytes then
    setError EINVAL
    return none
  else if mapped = false then
    setError EFAULT
    return none
  else
    match ← rwsetup true fd nbytes with
    | none => return none
    | some (i, access) => readFrom fd i access

def write (fd : Nat) (src : List UInt8) (mapped : Bool) : K (Option Nat) := do
  if src.length = 0 then return some 0
  else if negative src.length then
    setError EINVAL
    return none
  else if mapped = false then
    setError EFAULT
    return none
  else
    match ← rwsetup false fd src.length with
    | none => return none
    | some (i, access) => writeTo fd i access src

/-! ## Directories -/

def linkDenied (s : Kernel) (ino : Nat) : K Bool :=
  if fmt (s.itab ino).node.mode = F_DIR then esuper else pure false

def link (name1 name2 : Path) : K (Option Nat) := do
  match ← nOpen name1 with
  | none => return none
  | some ino =>
    let s ← get
    if ← linkDenied s ino then
      iDeref ino
      return none
    else if (s.itab ino).node.nlink = 0xFFFF then
      setError EMLINK
      iDeref ino
      return none
    else
      match ← nOpenParent name2 with
      | (some _, none) => throw .null
      | (some ino2, some parent2) =>
        iDeref ino2
        iDeref parent2
        setError EEXIST
        iDeref ino
        return none
      | (none, none) =>
        iDeref ino
        return none
      | (none, some parent2) =>
        let s ← get
        if (s.itab ino).dev ≠ (s.itab parent2).dev then
          iDeref parent2
          setError EXDEV
          iDeref ino
          return none
        else
          let fname ← filenameOf name2
          if ← chLink parent2 [] fname (some ino) then
            modifyNode ino (fun d => { d with nlink := (d.nlink + 1) % 65536 })
            wrInode ino
            setftime ino ⟨false, false, true⟩
            iDeref parent2
            iDeref ino
            return some 0
          else
            iDeref parent2
            iDeref ino
            return none

def derefOption (i : Option Nat) : K Unit :=
  match i with
  | none => pure ()
  | some i => iDeref i

def unlink (path : Path) : K (Option Nat) := do
  match ← nOpenParent path with
  | (some ino, some pino) =>
    let fname ← filenameOf path
    let failed ← unlinki ino pino fname
    iDeref pino
    iDeref ino
    return if failed then none else some 0
  | (_, pino) =>
    derefOption pino
    setError ENOENT
    return none

def mknod (name : Path) (mode dev : Nat) : K (Option Nat) := do
  setError 0
  let s ← get
  if super s = false ∧ fmt mode ≠ F_PIPE then
    setError EPERM
    return none
  else
    match ← nOpenParent name with
    | (some _, none) => throw .null
    | (some ino, some parent) =>
      setError EEXIST
      iDeref ino
      iDeref parent
      return none
    | (none, none) =>
      setError ENOENT
      return none
    | (none, some parent) =>
      let fname ← filenameOf name
      match ← newfile parent fname with
      | none => return none
      | some ino =>
        let s ← get
        modifyNode ino (fun d => { d with mode := andNot (mode % 65536) s.u.mask })
        modifyInode ino (fun c => { c with
          node := { c.node with
            addr := put c.node.addr 0 (if isdevice c then dev % 65536 else 0) } })
        setftime ino Times.all
        wrInode ino
        iDeref ino
        return some 0

def chdiroot (ino : Nat) (old : Nat) (move : Udata → Udata) : K (Option Nat) := do
  let s ← get
  if fmt (s.itab ino).node.mode ≠ F_DIR then
    setError ENOTDIR
    iDeref ino
    return none
  else
    iDeref old
    modifyU move
    return some 0

def chdir (dir : Path) : K (Option Nat) := do
  match ← nOpen dir with
  | none => return none
  | some ino =>
    let s ← get
    chdiroot ino s.u.cwd (fun u => { u with cwd := ino })

def fchdir (fd : Nat) : K (Option Nat) := do
  match ← getinode fd with
  | none => return none
  | some ino =>
    iRef ino
    let s ← get
    chdiroot ino s.u.cwd (fun u => { u with cwd := ino })

def chroot (dir : Path) : K (Option Nat) := do
  if ← esuper then return none
  else
    match ← nOpen dir with
    | none => return none
    | some ino =>
      let s ← get
      chdiroot ino s.u.root (fun u => { u with root := ino })

/-- The error that forbids a rename, or removal of the old target. -/
def renameDenied (s : Kernel) (srci srcp dstp : Nat) : Option Nat :=
  if (s.itab srci).dev ≠ (s.itab dstp).dev then some EXDEV
  else if fmt (s.itab srci).node.mode = F_DIR then some EISDIR
  else if s.u.rename = none then some EINVAL
  else if mayWrite (getperm s srcp) = false ∧ super s = false then some EACCES
  else none

/-- Unlink the old target and drop its reference; true when it stays. -/
def renameOver (dsti dstp : Nat) (fname : List UInt8) : K Bool := do
  let s ← get
  if fmt (s.itab dsti).node.mode = F_DIR then
    setError EISDIR
    iDeref dsti
    return true
  else if ← unlinki dsti dstp fname then
    iDeref dsti
    return true
  else
    iDeref dsti
    return false

def renameRemove (dsti : Option Nat) (dstp : Nat) (fname : List UInt8) : K Bool :=
  match dsti with
  | none => pure false
  | some dsti => renameOver dsti dstp fname

/-- Enter the new name and remove the old one. -/
def renameLinks (src : Path) (srci srcp dstp : Nat) (fname : List UInt8) : K (Option Nat) := do
  if ← chLink dstp [] fname (some srci) then
    let old ← filenameOf src
    if ← chLink srcp old [] none then
      wrInode dstp
      wrInode srcp
      sync
      return some 0
    else return none
  else return none

/-- What `_rename` does when both parents are found. -/
def renameInto (src : Path) (srci srcp : Nat) (dsti : Option Nat) (dstp : Nat)
    (fname : List UInt8) : K (Option Nat) := do
  let s ← get
  match renameDenied s srci srcp dstp with
  | some e =>
    setError e
    derefOption dsti
    iDeref dstp
    return none
  | none =>
    if ← renameRemove dsti dstp fname then
      iDeref dstp
      return none
    else
      let ret ← renameLinks src srci srcp dstp fname
      iDeref dstp
      return ret

/-- When both names are the same file nothing is done, and what the second walk
took is kept. -/
def renameFound (src : Path) (srci srcp : Nat) (dsti dstp : Option Nat)
    (fname : List UInt8) : K (Option Nat) :=
  if dsti = some srci then pure (some 0)
  else
    match dstp with
    | none => pure none
    | some dstp => renameInto src srci srcp dsti dstp fname

def rename (src dst : Path) : K (Option Nat) := do
  match ← nOpenParent src with
  | (none, srcp) =>
    derefOption srcp
    return none
  | (some _, none) => throw .null
  | (some srci, some srcp) =>
    modifyU (fun u => { u with rename := some srci })
    let fname ← filenameOf dst
    let (dsti, dstp) ← nOpenParent dst
    let ret ← renameFound src srci srcp dsti dstp fname
    iDeref srci
    iDeref srcp
    return ret

/-- The new directory's own entries. -/
def mkdirEntries (ino parent : Nat) : K Bool := do
  if ← chLink ino [] dot (some ino) then chLink ino [] dotdot (some parent)
  else return false

def mkdirFill (ino parent mode : Nat) (fname : List UInt8) : K (Option Nat) := do
  modifyNode ino (fun d => { d with mode := F_DIR + 0o200 })
  setftime ino Times.all
  if ← mkdirEntries ino parent then
    let s ← get
    modifyNode ino (fun d => { d with nlink := 2 })
    modifyNode parent (fun d => { d with nlink := (d.nlink + 1) % 65536 })
    modifyNode ino (fun d => { d with mode := andNot (mode % 65536) s.u.mask % 4096 + F_DIR })
    iDeref parent
    wrInode ino
    iDeref ino
    return some 0
  else
    let _ ← chLink parent fname [] none
    modifyNode ino (fun d => { d with nlink := 0 })
    wrInode ino
    iDeref ino
    iDeref parent
    return none

/-- When `newfile` fails it has dropped one of the two references to the parent,
and both are dropped again. -/
def mkdir (name : Path) (mode : Nat) : K (Option Nat) := do
  match ← nOpenParent name with
  | (some _, none) => throw .null
  | (some ino, some parent) =>
    setError EEXIST
    iDeref ino
    iDeref parent
    return none
  | (none, none) =>
    setError ENOENT
    return none
  | (none, some parent) =>
    let s ← get
    if (s.itab parent).node.nlink = 0xFFFF then
      setError EMLINK
      iDeref parent
      return none
    else
      let fname ← filenameOf name
      iRef parent
      match ← newfile parent fname with
      | none =>
        iDeref parent
        iDeref parent
        return none
      | some ino => mkdirFill ino parent mode fname

def rmdirDenied (s : Kernel) (ino parent : Nat) : K Bool := do
  if fmt (s.itab ino).node.mode ≠ F_DIR then
    setError ENOTDIR
    return true
  else if (s.itab ino).node.nlink ≠ 2 then
    setError ENOTEMPTY
    return true
  else return mayWrite (getperm s parent) = false

def rmdir (path : Path) : K (Option Nat) := do
  match ← nOpenParent path with
  | (some ino, some parent) =>
    let s ← get
    if ← rmdirDenied s ino parent then
      iDeref parent
      iDeref ino
      return none
    else
      let fname ← filenameOf path
      if ← chLink parent fname [] none then
        modifyNode ino (fun d => { d with nlink := 0 })
        modifyNode parent (fun d => { d with nlink := if d.nlink = 0 then 1 else d.nlink - 1 })
        setftime ino ⟨false, false, true⟩
        wrInode parent
        wrInode ino
        iDeref parent
        iDeref ino
        return some 0
      else
        iDeref parent
        iDeref ino
        return none
  | (_, parent) =>
    derefOption parent
    setError ENOENT
    return none

/-! ## Mounts -/

def fopen (dev : Nat) (drv : Driver) : K Bool := do
  if validdev dev = false then
    setError ENXIO
    return false
  else
    match drv with
    | .opens _ => return true
    | _ => return false

def refOption (i : Option Nat) : K Unit :=
  match i with
  | none => pure ()
  | some i => iRef i

/-- True when the device was not mounted. -/
def fmount (dev : Nat) (ino : Option Nat) (rdonly nosuid : Bool) (drv : Driver) : K Bool := do
  if ← fopen dev drv then
    let s ← get
    match newfstab s with
    | none =>
      setError EMFILE
      return true
    | some m =>
      match ← bread dev 1 with
      | none => return true
      | some buf =>
        let fp := Filesys.load buf
        modifyFs m (fun _ => fp)
        if fp.mounted ≠ SMOUNTED ∨ fp.fsize ≤ fp.isize then
          setError EINVAL
          return true
        else
          let rdonly := rdonly || decide (fp.fmod = .dirty)
          modifyMount m (fun _ =>
            { dev := dev
              rdonly := rdonly
              nosuid := nosuid
              fs := { fp with
                fmod := if rdonly then .clean else .dirty
                mntpt := ino } })
          refOption ino
          sync
          return false
  else return true

def mountDenied (s : Kernel) (dev dino : Nat) : Bool :=
  fsTabGet s dev ≠ none ∨ (s.itab dino).refs ≠ 1 ∨ (s.itab dino).num = ROOTINODE

/-- The checks of `_mount` and the mount itself; true when it fails. -/
def mountOnto (sino dino : Nat) (rdonly nosuid : Bool) (drv : Driver) : K Bool := do
  let s ← get
  let dev := devnum (s.itab sino)
  if fmt (s.itab sino).node.mode ≠ F_BDEV then
    setError ENOTBLK
    return true
  else if fmt (s.itab dino).node.mode ≠ F_DIR then
    setError ENOTDIR
    return true
  else if ← fopen dev drv then
    let s ← get
    if mountDenied s dev dino then
      setError EBUSY
      return true
    else
      sync
      if ← fmount dev (some dino) rdonly nosuid drv then
        setError EBUSY
        return true
      else return false
  else
    setError ENXIO
    return true

def mount (spec dir : Path) (flags : Nat) (drv : Driver) : K (Option Nat) := do
  if ← esuper then return none
  else
    match ← nOpen spec with
    | none => return none
    | some sino =>
      match ← nOpen dir with
      | none =>
        iDeref sino
        return none
      | some dino =>
        let failed ← mountOnto sino dino (hasFlag flags 0) (hasFlag flags 1) drv
        iDeref dino
        iDeref sino
        return if failed then none else some 0

/-- Something on the device is open for writing or will be deleted. -/
def writing (s : Kernel) (dev : Nat) : Bool :=
  (List.range ITABSIZE).any (fun i =>
    (s.itab i).dev = dev ∧ isdevice (s.itab i) = false ∧
      ((s.itab i).writers ≠ 0 ∨ (s.itab i).node.nlink = 0))

def inUse (s : Kernel) (dev : Nat) : Bool :=
  (List.range ITABSIZE).any (fun i => (s.itab i).dev = dev ∧ (s.itab i).refs ≠ 0)

def remountInodes (dev : Nat) (rdonly : Bool) : K Unit :=
  modify (fun s =>
    let mark (c : Cinode) : Cinode := if c.dev = dev then { c with rdonly := rdonly } else c
    { s with itab := fun i => if i < ITABSIZE then mark (s.itab i) else s.itab i })

def remount (m : Nat) (rdonly nosuid : Bool) : K Unit := do
  modifyMount m (fun mnt => { mnt with rdonly := rdonly, nosuid := nosuid })
  if rdonly then modifyFs m (fun fs => { fs with fmod := .goClean })

/-- The test for a remount reads `flags & (mask == mask)`, which is the flag
`MS_RDONLY` alone. -/
def doUmount (dev flags : Nat) : K (Option Nat) := do
  let s ← get
  match fsTabGet s dev with
  | none =>
    setError EINVAL
    return none
  | some m =>
    if hasFlag flags 0 ∧ writing s dev then
      setError EBUSY
      return none
    else if hasFlag flags 7 then
      remountInodes dev (hasFlag flags 0)
      sync
      remount m (hasFlag flags 0) (hasFlag flags 1)
      return some 0
    else if inUse s dev then
      setError EBUSY
      return none
    else
      modifyFs m (fun fs => { fs with fmod := .goClean })
      sync
      match (s.fstab m).fs.mntpt with
      | none => throw .null
      | some i =>
        iDeref i
        modifyMount m (fun mnt => { mnt with dev := NO_DEVICE })
        return some 0

def umountFrom (s : Kernel) (sino flags : Nat) : K (Option Nat) := do
  if fmt (s.itab sino).node.mode ≠ F_BDEV then
    setError ENOTBLK
    return none
  else if validdev (devnum (s.itab sino)) = false then
    setError ENXIO
    return none
  else doUmount (devnum (s.itab sino)) flags

def umount (spec : Path) (flags : Nat) : K (Option Nat) := do
  if ← esuper then return none
  else
    match ← nOpen spec with
    | none => return none
    | some sino =>
      let s ← get
      let ret ← umountFrom s sino flags
      iDeref sino
      return ret

/-! ## Processes -/

/-- The descriptors of the new process count in the open file table. -/
def shareFiles (files : Nat → Nat) : Nat → K Unit
  | 0 => pure ()
  | n + 1 => do
    shareFiles files n
    if files n ≠ NO_FILE then
      let _ ← getOft (files n)
      modifyOft (files n) (fun o => { o with refs := (o.refs + 1) % 256 })

/-- The flag is set when there is memory for the new process. -/
def fork (memory : Bool) : K (Option Nat) := do
  let s ← get
  match (List.range PTABSIZE).find? (fun p => (s.ptab p).status = .empty) with
  | none =>
    setError EAGAIN
    return none
  | some p =>
    if memory = false then
      setError ENOMEM
      return none
    else
      modifyProc p (fun _ => {
        status := .live
        parent := s.cur
        ignoresChild := (s.ptab s.cur).ignoresChild
        wait := none
        u := { s.u with error := 0 } })
      iRef s.u.cwd
      iRef s.u.root
      shareFiles s.u.files UFTSIZE
      return some p

/-- What the loader finds: a good header, an image that fits, and the error of
`rargs` or `pagemap_realloc`. -/
structure Image where
  header : Bool
  fits : Bool
  failure : Option Nat

def closeOnExec : Nat → K Unit
  | 0 => pure ()
  | j + 1 => do
    let s ← get
    onlyIf (s.u.cloexec j) (discard (doclose j))
    closeOnExec j

/-- The bits `SET_UID` and `SET_GID` take effect. -/
def setIds (d : Dinode) : K Unit :=
  modifyU (fun u => { u with
    euid := if hasFlag d.mode 11 then d.uid else u.euid
    egid := if hasFlag d.mode 10 then d.gid else u.egid })

def readImage (i offset count : Nat) : K Bool := do
  modifyU (fun u => { u with offset := offset, count := count })
  match ← readi i false with
  | .sleep => throw .hang
  | .done _ =>
    let s ← get
    return s.u.count = count

def execBody (i : Nat) : K Unit := do
  let s ← get
  if 16 < (s.itab i).node.size then
    let _ ← readImage i s.u.offset ((s.itab i).node.size - 16)

/-- Close and read: the point of no return of `_execve` lies before this. -/
def execLoad (i : Nat) : K Unit := do
  let s ← get
  setIds (s.itab i).node
  closeOnExec UFTSIZE
  modifyU (fun u => { u with cloexec := fun _ => false })
  execBody i

def execve (name : Path) (image : Image) : K (Option Nat) := do
  match ← nOpen name with
  | none => return none
  | some i =>
    let s ← get
    let mode := (s.itab i).node.mode
    if maySearch (getperm s i) = false ∨ hasFlag mode 15 = false ∨
        (hasFlag mode 0 = false ∧ hasFlag mode 3 = false ∧ hasFlag mode 6 = false) then
      setError EACCES
      iDeref i
      return none
    else
      setftime i ⟨true, false, false⟩
      if ← readImage i 0 16 then
        if image.header = false then
          setError ENOEXEC
          iDeref i
          return none
        else if image.fits = false then
          setError ENOMEM
          iDeref i
          return none
        else
          match image.failure with
          | some e =>
            setError e
            iDeref i
            return none
          | none =>
            execLoad i
            iDeref i
            return some 0
      else
        setError ENOEXEC
        iDeref i
        return none

def closeAll : Nat → K Unit
  | 0 => pure ()
  | n + 1 => do
    closeAll n
    let s ← get
    if s.u.files n ≠ NO_FILE then
      let _ ← doclose n

/-- Children go to init; if init ignores `SIGCHLD` their slots are emptied. -/
def orphan : K Unit :=
  modify (fun s =>
    let adopt (q : Proc) : Proc :=
      { q with
        parent := 0
        status := if (s.ptab 0).ignoresChild then .empty else q.status }
    let child (p : Nat) : Bool :=
      p < PTABSIZE ∧ p ≠ s.cur ∧ (s.ptab p).status ≠ .empty ∧ (s.ptab p).parent = s.cur
    { s with ptab := fun p => if child p then adopt (s.ptab p) else s.ptab p })

/-- The record goes where the last transfer of the process stood. -/
def acctexit (record : List UInt8) : K Unit := do
  let s ← get
  match s.acctFh with
  | none => pure ()
  | some k =>
    let o ← getOft k
    match o.inode with
    | none => throw .null
    | some i =>
      modifyU (fun u => { u with count := record.length })
      modifyOft k (fun o => { o with ptr := (s.itab i).node.size })
      let _ ← writei i Access.kernel record

def leave : K Unit := do
  let s ← get
  let gone := (s.ptab (s.ptab s.cur).parent).ignoresChild
  modifyProc s.cur (fun p => { p with
    wait := none
    status := if gone then .empty else .zombie })

def doexit (record : List UInt8) : K Unit := do
  let s ← get
  if s.cur = 0 then panic .killedInit
  else
    sync
    closeAll UFTSIZE
    let s ← get
    iDeref s.u.cwd
    iDeref s.u.root
    orphan
    acctexit record
    leave

/-- `waitpid` frees the slot of a zombie child. -/
def reap (p : Nat) : K (Option Nat) := do
  let s ← get
  if p < PTABSIZE ∧ (s.ptab p).status = .zombie ∧ (s.ptab p).parent = s.cur then
    modifyProc p (fun q => { q with status := .empty })
    return some p
  else return none

/-! ## acct -/

def setAcct (k : Option Nat) : K Unit := modify (fun s => { s with acctFh := k })

def oftDerefOption (k : Option Nat) : K Unit :=
  match k with
  | none => pure ()
  | some k => oftDeref k

/-- What `_acct` does with its argument; `none` turns accounting off. -/
def acctFile (fd : Option Nat) : K (Option Nat) :=
  match fd with
  | none => return some 0
  | some fd => do
    match ← getinode fd with
    | none => return none
    | some i =>
      let s ← get
      if fmt (s.itab i).node.mode ≠ F_REG then
        setError EINVAL
        return none
      else if (s.itab i).rdonly then
        setError EROFS
        return none
      else
        let k ← oftOf fd
        setAcct (some k)
        let _ ← getOft k
        modifyOft k (fun o => { o with refs := (o.refs + 1) % 256 })
        return some 0

def acct (fd : Option Nat) : K (Option Nat) := do
  if configAcct = false then
    setError EINVAL
    return none
  else if ← esuper then return none
  else
    let s ← get
    oftDerefOption s.acctFh
    acctFile fd

/-! ## Runs -/

inductive Call where
  | openFile (name : Path) (flag mode : Nat) (drv : Driver)
  | close (fd : Nat)
  | dup (oldd : Nat)
  | dup2 (oldd newd : Nat)
  | fcntl (fd : Nat) (request : Fcntl) (data : Nat)
  | pipe
  | read (fd nbytes : Nat) (mapped : Bool)
  | write (fd : Nat) (src : List UInt8) (mapped : Bool)
  | link (name1 name2 : Path)
  | unlink (path : Path)
  | mknod (name : Path) (mode dev : Nat)
  | chdir (dir : Path)
  | fchdir (fd : Nat)
  | chroot (dir : Path)
  | rename (src dst : Path)
  | mkdir (name : Path) (mode : Nat)
  | rmdir (path : Path)
  | mount (spec dir : Path) (flags : Nat) (drv : Driver)
  | umount (spec : Path) (flags : Nat)
  | sync
  | fork (memory : Bool)
  | execve (name : Path) (image : Image)
  | exit (record : List UInt8)
  | reap (p : Nat)
  | acct (fd : Option Nat)

def Call.run : Call → K (Option Nat)
  | .openFile name flag mode drv => open' name flag mode drv
  | .close fd => Fuzix.close fd
  | .dup oldd => Fuzix.dup oldd
  | .dup2 oldd newd => Fuzix.dup2 oldd newd
  | .fcntl fd request data => Fuzix.fcntl fd request data
  | .pipe => Fuzix.pipe
  | .read fd nbytes mapped => Fuzix.read fd nbytes mapped
  | .write fd src mapped => Fuzix.write fd src mapped
  | .link name1 name2 => Fuzix.link name1 name2
  | .unlink path => Fuzix.unlink path
  | .mknod name mode dev => Fuzix.mknod name mode dev
  | .chdir dir => Fuzix.chdir dir
  | .fchdir fd => Fuzix.fchdir fd
  | .chroot dir => Fuzix.chroot dir
  | .rename src dst => Fuzix.rename src dst
  | .mkdir name mode => Fuzix.mkdir name mode
  | .rmdir path => Fuzix.rmdir path
  | .mount spec dir flags drv => Fuzix.mount spec dir flags drv
  | .umount spec flags => Fuzix.umount spec flags
  | .sync => do
    Fuzix.sync
    return some 0
  | .fork memory => Fuzix.fork memory
  | .execve name image => Fuzix.execve name image
  | .exit record => do
    doexit record
    return none
  | .reap p => Fuzix.reap p
  | .acct fd => Fuzix.acct fd

/-- How a sleep ends: the awaited event, a caught signal or a fatal one. -/
inductive Wake where
  | event (ctty : Bool)
  | signal (error : Nat)
  | killed (record : List UInt8)

/-- A process goes on after its sleep. -/
def resume (w : Wait) (wake : Wake) : K (Option Nat) := do
  setWait none
  match w, wake with
  | _, .killed record =>
    doexit record
    return none
  | .opening uindex k flag, .event ctty =>
    let s ← get
    match (s.oftab k).inode with
    | none => throw .null
    | some i =>
      ttyPost i ctty
      openFinish uindex k flag
  | .opening uindex k _, .signal e =>
    setError e
    cantopen uindex k
  | .reading fd i access, .event _ => readFrom fd i access
  | .reading fd _ _, .signal e =>
    modifyU (fun u => { u with error := e, count := 0 })
    endXfer fd
  | .writing fd i access src, .event _ => writeTo fd i access src
  | .writing fd _ _ _, .signal e =>
    setError e
    endXfer fd

/-- One scheduled action: a live process makes a call, or goes on in one. -/
inductive Action where
  | call (p : Nat) (c : Call)
  | wake (p : Nat) (w : Wake)

def enterCall (p : Nat) : K Unit := do
  modify (fun s => { s with cur := p })
  setError 0

/-- The actions possible in a state. -/
def Action.enabled (s : Kernel) : Action → Prop
  | .call p _ => p < PTABSIZE ∧ (s.ptab p).status = .live ∧ (s.ptab p).wait = none
  | .wake p _ => p < PTABSIZE ∧ (s.ptab p).status = .live ∧ (s.ptab p).wait ≠ none

def Action.run (s : Kernel) : Action → K (Option Nat)
  | .call p c => do
    enterCall p
    c.run
  | .wake p w => do
    modify (fun s => { s with cur := p })
    match (s.ptab p).wait with
    | none => return none
    | some wait => resume wait w

end Fuzix
