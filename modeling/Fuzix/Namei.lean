import Fuzix.Inode

/-!
# Path names and directories

The path walk, the search of a directory and the change of an entry, as in
filesys.c. A path is the string `ugets` copies from the caller, `none` when it
cannot be copied. The walk skips every run of slashes, so it sees a path as its
nonempty components; `filename` looks at the characters.
-/

namespace Fuzix

open Wp Table Words

variable [Build]

abbrev Path := Option (List UInt8)

def slash : UInt8 := 0x2F
def dot : List UInt8 := [0x2E]
def dotdot : List UInt8 := [0x2E, 0x2E]

def components : List UInt8 → List (List UInt8)
  | [] => []
  | c :: rest =>
    if c = slash then components rest
    else
      match rest with
      | [] => [[c]]
      | d :: _ =>
        if d = slash then [c] :: components rest
        else
          match components rest with
          | [] => [[c]]
          | w :: ws => (c :: w) :: ws

/-- The name in memory up to its end. -/
def cstr (l : List UInt8) : List UInt8 := l.takeWhile (· ≠ 0)

/-- What follows the last slash; without a slash and without a character the
pointer has moved in front of the buffer. -/
def lastComponent (chars : List UInt8) : List UInt8 :=
  if chars = [] then
    if Build.below 1 = slash then [] else cstr [Build.below 1]
  else (chars.reverse.takeWhile (· ≠ slash)).reverse

def filename (path : List UInt8) : List UInt8 :=
  let name :=
    if path = [] then
      if Build.below 1 = slash then
        if Build.below 2 = slash then [] else cstr [Build.below 2]
      else cstr [Build.below 1]
    else if path.getLast? = some slash then lastComponent path.dropLast
    else lastComponent path
  name.take FILENAME_LEN

/-- Compare a component with the entry `n2` from character `k` on. -/
def namecompFrom (n2 : Nat → UInt8) : List UInt8 → Nat → Bool
  | [], k => n2 k = 0 ∨ n2 k = slash
  | c :: rest, k =>
    if c = 0 ∨ c = slash then n2 k = 0 ∨ n2 k = slash
    else if c ≠ n2 k then false
    else if k + 1 = FILENAME_LEN then true
    else namecompFrom n2 rest (k + 1)

def namecomp (n1 : List UInt8) (n2 : Nat → UInt8) : Bool := namecompFrom n2 n1 0

/-- `struct direct`: the inode number and the name. -/
def entryIno (b : Block) (e : Nat) : Nat := word b (16 * e)

def entryName (b : Block) (e : Nat) : Nat → UInt8 := fun j => b (32 * e + 2 + j)

/-! ## The path walk -/

/-- Search the last `n` blocks of a directory. -/
def srchFrom (wd : Nat) (name : List UInt8) (nblocks : Nat) : Nat → K (Option Nat)
  | 0 => return none
  | n + 1 => do
    let s ← get
    let dev := (s.itab wd).dev
    let blk ← bmap wd (nblocks - (n + 1)) true
    match ← bread dev blk with
    | none => return none
    | some b =>
      match (List.range 16).find? (fun e => namecomp name (entryName b e)) with
      | some e => iOpen dev (entryIno b e)
      | none => srchFrom wd name nblocks n

def srchDir (wd : Nat) (name : List UInt8) : K (Option Nat) := do
  let s ← get
  let nblocks := ((s.itab wd).node.size + 511) / 512
  srchFrom wd name nblocks nblocks

/-- The mount on an inode, if there is one. -/
def mountOn (s : Kernel) (ino : Nat) : Option Nat :=
  (List.range NMOUNTS).find? (fun m =>
    (s.fstab m).dev ≠ NO_DEVICE ∧ (s.fstab m).fs.mntpt = some ino)

def srchMt (ino : Nat) : K (Option Nat) := do
  let s ← get
  match mountOn s ino with
  | none => return some ino
  | some m =>
    iDeref ino
    let s ← get
    iOpen (s.fstab m).dev ROOTINODE

/-- The head of the loop of `kn_open`. -/
def enter (ninode : Option Nat) : K (Option Nat) := do
  match ninode with
  | none => return none
  | some n =>
    magic n
    modifyU (fun u => { u with rename := if u.rename = some n then none else u.rename })
    srchMt n

/-- The root of a mounted file system that is not the root of the system. -/
def mountRoot (s : Kernel) (wd : Nat) : Bool :=
  (s.itab wd).num = ROOTINODE ∧ (s.itab wd).dev ≠ s.rootDev

/-- `..` in the root of a mounted file system starts at the mount point. -/
def leaveMount (wd : Nat) : K Nat := do
  let s ← get
  match fsTabGet s (s.itab wd).dev with
  | none => throw .null
  | some m =>
    match (s.fstab m).fs.mntpt with
    | none => throw .null
    | some temp =>
      iRef temp
      iDeref wd
      return temp

/-- Search directory `n`, or the one its file system is mounted on. -/
def lookup (n : Nat) (name : List UInt8) : K (Nat × Option Nat) := do
  let s ← get
  if name = dotdot ∧ mountRoot s n then
    let wd ← leaveMount n
    let found ← srchDir wd name
    return (wd, found)
  else
    let found ← srchDir n name
    return (n, found)

/-- The loop of `kn_open`: the directory searched last and what was found in it,
`none` when a directory cannot be searched. -/
def walk : List (List UInt8) → Nat → Option Nat → K (Option (Nat × Option Nat))
  | [], wd, ninode => do
    let ninode ← enter ninode
    return some (wd, ninode)
  | name :: rest, wd, ninode => do
    match ← enter ninode with
    | none =>
      setError ENOENT
      iDeref wd
      return none
    | some n =>
      iDeref wd
      let s ← get
      if fmt (s.itab n).node.mode ≠ F_DIR then
        setError ENOTDIR
        iDeref n
        return none
      else if maySearch (getperm s n) = false then
        setError EACCES
        iDeref n
        return none
      else if name = dotdot ∧ n = s.u.root then walk rest n (some n)
      else
        let (wd, found) ← lookup n name
        walk rest wd found

def startOf (s : Kernel) (path : List UInt8) : Nat :=
  if path.head? = some slash then s.u.root else s.u.cwd

def knWalk (path : List UInt8) : K (Option (Nat × Option Nat)) := do
  let s ← get
  let wd := startOf s path
  iRef wd
  iRef wd
  walk (components path) wd (some wd)

/-- `kn_open` with a parent: the inode and its parent. -/
def knOpenParent (path : List UInt8) : K (Option Nat × Option Nat) := do
  match ← knWalk path with
  | none => return (none, none)
  | some (wd, ninode) => return (ninode, some wd)

def knOpen (path : List UInt8) : K (Option Nat) := do
  match ← knWalk path with
  | none => return none
  | some (wd, ninode) =>
    iDeref wd
    onlyIf (ninode = none) (setError ENOENT)
    return ninode

/-- The copy of the path goes through a scratch buffer. -/
def nOpenParent (uname : Path) : K (Option Nat × Option Nat) := do
  let _ ← evict
  match uname with
  | none =>
    setError EFAULT
    return (none, none)
  | some path => knOpenParent path

def nOpen (uname : Path) : K (Option Nat) := do
  let _ ← evict
  match uname with
  | none =>
    setError EFAULT
    return none
  | some path => knOpen path

def filenameOf (uname : Path) : K (List UInt8) := do
  let _ ← evict
  match uname with
  | none => return []
  | some path => return filename path

/-! ## Changing a directory -/

/-- A directory entry in memory. -/
def direct (name : List UInt8) (ino : Nat) : List UInt8 :=
  UInt8.ofNat ino :: UInt8.ofNat (ino / 256) ::
    (name ++ List.replicate FILENAME_LEN 0).take FILENAME_LEN

def directName (entry : List UInt8) : Nat → UInt8 := fun j => entry.getD (2 + j) 0

/-- Read entries until the end or the name is found. A failed read leaves the
entry as it was. -/
def findEntry (wd : Nat) (oldname : List UInt8) : Nat → List UInt8 → K Unit
  | 0, _ => throw .hang
  | rounds + 1, entry => do
    modifyU (fun u => { u with count := DIR_LEN })
    match ← readi wd false with
    | .sleep => throw .hang
    | .done data =>
      let entry := data ++ entry.drop data.length
      let s ← get
      if s.u.count = 0 ∨ namecomp oldname (directName entry) then pure ()
      else findEntry wd oldname rounds entry

def padSize (wd : Nat) : K Unit :=
  modifyNode wd (fun d => { d with
    size := if d.size % BLKSIZE = 0 then d.size else d.size + (BLKSIZE - d.size % BLKSIZE) })

/-- Write the entry at the place `findEntry` found. -/
def putEntry (wd : Nat) (newname : List UInt8) (nindex : Option Nat) : K Bool := do
  modifyU (fun u => { u with
    offset := if u.count ≠ 0 then u.offset - DIR_LEN else u.offset })
  modifyU (fun u => { u with count := DIR_LEN })
  let s ← get
  let ino := match nindex with
    | none => 0
    | some i => (s.itab i).num
  match ← writei wd Access.kernel (direct newname ino) with
  | .sleep => throw .hang
  | .done _ =>
    let s ← get
    if s.u.error ≠ 0 then return false
    else
      setftime wd Times.all
      padSize wd
      return true

def chLink (wd : Nat) (oldname newname : List UInt8) (nindex : Option Nat) : K Bool := do
  let s ← get
  if (s.itab wd).rdonly then
    setError EROFS
    return false
  else if mayWrite (getperm s wd) = false then
    setError EACCES
    return false
  else if newname = [] ∧ nindex ≠ none then
    setError EEXIST
    return false
  else
    modifyU (fun u => { u with offset := 0 })
    let rounds := (s.itab wd).node.size / DIR_LEN + 2 + s.patience
    findEntry wd oldname rounds (bytes (s.io s.xfers).junk 0 DIR_LEN)
    let s ← get
    if s.u.count = 0 ∧ oldname ≠ [] then
      setError ENOENT
      return false
    else putEntry wd newname nindex

/-- An empty inode of the caller, with one link. -/
def initInode (u : Udata) (d : Dinode) : Dinode :=
  { d with
    uid := u.euid
    gid := u.egid
    mode := F_REG
    nlink := 1
    size := 0
    addr := fun _ => 0 }

/-- The parent is dereferenced on every path. -/
def newfile (pino : Nat) (name : List UInt8) : K (Option Nat) := do
  let s ← get
  if (s.itab pino).rdonly then
    setError EROFS
    iDeref pino
    return none
  else if mayWrite (getperm s pino) = false then
    setError EPERM
    iDeref pino
    return none
  else
    match ← iOpen (s.itab pino).dev 0 with
    | none =>
      setError ENFILE
      iDeref pino
      return none
    | some nindex =>
      modifyNode nindex (initInode s.u)
      wrInode nindex
      if ← chLink pino [] name (some nindex) then
        iDeref pino
        return some nindex
      else
        iDeref nindex
        iDeref pino
        return none

/-- True when the inode was not unlinked. -/
def unlinki (ino pino : Nat) (fname : List UInt8) : K Bool := do
  let s ← get
  if fmt (s.itab ino).node.mode = F_DIR then
    setError EISDIR
    return true
  else if ← chLink pino fname [] none then
    modifyNode ino (fun d => { d with nlink := if d.nlink = 0 then 1 else d.nlink - 1 })
    setftime ino ⟨false, false, true⟩
    return false
  else return true

end Fuzix
