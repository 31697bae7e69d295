import Fuzix.Lib.Table
import Fuzix.Lib.Run

/-!
# Who may set ids

The calls that create files and change modes, owners and ids, as in syscall_fs2.c,
syscall_fs3.c, syscall_other.c, syscall_proc.c and syscall_exec16.c. The inodes of all
mounted devices are one table, with the entries of the directories by name. What the
disk, the inode table and the loader do is given from outside. Who last set the set-uid bit
of a file is recorded as history.
-/

namespace Setid

open Table Run

def OTH_EX : UInt16 := 0o1
def OTH_WR : UInt16 := 0o2
def OTH_RD : UInt16 := 0o4
/-- `OWN_EX | OTH_EX | GRP_EX` -/
def ANY_EX : UInt16 := 0o111
def SET_GID : UInt16 := 0o2000
def SET_UID : UInt16 := 0o4000
def MODE_MASK : UInt16 := 0o7777
def F_REG : UInt16 := 0o100000
def F_DIR : UInt16 := 0o40000
def F_PIPE : UInt16 := 0o10000
def F_CDEV : UInt16 := 0o20000
def F_MASK : UInt16 := 0o170000
def UFTSIZE : Nat := 10

inductive Errno where
  | EPERM | ENOENT | EACCES | EEXIST | EXDEV | ENOTDIR | EISDIR | EINVAL | ENFILE | EMFILE
  | ENOSPC | EROFS | EMLINK | EFAULT | EBADF | ENOEXEC | ENOMEM | ENODEV
deriving DecidableEq

/-- The effective id that set the bit, and the owner of the file at that time. -/
structure Setter where
  euid : UInt16
  owner : UInt16
deriving DecidableEq

structure Inode where
  i_mode : UInt16
  i_nlink : UInt16
  i_uid : UInt16
  i_gid : UInt16
  c_dev : Nat
  /-- The references of the open files. -/
  c_refs : Nat
  /-- `CRDONLY` in `c_flags` -/
  rdonly : Bool
  entries : String → Option Nat
  setter : Option Setter

structure Proc where
  p_uid : UInt16
  u_gid : UInt16
  u_euid : UInt16
  u_egid : UInt16
  /-- Without `CONFIG_LEVEL_2` there are none. -/
  u_groups : List UInt16
  u_mask : UInt16
  u_root : Nat
  u_cwd : Nat
  u_files : Nat → Option Nat

structure System where
  inode : Nat → Inode
  proc : Nat → Proc
  srch_mt : Nat → Nat
  /-- The mount point of the root of a mounted device. -/
  s_mntpt : Nat → Option Nat

def Inode.is (ino : Inode) (type : UInt16) : Bool := ino.i_mode &&& F_MASK = type

/-- Both kinds of devices have this bit, and only they. -/
def Inode.isdevice (ino : Inode) : Bool := ino.i_mode &&& F_CDEV ≠ 0

/-- A store into `i_mode` by a process. -/
def Inode.setMode (ino : Inode) (euid mode : UInt16) : Inode :=
  { ino with i_mode := mode, setter := if mode &&& SET_UID = 0 then none else some ⟨euid, ino.i_uid⟩ }

def Inode.refs (ino : Inode) (c_refs : Nat) : Inode := { ino with c_refs := c_refs }

def Proc.setFile (u : Proc) (fd : Nat) (i : Option Nat) : Proc := { u with u_files := put u.u_files fd i }

def System.setInode (s : System) (i : Nat) (ino : Inode) : System := { s with inode := put s.inode i ino }

def System.setProc (s : System) (p : Nat) (u : Proc) : System := { s with proc := put s.proc p u }

@[simp] theorem System.setInode_same (s : System) (i : Nat) (ino : Inode) : (s.setInode i ino).inode i = ino :=
  put_same s.inode i ino

@[simp] theorem System.setInode_ne (s : System) {i j : Nat} (ino : Inode) (other : j ≠ i) :
    (s.setInode i ino).inode j = s.inode j := put_ne s.inode ino other

@[simp] theorem System.setProc_same (s : System) (p : Nat) (u : Proc) : (s.setProc p u).proc p = u :=
  put_same s.proc p u

@[simp] theorem System.setProc_ne (s : System) {p q : Nat} (u : Proc) (other : q ≠ p) :
    (s.setProc p u).proc q = s.proc q := put_ne s.proc u other

/-! ## Permissions -/

def super (u : Proc) : Bool := u.u_euid = 0

def in_group (u : Proc) (gid : UInt16) : Bool := gid ∈ u.u_groups

def getperm (u : Proc) (ino : Inode) : UInt16 :=
  if super u then 7
  else if ino.i_uid = u.u_euid then (ino.i_mode >>> 6) &&& 7
  else if ino.i_gid = u.u_egid ∨ in_group u ino.i_gid then (ino.i_mode >>> 3) &&& 7
  else ino.i_mode &&& 7

/-! ## Path names -/

structure Path where
  absolute : Bool
  names : List String

def filename (path : Path) : String := path.names.getLast?.getD ""

/-- What `n_open` finds, the error it leaves, and the inodes it walked, for `u_rename`. -/
structure Found where
  ino : Option Nat
  parent : Option Nat
  u_error : Errno
  walked : List Nat

/-- The walk in `kn_open`. -/
def walk (s : System) (u : Proc) (wd : Nat) (ninode : Option Nat) (walked : List Nat) : List String → Found
  | [] => ⟨ninode.map s.srch_mt, some wd, .ENOENT, ninode.toList ++ walked⟩
  | name :: rest =>
    match ninode.map s.srch_mt with
    | none => ⟨none, none, .ENOENT, walked⟩
    | some d =>
      if !(s.inode d).is F_DIR then ⟨none, none, .ENOTDIR, ninode.toList ++ walked⟩
      else if getperm u (s.inode d) &&& OTH_EX = 0 then ⟨none, none, .EACCES, ninode.toList ++ walked⟩
      else if name = ".." ∧ d = u.u_root then walk s u d (some d) (ninode.toList ++ walked) rest
      else
        -- Going up from the root of a mounted device goes on at its mount point.
        let wd := if name = ".." then (s.s_mntpt d).getD d else d
        walk s u wd ((s.inode wd).entries name) (ninode.toList ++ walked) rest

/-- A path that cannot be read is `none`. -/
def n_open (s : System) (u : Proc) : Option Path → Found
  | none => ⟨none, none, .EFAULT, []⟩
  | some path =>
    let wd := if path.absolute then u.u_root else u.u_cwd
    walk s u wd (some wd) [] path.names

def getinode (u : Proc) (fd : Nat) : Option Nat := if UFTSIZE ≤ fd then none else u.u_files fd

/-! ## Entries and inodes -/

/-- An empty name is a free entry. `room` is whether the entry can be written. -/
def ch_link (s : System) (u : Proc) (room : Bool) (wd : Nat) (oldname newname : String) (nindex : Option Nat) :
    System × Option Errno :=
  if (s.inode wd).rdonly then (s, some .EROFS)
  else if getperm u (s.inode wd) &&& OTH_WR = 0 then (s, some .EACCES)
  else if newname = "" ∧ nindex.isSome then (s, some .EEXIST)
  else if oldname ≠ "" ∧ (s.inode wd).entries oldname = none then (s, some .ENOENT)
  else if !room then (s, some .ENOSPC)
  else
    let entries := if oldname = "" then (s.inode wd).entries else put (s.inode wd).entries oldname none
    (s.setInode wd { s.inode wd with
      entries := if newname = "" then entries else put entries newname nindex }, none)

/-- What is not up to the calls: the inode that `i_alloc` finds, whether each entry can be
written, whether there is an open file entry, what opening a device gives, and whether the inode
counts as changed when its last reference goes. -/
structure Outside where
  fresh : Option Nat
  oft : Bool
  room : Bool
  room₂ : Bool
  room₃ : Bool
  dev_openi : Option Errno
  dirty : Bool

def newfile (s : System) (u : Proc) (out : Outside) (pino : Nat) (name : String) : System × Except Errno Nat :=
  if (s.inode pino).rdonly then (s, .error .EROFS)
  else if getperm u (s.inode pino) &&& OTH_WR = 0 then (s, .error .EPERM)
  else match out.fresh with
    | none => (s, .error .ENFILE)
    | some i =>
      -- `i_open` takes a new inode of this device only if it is unused.
      if (s.inode i).i_nlink ≠ 0 ∨ (s.inode i).i_mode &&& F_MASK ≠ 0 ∨
          (s.inode i).c_dev ≠ (s.inode pino).c_dev then (s, .error .ENFILE)
      else
        let ino := { s.inode i with i_uid := u.u_euid, i_gid := u.u_egid, i_nlink := 1, entries := fun _ => none }
        match ch_link (s.setInode i (ino.setMode u.u_euid F_REG)) u out.room pino "" name (some i) with
        | (t, some e) => (t, .error e)
        | (t, none) => (t, .ok i)

/-- The end of an inode with no links and no references. -/
def i_deref (s : System) (dirty : Bool) (i : Nat) : System :=
  if (s.inode i).c_refs = 0 ∧ (s.inode i).i_nlink = 0 ∧ dirty then
    s.setInode i { s.inode i with i_mode := 0, setter := none }
  else s

def unlinki (s : System) (u : Proc) (room : Bool) (ino pino : Nat) (fname : String) : System × Option Errno :=
  if (s.inode ino).is F_DIR then (s, some .EISDIR)
  else match ch_link s u room pino fname "" none with
    | (t, some e) => (t, some e)
    | (t, none) =>
      (t.setInode ino { t.inode ino with
        i_nlink := if (t.inode ino).i_nlink = 0 then 1 else (t.inode ino).i_nlink - 1 }, none)

/-! ## Calls -/

section Calls

variable (s : System) (p : Nat)

/-- A call without `O_CREAT` finds an inode or fails; one with it makes a file. -/
def openInode (path : Option Path) (creat excl : Bool) (mode : UInt16) (out : Outside) :
    System × Except Errno Nat :=
  let found := n_open s (s.proc p) path
  match found.ino, found.parent, path with
  | some i, _, _ => if creat ∧ excl then (s, .error .EEXIST) else (s, .ok i)
  | none, some parent, some path =>
    if !creat then (s, .error .ENOENT)
    else match newfile s (s.proc p) out parent (filename path) with
      | (t, .error e) => (t, .error e)
      | (t, .ok i) =>
        (t.setInode i ((t.inode i).setMode (s.proc p).u_euid
          (F_REG ||| mode &&& MODE_MASK &&& ~~~(s.proc p).u_mask)), .ok i)
  | none, _, _ => (s, .error found.u_error)

/-- The tests on the inode that was found or made: `r` and `w` are how it is opened. -/
def openDenied (ino : Inode) (r w : Bool) (out : Outside) : Option Errno :=
  let perm := getperm (s.proc p) ino
  if (r ∧ perm &&& OTH_RD = 0) ∨ (w ∧ perm &&& OTH_WR = 0) then some .EACCES
  else if w ∧ ino.is F_DIR then some .EISDIR
  else if w ∧ !ino.isdevice ∧ ino.rdonly then some .EROFS
  else if ino.isdevice then out.dev_openi
  else none

/-- `open`, which is `creat` with `w`, `creat` and truncation. -/
def open' (path : Option Path) (r w creat excl : Bool) (mode : UInt16) (out : Outside) :
    System × Except Errno Nat :=
  if !r ∧ !w then (s, .error .EINVAL)
  else match (List.range UFTSIZE).find? (fun fd => (s.proc p).u_files fd = none) with
  | none => (s, .error .EMFILE)
  | some uindex =>
    if !out.oft then (s, .error .ENFILE)
    else match openInode s p path creat excl mode out with
      | (t, .error e) => (t, .error e)
      | (t, .ok i) =>
        match openDenied t p (t.inode i) r w out with
        | some e => (t, .error e)
        | none =>
          let t := t.setInode i ((t.inode i).refs ((t.inode i).c_refs + 1))
          (t.setProc p ((t.proc p).setFile uindex (some i)), .ok uindex)

def close (fd : Nat) (out : Outside) : System × Except Errno Nat :=
  match getinode (s.proc p) fd with
  | none => (s, .error .EBADF)
  | some i =>
    let t := s.setProc p ((s.proc p).setFile fd none)
    let t := t.setInode i ((t.inode i).refs ((t.inode i).c_refs - 1))
    (i_deref t out.dirty i, .ok 0)

def mknod (path : Option Path) (mode : UInt16) (out : Outside) : System × Except Errno Nat :=
  if !super (s.proc p) ∧ mode &&& F_MASK ≠ F_PIPE then (s, .error .EPERM)
  else
    let found := n_open s (s.proc p) path
    match found.ino, found.parent, path with
    | some _, _, _ => (s, .error .EEXIST)
    | none, some parent, some path =>
      match newfile s (s.proc p) out parent (filename path) with
      | (t, .error e) => (t, .error e)
      | (t, .ok i) =>
        (t.setInode i ((t.inode i).setMode (s.proc p).u_euid (mode &&& ~~~(s.proc p).u_mask)), .ok 0)
    | none, _, _ => (s, .error .ENOENT)

/-- `access`, which puts the real ids in the place of the effective ones for the time of
the walk and the test. -/
def access (path : Option Path) (mode : UInt16) : System × Except Errno Nat :=
  if mode &&& 7 ≠ 0 ∧ path.any (fun path => !path.absolute && path.names.isEmpty) then (s, .error .ENOENT)
  else
    let euid := (s.proc p).u_euid
    let egid := (s.proc p).u_egid
    let t := s.setProc p { s.proc p with u_euid := (s.proc p).p_uid, u_egid := (s.proc p).u_gid }
    let found := n_open t (t.proc p) path
    let retval : Except Errno Nat :=
      match found.ino with
      | none => .error found.u_error
      | some i => if ~~~getperm (t.proc p) (t.inode i) &&& (mode &&& 7) ≠ 0 then .error .EACCES else .ok 0
    (t.setProc p { t.proc p with u_euid := euid, u_egid := egid }, retval)

def chmod_op (mode : UInt16) (i : Nat) : System × Except Errno Nat :=
  if (s.inode i).i_uid ≠ (s.proc p).u_euid ∧ !super (s.proc p) then (s, .error .EPERM)
  else if (s.inode i).rdonly then (s, .error .EROFS)
  else
    (s.setInode i ((s.inode i).setMode (s.proc p).u_euid
      (mode &&& MODE_MASK ||| (s.inode i).i_mode &&& F_MASK)), .ok 0)

/-- The call on the inode that a path names. -/
def onPath (path : Option Path) (op : Nat → System × Except Errno Nat) : System × Except Errno Nat :=
  let found := n_open s (s.proc p) path
  match found.ino with
  | none => (s, .error found.u_error)
  | some i => op i

/-- The call on the inode of an open file. -/
def onFile (fd : Nat) (op : Nat → System × Except Errno Nat) : System × Except Errno Nat :=
  match getinode (s.proc p) fd with
  | none => (s, .error .EBADF)
  | some i => op i

def chmod (path : Option Path) (mode : UInt16) : System × Except Errno Nat := onPath s p path (chmod_op s p mode)

def fchmod (fd : Nat) (mode : UInt16) : System × Except Errno Nat := onFile s p fd (chmod_op s p mode)

/-- The test at the start of `chown_op`. -/
def chown_denied (group : UInt16) (i : Nat) : Bool :=
  ((s.inode i).i_uid ≠ (s.proc p).u_euid ∨ (group ≠ (s.proc p).u_gid ∧ !in_group (s.proc p) group)) ∧
    !super (s.proc p)

def chown_op (owner group : UInt16) (i : Nat) : System × Except Errno Nat :=
  if chown_denied s p group i then (s, .error .EPERM)
  else if (s.inode i).rdonly then (s, .error .EROFS)
  else (s.setInode i { s.inode i with i_uid := owner, i_gid := group }, .ok 0)

def chown (path : Option Path) (owner group : UInt16) : System × Except Errno Nat :=
  onPath s p path (chown_op s p owner group)

def fchown (fd : Nat) (owner group : UInt16) : System × Except Errno Nat :=
  onFile s p fd (chown_op s p owner group)

def link (name1 name2 : Option Path) (out : Outside) : System × Except Errno Nat :=
  onPath s p name1 fun i =>
    if (s.inode i).is F_DIR ∧ !super (s.proc p) then (s, .error .EPERM)
    else if (s.inode i).i_nlink = 0xFFFF then (s, .error .EMLINK)
    else
      let found := n_open s (s.proc p) name2
      match found.ino, found.parent, name2 with
      | some _, _, _ => (s, .error .EEXIST)
      | none, some parent2, some path =>
        if (s.inode i).c_dev ≠ (s.inode parent2).c_dev then (s, .error .EXDEV)
        else match ch_link s (s.proc p) out.room parent2 "" (filename path) (some i) with
          | (t, some e) => (t, .error e)
          | (t, none) => (t.setInode i { t.inode i with i_nlink := (t.inode i).i_nlink + 1 }, .ok 0)
      | none, _, _ => (s, .error found.u_error)

def unlink (path : Option Path) (out : Outside) : System × Except Errno Nat :=
  let found := n_open s (s.proc p) path
  match found.ino, found.parent, path with
  | some i, some pino, some path =>
    match unlinki s (s.proc p) out.room i pino (filename path) with
    | (t, some e) => (i_deref t out.dirty i, .error e)
    | (t, none) => (i_deref t out.dirty i, .ok 0)
  | _, _, _ => (s, .error .ENOENT)

/-- The new entry of `rename`, and then the end of the old one. -/
def renameLinks (out : Outside) (srci srcp dstp : Nat) (src dst : String) : System × Except Errno Nat :=
  match ch_link s (s.proc p) out.room dstp "" dst (some srci) with
  | (t, some e) => (t, .error e)
  | (t, none) =>
    match ch_link t (s.proc p) out.room₂ srcp src "" none with
    | (t, some e) => (t, .error e)
    | (t, none) => (t, .ok 0)

def rename (src dst : Option Path) (out : Outside) : System × Except Errno Nat :=
  let found := n_open s (s.proc p) src
  match found.ino, found.parent, src, dst with
  | none, _, _, _ => (s, .error found.u_error)
  | some srci, some srcp, some src, some dst =>
    let into := n_open s (s.proc p) (some dst)
    if into.ino = some srci then (s, .ok 0)
    else match into.parent with
      | none => (s, .error into.u_error)
      | some dstp =>
        if (s.inode srci).c_dev ≠ (s.inode dstp).c_dev then (s, .error .EXDEV)
        else if (s.inode srci).is F_DIR then (s, .error .EISDIR)
        else if srci ∈ into.walked then (s, .error .EINVAL)
        else if getperm (s.proc p) (s.inode srcp) &&& OTH_WR = 0 ∧ !super (s.proc p) then (s, .error .EACCES)
        else match into.ino with
          | none => renameLinks s p out srci srcp dstp (filename src) (filename dst)
          | some dsti =>
            match unlinki s (s.proc p) out.room₃ dsti dstp (filename dst) with
            | (t, some e) => (t, .error e)
            | (t, none) =>
              renameLinks (i_deref t out.dirty dsti) p out srci srcp dstp (filename src) (filename dst)
  | some _, _, _, _ => (s, .error .EFAULT)

def setuid (uid : UInt16) : System × Except Errno Nat :=
  if super (s.proc p) ∨ (s.proc p).p_uid = uid then
    (s.setProc p { s.proc p with p_uid := uid, u_euid := uid }, .ok 0)
  else (s, .error .EPERM)

def setgid (gid : UInt16) : System × Except Errno Nat :=
  if super (s.proc p) ∨ (s.proc p).u_gid = gid then
    (s.setProc p { s.proc p with u_gid := gid, u_egid := gid }, .ok 0)
  else (s, .error .EPERM)

def umask (mask : UInt16) : System × Except Errno Nat :=
  (s.setProc p { s.proc p with u_mask := mask &&& 0o777 }, .ok (s.proc p).u_mask.toNat)

/-- How the loading of a program goes: an error before the ids are set, one after it, which kills
the process, or none. -/
inductive Load where
  | refused (e : Errno)
  | killed
  | loaded
deriving DecidableEq

def exec_denied (i : Nat) : Bool :=
  getperm (s.proc p) (s.inode i) &&& OTH_EX = 0 ∨ (s.inode i).i_mode &&& F_REG = 0 ∨
    (s.inode i).i_mode &&& ANY_EX = 0

/-- The ids of a process that runs the file `i`. -/
def exec_ids (i : Nat) : Proc :=
  { s.proc p with
    u_euid := if (s.inode i).i_mode &&& SET_UID = 0 then (s.proc p).u_euid else (s.inode i).i_uid
    u_egid := if (s.inode i).i_mode &&& SET_GID = 0 then (s.proc p).u_egid else (s.inode i).i_gid }

def execve (path : Option Path) (load : Load) : System × Except Errno Nat :=
  onPath s p path fun i =>
    if exec_denied s p i then (s, .error .EACCES)
    else match load with
      | .refused e => (s, .error e)
      | .killed => (s.setProc p (exec_ids s p i), .error .ENOEXEC)
      | .loaded => (s.setProc p (exec_ids s p i), .ok 0)

end Calls

inductive Action where
  | creat (p : Nat) (path : Option Path) (r w make excl : Bool) (mode : UInt16) (out : Outside)
  | close (p fd : Nat) (out : Outside)
  | mknod (p : Nat) (path : Option Path) (mode : UInt16) (out : Outside)
  | access (p : Nat) (path : Option Path) (mode : UInt16)
  | chmod (p : Nat) (path : Option Path) (mode : UInt16)
  | fchmod (p fd : Nat) (mode : UInt16)
  | chown (p : Nat) (path : Option Path) (owner group : UInt16)
  | fchown (p fd : Nat) (owner group : UInt16)
  | link (p : Nat) (name1 name2 : Option Path) (out : Outside)
  | unlink (p : Nat) (path : Option Path) (out : Outside)
  | rename (p : Nat) (src dst : Option Path) (out : Outside)
  | setuid (p : Nat) (uid : UInt16)
  | setgid (p : Nat) (gid : UInt16)
  | umask (p : Nat) (mask : UInt16)
  | execve (p : Nat) (path : Option Path) (load : Load)

def Action.apply (s : System) : Action → System × Except Errno Nat
  | .creat p path r w make excl mode out => open' s p path r w make excl mode out
  | .close p fd out => Setid.close s p fd out
  | .mknod p path mode out => Setid.mknod s p path mode out
  | .access p path mode => Setid.access s p path mode
  | .chmod p path mode => Setid.chmod s p path mode
  | .fchmod p fd mode => Setid.fchmod s p fd mode
  | .chown p path owner group => Setid.chown s p path owner group
  | .fchown p fd owner group => Setid.fchown s p fd owner group
  | .link p name1 name2 out => Setid.link s p name1 name2 out
  | .unlink p path out => Setid.unlink s p path out
  | .rename p src dst out => Setid.rename s p src dst out
  | .setuid p uid => Setid.setuid s p uid
  | .setgid p gid => Setid.setgid s p gid
  | .umask p mask => Setid.umask s p mask
  | .execve p path load => Setid.execve s p path load

end Setid
