import Fuzix.Kernel
import Fuzix.Lib.Holding

/-!
# Advisory locks

`_flock` keeps the lock of an inode in four bits of `c_flags` and marks the entries
of the open file table that hold it with `O_FLOCK` in `o_access`. The model has every
path that reads or writes either of them: open and its failures, dup, fork, close,
exit and `_flock` itself. What `n_open` and `d_open` come to is an input, and so are
the references to inodes that the rest of the kernel takes and drops.
-/

namespace Flock

open Table Holding
open Fuzix (Build Access ITABSIZE OFTSIZE UFTSIZE PTABSIZE NO_FILE O_ACCMODE EINVAL EBADF
  EMFILE ENFILE EEXIST EAGAIN EINTR)

/-- `staticfast` is `static` on processors with slow stack frames. -/
class Cpu extends Build where
  staticfast : Bool

def LOCK_SH : Nat := 0
def LOCK_EX : Nat := 1
def LOCK_UN : Nat := 2
def LOCK_NB : Nat := 16
def CFLEX : Nat := 15
def CFMAX : Nat := 14
def ENOLCK : Nat := 35

/-! ## State -/

structure Cinode where
  refs : Nat
  dirty : Bool
  rdonly : Bool
  flock : Nat

structure Oft where
  refs : Nat
  inode : Option Nat
  access : Access

/-- Where a process sleeps: in `d_open` with an entry it has booked, or in `_flock`
with its local variables. -/
inductive Call where
  | user
  | opening (uindex oftindex flag : Nat)
  | flock (ino o lockop lock self : Nat)
deriving DecidableEq

structure Proc where
  live : Bool
  files : Nat → Nat
  call : Call
  error : Nat
  answer : Option Nat

/-- `lock` and `self` are the static variables of `_flock`. `told` is not in the
kernel: it is the lock that the callers of `_flock` were last told an entry has. -/
structure State where
  itab : Nat → Cinode
  oftab : Nat → Oft
  ptab : Nat → Proc
  lock : Nat
  self : Nat
  told : Nat → Option Kind
  panicked : Bool

def State.panic (s : State) : State := { s with panicked := true }

def modifyInode (s : State) (i : Nat) (f : Cinode → Cinode) : State :=
  { s with itab := put s.itab i (f (s.itab i)) }

def modifyOft (s : State) (k : Nat) (f : Oft → Oft) : State :=
  { s with oftab := put s.oftab k (f (s.oftab k)) }

def modifyProc (s : State) (p : Nat) (f : Proc → Proc) : State :=
  { s with ptab := put s.ptab p (f (s.ptab p)) }

def setFile (s : State) (p fd k : Nat) : State :=
  modifyProc s p (fun q => { q with files := put q.files fd k })

def setCall (s : State) (p : Nat) (c : Call) : State :=
  modifyProc s p (fun q => { q with call := c })

def setTold (s : State) (k : Nat) (v : Option Kind) : State :=
  { s with told := put s.told k v }

/-- A system call returns -1 with an error number. -/
def fail (s : State) (p e : Nat) : State :=
  modifyProc s p (fun q => { q with error := e, answer := none })

def reply (s : State) (p v : Nat) : State :=
  modifyProc s p (fun q => { q with answer := some v })

section Calls
variable [Cpu]

/-! ## The open file table -/

inductive Look where
  | bad
  | broken
  | inode (i : Nat)

/-- The descriptor is a byte. `broken` is the panic. -/
def getinode (s : State) (p uindex : Nat) : Look :=
  let k := (s.ptab p).files uindex
  if UFTSIZE ≤ uindex ∨ k = NO_FILE then .bad
  else if OFTSIZE ≤ k then .broken
  else
    match (s.oftab k).inode with
    | none => .broken
    | some i => if ITABSIZE ≤ i then .broken else .inode i

def ufAlloc (files : Nat → Nat) : Option Nat :=
  (List.range UFTSIZE).find? (fun j => files j = NO_FILE)

/-- The entry that `oft_alloc` takes. -/
def freeEntry (s : State) : Option Nat :=
  (List.range OFTSIZE).find? (fun k => (s.oftab k).refs = 0)

/-- `o_access` is left as the last user of the entry had it. -/
def takeEntry (s : State) (k : Nat) : State :=
  modifyOft s k (fun o => { o with refs := 1, inode := none })

/-- The count is decremented in 8 bits and stored over the flags. -/
def Cinode.lower (c : Cinode) : Cinode :=
  if c.flock = CFLEX then { c with flock := 0 }
  else if c.flock = 0 then { c with flock := 15, dirty := true, rdonly := true }
  else { c with flock := c.flock - 1 }

def deflock (s : State) (k : Nat) : State :=
  match (s.oftab k).inode with
  | none => s.panic
  | some i => if (s.oftab k).access.flock then modifyInode s i Cinode.lower else s

def iRef (s : State) (i : Nat) : State :=
  modifyInode s i (fun c => { c with refs := (c.refs + 1) % 256 })

def iDeref (s : State) (i : Nat) : State :=
  if (s.itab i).refs = 0 then s.panic
  else modifyInode s i (fun c => { c with refs := c.refs - 1 })

/-- An inode that is read from disk goes into a slot nobody refers to. -/
def iOpen (s : State) (i : Nat) (fresh rdonly : Bool) : State :=
  if fresh then
    modifyInode s i (fun _ => { refs := 1, dirty := false, rdonly := rdonly, flock := 0 })
  else iRef s i

def oftDeref (s : State) (k : Nat) : State :=
  let refs := ((s.oftab k).refs + 255) % 256
  let s := modifyOft s k (fun o => { o with refs := refs })
  match (s.oftab k).inode with
  | none => s
  | some i =>
    if refs = 0 then
      let s := iDeref (deflock s k) i
      setTold (modifyOft s k (fun o => { o with inode := none })) k none
    else s

def doclose (s : State) (p uindex : Nat) : State :=
  match getinode s p uindex with
  | .bad => fail s p EBADF
  | .broken => s.panic
  | .inode _ =>
    let k := (s.ptab p).files uindex
    reply (oftDeref (setFile s p uindex NO_FILE) k) p 0

/-- One more descriptor of an entry. -/
def share (s : State) (p newd k : Nat) : State :=
  modifyOft (setFile s p newd k) k (fun o => { o with refs := (o.refs + 1) % 256 })

/-- The argument is cut to a byte for `getinode` only. -/
def dup (s : State) (p oldd : Nat) : State :=
  match getinode s p (oldd % 256) with
  | .bad => fail s p EBADF
  | .broken => s.panic
  | .inode _ =>
    match ufAlloc (s.ptab p).files with
    | none => fail s p EMFILE
    | some newd => reply (share s p newd ((s.ptab p).files oldd)) p newd

def dup2 (s : State) (p oldd newd : Nat) : State :=
  match getinode s p (oldd % 256) with
  | .bad => fail s p EBADF
  | .broken => s.panic
  | .inode _ =>
    if UFTSIZE ≤ newd then fail s p EBADF
    else
      let s := if (s.ptab p).files newd ≠ NO_FILE then doclose s p newd else s
      reply (share s p newd ((s.ptab p).files oldd)) p 0

/-- The loop of `newproc` over the descriptors. -/
def bump (files : Nat → Nat) : Nat → State → State
  | 0, s => s
  | j + 1, s =>
    let s := bump files j s
    if files j ≠ NO_FILE then
      modifyOft s (files j) (fun o => { o with refs := (o.refs + 1) % 256 })
    else s

def fork (s : State) (p child : Nat) : State :=
  let s := bump (s.ptab p).files UFTSIZE s
  let s := modifyProc s child (fun _ =>
    { s.ptab p with live := true, call := .user, error := 0, answer := some 0 })
  reply s p child

/-- The loop of `doexit` over the descriptors. -/
def closeAll (p : Nat) : Nat → State → State
  | 0, s => s
  | j + 1, s =>
    let s := closeAll p j s
    if (s.ptab p).files j ≠ NO_FILE then doclose s p j else s

def doexit (s : State) (p : Nat) : State :=
  modifyProc (closeAll p UFTSIZE (setCall s p .user)) p (fun q => { q with live := false })

/-! ## Open -/

/-- What the checks of `_open` and `dev_openi` make of the inode that was found. A
device is opened by `d_open`, which may sleep; `/dev/tty` stands for another inode. -/
inductive Check where
  | refused (e : Nat)
  | plain
  | device
  | tty (ctty : Nat)
deriving DecidableEq

/-- What `n_open` and `newfile` come to. -/
inductive Walk where
  | missing (e : Nat)
  | found (i : Nat) (fresh rdonly made : Bool) (check : Check)
deriving DecidableEq

/-- `O_ACCMODE(flag) == 3 || (flag & O_BADBITS)` -/
def badFlag (flag : Nat) : Prop :=
  O_ACCMODE flag = 3 ∨ flag / 64 % 4 ≠ 0 ∨ flag / 8192 ≠ 0

instance (flag : Nat) : Decidable (badFlag flag) := by unfold badFlag; infer_instance

/-- `O_CREAT` and `O_EXCL` -/
def exclusiveFlag (flag : Nat) : Prop := flag / 256 % 4 = 3

instance (flag : Nat) : Decidable (exclusiveFlag flag) := by
  unfold exclusiveFlag; infer_instance

/-- The descriptor and the entry that an `open` books. -/
def booking (s : State) (p flag : Nat) : Except Nat (Nat × Nat) :=
  if badFlag flag then .error EINVAL
  else
    match ufAlloc (s.ptab p).files with
    | none => .error EMFILE
    | some uindex =>
      match freeEntry s with
      | none => .error ENFILE
      | some k => .ok (uindex, k)

def cantopen (s : State) (p uindex k e : Nat) : State :=
  fail (setFile (oftDeref s k) p uindex NO_FILE) p e

def openDone (s : State) (p uindex k flag : Nat) : State :=
  let s := setFile s p uindex k
  reply (modifyOft s k (fun o => { o with access := Access.ofFlag flag })) p uindex

def setEntry (s : State) (k i : Nat) : State :=
  modifyOft s k (fun o => { o with inode := some i })

/-- The entry is booked. -/
def openFound (s : State) (p uindex k flag i : Nat) : Check → State
  | .refused e => cantopen (setEntry s k i) p uindex k e
  | .plain => openDone (setEntry s k i) p uindex k flag
  | .device => setCall (setEntry s k i) p (.opening uindex k flag)
  | .tty ctty =>
    let s := iRef (setEntry (iDeref (setEntry s k i) i) k ctty) ctty
    setCall s p (.opening uindex k flag)

def open' (s : State) (p flag : Nat) (walk : Walk) : State :=
  match booking s p flag with
  | .error e => fail s p e
  | .ok (uindex, k) =>
    let s := takeEntry s k
    match walk with
    | .missing e => cantopen s p uindex k e
    | .found i fresh rdonly made check =>
      let s := iOpen s i fresh rdonly
      if exclusiveFlag flag ∧ made = false then
        cantopen (iDeref s i) p uindex k EEXIST
      else openFound s p uindex k flag i check

/-- How `d_open` returns. An inode that is then to be truncated may refuse that. -/
inductive Opened where
  | failed (e : Nat)
  | truncFailed (e : Nat)
  | done
deriving DecidableEq

def openReturns (s : State) (p : Nat) (out : Opened) : State :=
  match (s.ptab p).call with
  | .opening uindex k flag =>
    let s := setCall s p .user
    match out with
    | .failed e => cantopen s p uindex k e
    | .truncFailed e =>
      match (s.oftab k).inode with
      | none => s.panic
      | some i => cantopen (iDeref s i) p uindex k e
    | .done => openDone s p uindex k flag
  | _ => s

/-! ## `_flock` -/

/-- `lockop & ~LOCK_NB` in 8 bits -/
def lockOf (lockop : Nat) : Nat := lockop % 16 + lockop / 32 % 8 * 32

def nonBlocking (lockop : Nat) : Prop := lockop / 16 % 2 = 1

instance (lockop : Nat) : Decidable (nonBlocking lockop) := by
  unfold nonBlocking; infer_instance

/-- The lock that a caller who hears 0 thinks the entry has. -/
def granted (lockop : Nat) : Option Kind :=
  if lockOf lockop = LOCK_SH then some .shared
  else if lockOf lockop = LOCK_EX then some .exclusive
  else none

def answer (s : State) (p o lockop : Nat) : State :=
  reply (setTold s o (granted lockop)) p 0

/-- The code after the label `done`. -/
def done (s : State) (p i o c lockop : Nat) : State :=
  let s := if (s.oftab o).access.flock then deflock s o else s
  let s := modifyInode s i (fun d => { d with flock := c })
  let s := modifyOft s o (fun e => { e with access := { e.access with flock := true } })
  answer s p o lockop

/-- The flag is cleared before `deflock` looks at it. -/
def unlock (s : State) (p o lockop : Nat) : State :=
  let s := modifyOft s o (fun e => { e with access := { e.access with flock := false } })
  answer (deflock s o) p o lockop

/-- One round of the loop. -/
def attempt (s : State) (p i o c lockop lock self : Nat) : State :=
  if c = self ∧ lock = LOCK_EX then done s p i o CFLEX lockop
  else if c < CFMAX then done s p i o (c + 1) lockop
  else if c = CFMAX then fail s p ENOLCK
  else if nonBlocking lockop then fail s p EAGAIN
  else setCall s p (.flock i o lockop lock self)

def contend (s : State) (p i o c lockop lock self : Nat) : State :=
  if lockop = LOCK_UN then unlock s p o lockop
  else attempt s p i o c lockop lock self

def flock (s : State) (p file lockop : Nat) : State :=
  let lock := lockOf lockop
  let s := { s with lock := lock, self := 0 }
  if LOCK_UN < lock then fail s p EINVAL
  else
    match getinode s p (file % 256) with
    | .bad => fail s p EBADF
    | .broken => s.panic
    | .inode i =>
      let o := (s.ptab p).files file
      let c := (s.itab i).flock
      if (s.oftab o).access.flock then
        let s := { s with self := 1 }
        if lock = LOCK_SH then done s p i o (if c = CFLEX then 1 else c) lockop
        else if c = CFLEX ∧ lock = LOCK_EX then answer s p o lockop
        else contend s p i o c lockop lock 1
      else contend s p i o c lockop lock 0

/-- The local variables that are static may have been written by another process. -/
def locals (s : State) (lock self : Nat) : Nat × Nat :=
  if Cpu.staticfast then (s.lock, s.self) else (lock, self)

/-- `psleep_flags` returns, with -1 when there is a signal. -/
def woken (s : State) (p : Nat) (signal : Bool) : State :=
  match (s.ptab p).call with
  | .flock i o lockop lock self =>
    let s := setCall s p .user
    if signal then fail s p EINTR
    else
      let (lock, self) := locals s lock self
      attempt s p i o (s.itab i).flock lockop lock self
  | _ => s

/-! ## Steps -/

inductive Action where
  | open (p flag : Nat) (walk : Walk)
  | opened (p : Nat) (out : Opened)
  | flock (p file lockop : Nat)
  | woken (p : Nat) (signal : Bool)
  | dup (p oldd : Nat)
  | dup2 (p oldd newd : Nat)
  | close (p fd : Nat)
  | fork (p child : Nat)
  | exit (p : Nat)
  | take (i : Nat) (fresh rdonly : Bool)
  | drop (i : Nat)
  | mark (i : Nat) (dirty rdonly : Bool)

def Action.run (s : State) : Action → State
  | .open p flag walk => open' s p flag walk
  | .opened p out => openReturns s p out
  | .flock p file lockop => Flock.flock s p file lockop
  | .woken p signal => Flock.woken s p signal
  | .dup p oldd => Flock.dup s p oldd
  | .dup2 p oldd newd => Flock.dup2 s p oldd newd
  | .close p fd => doclose s p (fd % 256)
  | .fork p child => Flock.fork s p child
  | .exit p => doexit s p
  | .take i fresh rdonly => iOpen s i fresh rdonly
  | .drop i => iDeref s i
  | .mark i dirty rdonly => modifyInode s i (fun c => { c with dirty := dirty, rdonly := rdonly })

/-- A live process that is not asleep in a call. -/
def calls (s : State) (p : Nat) : Prop :=
  p < PTABSIZE ∧ (s.ptab p).live = true ∧ (s.ptab p).call = .user

def asleep (s : State) (p : Nat) : Prop :=
  p < PTABSIZE ∧ (s.ptab p).live = true ∧ (s.ptab p).call ≠ .user

instance (s : State) (p : Nat) : Decidable (calls s p) := by unfold calls; infer_instance
instance (s : State) (p : Nat) : Decidable (asleep s p) := by unfold asleep; infer_instance

def Check.proper : Check → Prop
  | .tty ctty => ctty < ITABSIZE
  | _ => True

/-- The inodes that a walk gives exist, and one that is read from disk goes into a
slot without references. -/
def Walk.proper (s : State) : Walk → Prop
  | .missing _ => True
  | .found i fresh _ _ check => i < ITABSIZE ∧ (fresh = true → (s.itab i).refs = 0) ∧ check.proper

def Action.enabled (s : State) : Action → Prop
  | .open p _ walk => calls s p ∧ walk.proper s
  | .opened p _ => asleep s p
  | .flock p _ _ => calls s p
  | .woken p _ => asleep s p
  | .dup p _ => calls s p
  | .dup2 p _ _ => calls s p
  | .close p _ => calls s p
  | .fork p child => calls s p ∧ child < PTABSIZE ∧ (s.ptab child).live = false
  | .exit p => p < PTABSIZE ∧ (s.ptab p).live = true
  | .take i fresh _ => i < ITABSIZE ∧ (fresh = true → (s.itab i).refs = 0)
  | .drop i => i < ITABSIZE
  | .mark i _ _ => i < ITABSIZE

def Action.step (s : State) (a : Action) (t : State) : Prop :=
  s.panicked = false ∧ a.enabled s ∧ t = a.run s

/-- One process with no open file. -/
def boot : State where
  itab := fun _ => ⟨0, false, false, 0⟩
  oftab := fun _ => ⟨0, none, Access.ofFlag 0⟩
  ptab := fun p => ⟨decide (p = 0), fun _ => NO_FILE, .user, 0, none⟩
  lock := 0
  self := 0
  told := fun _ => none
  panicked := false

end Calls

end Flock
