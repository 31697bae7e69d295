import Fuzix.Lib.Wp
import Fuzix.Lib.Table

/-!
# The block buffer cache

The buffer pool of devio.c over arbitrary block contents. A device is a
function from block numbers to contents, and `fault n` says that the `n`-th
transfer fails. `d_flush` concerns caches inside a drive and is left out.
-/

namespace Devio

open Wp Table

def NO_DEVICE : Nat := 0xFFFF
def EIO : Nat := 5

/-- The width of `int`, in which the age of a buffer is computed. -/
inductive IntWidth where
  | int16
  | int32
deriving DecidableEq

structure Config where
  nbufs : Nat
  width : IntWidth
  validdev : Nat → Bool
  noDevice : validdev NO_DEVICE = false

/-- `BF_SUPERBLOCK` is declared in kernel.h and assigned nowhere. -/
inductive Busy where
  | free
  | busy
  | superblock
deriving DecidableEq

structure Blkbuf (B : Type) where
  data : B
  dev : Nat
  blk : Nat
  dirty : Bool
  busy : Busy
  time : UInt16

structure Cache (B : Type) where
  pool : Nat → Blkbuf B
  bufclock : UInt16
  disk : Nat → Nat → B
  uError : Nat
  fault : Nat → Bool
  xfers : Nat

inductive Panic where
  | wantbsyb
  | nofreeb
  | invd
deriving DecidableEq

abbrev CacheM (B : Type) := StateT (Cache B) (Except Panic)

variable {B : Type} (cfg : Config)

def setBuf (i : Nat) (f : Blkbuf B → Blkbuf B) (c : Cache B) : Cache B :=
  { c with pool := put c.pool i (f (c.pool i)) }

def modifyBuf (i : Nat) (f : Blkbuf B → Blkbuf B) : CacheM B Unit :=
  modify (setBuf i f)

def setError (e : Nat) : CacheM B Unit := modify (fun c => { c with uError := e })

section Primitives
variable (stop : Panic → Prop) (i : Nat) (f : Blkbuf B → Blkbuf B) (c : Cache B)
  (Q : Unit → Cache B → Prop)

@[simp] theorem setBuf_pool : (setBuf i f c).pool = put c.pool i (f (c.pool i)) := rfl
@[simp] theorem setBuf_disk : (setBuf i f c).disk = c.disk := rfl
@[simp] theorem setBuf_fault : (setBuf i f c).fault = c.fault := rfl

@[simp] theorem setBuf_setBuf (g : Blkbuf B → Blkbuf B) :
    setBuf i g (setBuf i f c) = setBuf i (fun b => g (f b)) c := by
  simp [setBuf]

@[simp] theorem wp_modifyBuf :
    wp stop (modifyBuf i f) Q c ↔ Q () (setBuf i f c) := Iff.rfl

@[simp] theorem wp_setError (e : Nat) :
    wp stop (setError e) Q c ↔ Q () { c with uError := e } := Iff.rfl

end Primitives

/-- The transfer of one block succeeds or not, and is counted. -/
def transfer (dev : Nat) : CacheM B Bool := do
  if cfg.validdev dev = false then throw .invd
  let c ← get
  modify (fun c => { c with xfers := c.xfers + 1 })
  return !c.fault c.xfers

def bdread (i : Nat) : CacheM B Bool := do
  let c ← get
  let bp := c.pool i
  let ok ← transfer cfg bp.dev
  if ok then modifyBuf i (fun b => { b with data := c.disk bp.dev bp.blk })
  return ok

def bdwrite (i : Nat) : CacheM B Bool := do
  let c ← get
  let bp := c.pool i
  let ok ← transfer cfg bp.dev
  if ok then
    modify (fun c => { c with
      disk := put₂ c.disk bp.dev bp.blk bp.data })
  return ok

def names (dev blk : Nat) (b : Blkbuf B) : Bool := b.dev = dev ∧ b.blk = blk

def bfind (c : Cache B) (dev blk : Nat) : Option Nat :=
  (List.range cfg.nbufs).find? (fun i => names dev blk (c.pool i))

/-- `bufclock - bp->bf_time`, in the arithmetic of the build's `int`. -/
def age (clock time : UInt16) : Int :=
  match cfg.width with
  | .int16 => (clock - time).toNat
  | .int32 => (clock.toNat : Int) - time.toNat

/-- The age as it is kept in the 16-bit signed `oldtime` and compared again. -/
def oldtime (a : Int) : Int :=
  match cfg.width with
  | .int16 => a
  | .int32 => (BitVec.ofInt 16 a).toInt

def victimStep (c : Cache B) (best : Option Nat × Int) (i : Nat) :
    Option Nat × Int :=
  let bp := c.pool i
  let a := age cfg c.bufclock bp.time
  if best.2 ≤ a ∧ bp.busy = .free then (some i, oldtime cfg a) else best

def victim (c : Cache B) : Option Nat :=
  ((List.range cfg.nbufs).foldl (victimStep cfg c) (none, 0)).1

def freebuf : CacheM B Nat := do
  let c ← get
  match victim cfg c with
  | none => throw .nofreeb
  | some oldest =>
    if (c.pool oldest).dirty then
      let ok ← bdwrite cfg oldest
      if !ok then setError EIO
      modifyBuf oldest (fun b => { b with dirty := false })
    return oldest

/-- `bp->bf_time = ++bufclock`. -/
def stamp (i : Nat) : CacheM B Unit :=
  modify (fun c =>
    setBuf i (fun b => { b with time := c.bufclock + 1 })
      { c with bufclock := c.bufclock + 1 })

def bread (dev blk : Nat) (rewrite : Bool) : CacheM B (Option Nat) := do
  let c ← get
  match bfind cfg c dev blk with
  | some i =>
    if (c.pool i).busy = .busy then throw .wantbsyb
    if (c.pool i).busy = .free then modifyBuf i (fun b => { b with busy := .busy })
    stamp i
    return some i
  | none =>
    let i ← freebuf cfg
    modifyBuf i (fun b => { b with dev := dev, blk := blk, busy := .busy })
    if !rewrite then
      let ok ← bdread cfg i
      if !ok then
        setError EIO
        modifyBuf i (fun b => { b with busy := .free, dev := NO_DEVICE })
        return none
    stamp i
    return some i

/-- 0 is clean, 1 is written back some time, 2 is written at once. -/
def bfree (i : Nat) (dirty : Nat) : CacheM B Int := do
  modifyBuf i (fun b => { b with
    dirty := b.dirty || decide (dirty ≠ 0)
    busy := if b.busy = .busy then .free else b.busy })
  if 1 < dirty then
    let ok ← bdwrite cfg i
    if !ok then
      setError EIO
      return -1
    modifyBuf i (fun b => { b with dirty := false })
  return 0

def tmpbuf : CacheM B Nat := do
  let i ← freebuf cfg
  modifyBuf i (fun b => { b with dev := NO_DEVICE, busy := .busy })
  stamp i
  return i

def zerobuf (zero : B) : CacheM B Nat := do
  let i ← tmpbuf cfg
  modifyBuf i (fun b => { b with data := zero })
  return i

def bdput (i : Nat) : CacheM B Unit := do
  let _ ← bdwrite cfg i
  modifyBuf i (fun b => { b with dirty := if b.busy = .free then false else b.dirty })

def bufsyncFrom : List Nat → CacheM B Unit
  | [] => pure ()
  | i :: rest => do
    let c ← get
    if (c.pool i).dev ≠ NO_DEVICE ∧ (c.pool i).dirty then bdput cfg i
    bufsyncFrom rest

def bufsync : CacheM B Unit := bufsyncFrom cfg (List.range cfg.nbufs)

def bdropFrom (dev : Nat) : List Nat → CacheM B Unit
  | [] => pure ()
  | i :: rest => do
    let c ← get
    if (c.pool i).dev = dev then
      bdput cfg i
      modifyBuf i (fun b => { b with dev := NO_DEVICE })
    bdropFrom dev rest

def bdrop (dev : Nat) : CacheM B Unit := bdropFrom cfg dev (List.range cfg.nbufs)

def bufdiscard (i : Nat) : CacheM B Unit :=
  modify (fun c =>
    if (c.pool i).dirty then c
    else setBuf i (fun b => { b with time := c.bufclock - 1000 }) c)

end Devio
