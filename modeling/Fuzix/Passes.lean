import Fuzix.Blkno
import Fuzix.Lib.Bits
import Fuzix.Lib.Counter

/-!
# The five passes of fsck

`main` of fsck.c from the superblock in memory on, with its loops over counters of 16 bits. The
image is a file or a device of so many blocks. An access outside the bitmap, the link map or the
list of free blocks ends the run, as nothing is known of what follows it. The texts of the messages
are left out, and so are the names that `ckdir` builds for them.
-/

namespace Passes

open Table Image Wp
open Fuzix (F_REG F_DIR F_BDEV F_CDEV fmt ROOTINODE)
open Devio (IntWidth)
open Fsck (Dinode Direct inode MAXDEPTH setblkno indexReads entryAt storeEntry)

/-- The loops whose ends depend on the image, with the sizes they are bounded by, and the
calls of `ckdir` within each other. -/
inductive Loop where
  | inodes
  | blocks (size : Nat)
  | freelist
  | entries (size : Nat)
  | slots (size : Nat)
  | nesting
deriving DecidableEq

/-- `hang` is a loop that has used up its fuel, `stray` an access outside an allocation. -/
inductive Exit where
  | exit
  | panic
  | stray
  | hang (l : Loop)
deriving DecidableEq

structure Host where
  width : IntWidth
  swizzling : Bool
  /-- The answers to the questions. -/
  answers : Nat → Bool
  /-- A write behind the end makes the image longer. -/
  grows : Bool

/-- `fixed` and `unfixed` are bits 0 and 2 of `error`. The blocks that were written are
history, the last one first, and so are the blocks that `blk_alloc0` was asked for, with what
it found and left. -/
structure State where
  disk : Disk
  extent : Nat
  sb : Superblock
  bitmap : Nat → Bits.Byte
  linkmap : Nat → Int
  icount : Nat
  asked : Nat
  fixed : Bool
  unfixed : Bool
  written : List Nat
  allocs : List ((Superblock × Disk) × Nat × (Superblock × Disk))

abbrev F := StateT State (Except Exit)

section
variable (h : Host)

def swap (v : Nat) : Nat := swap16 h.swizzling v

def State.isize (s : State) : Nat := swap h s.sb.s_isize

def State.fsize (s : State) : Nat := swap h s.sb.s_fsize

/-- `8 * (isize - 2)`, for which nothing is less than a negative number. -/
def State.inodes (s : State) : Nat :=
  match h.width with
  | .int16 => 8 * (s.isize h + 65534) % 65536
  | .int32 => 8 * (s.isize h - 2)

/-! ## Memory and disk -/

/-- One less, in 16 bits and in 32. -/
def less16 (v : Nat) : Nat := (v + 65535) % 65536

def less32 (v : Nat) : Nat := (v + 4294967295) % 4294967296

def daread (b : Nat) : F (Nat → Nat) := do
  let s ← get
  if b < s.extent then return s.disk b else throw .exit

def dwrite (b : Nat) (words : Nat → Nat) : F Unit := do
  let s ← get
  if b < s.extent ∨ h.grows then
    set { s with disk := put s.disk b words, extent := max s.extent (b + 1), written := b :: s.written }
  else throw .exit

def iread (n : Nat) : F Dinode := do
  let words ← daread (n / 8 + 2)
  return fun k => words (32 * (n % 8) + k)

def iwrite (n : Nat) (ino : Dinode) : F Unit := do
  let words ← daread (n / 8 + 2)
  dwrite h (n / 8 + 2) fun k =>
    if 32 * (n % 8) ≤ k ∧ k < 32 * (n % 8) + 32 then ino (k - 32 * (n % 8)) else words k

def yes : F Bool := do
  let s ← get
  let y := h.answers s.asked
  set { s with asked := s.asked + 1, fixed := s.fixed || y, unfixed := s.unfixed || !y }
  return y

def yes_noerror : F Bool := do
  let s ← get
  set { s with asked := s.asked + 1 }
  return h.answers s.asked

/-- `calloc((fsize + 7) / 8, 1)` -/
def inBitmap (s : State) (b : Nat) : Prop := b / 8 < (s.fsize h + 7) / 8

/-- `calloc(8 * isize, sizeof(int16_t))` -/
def inLinkmap (s : State) (n : Nat) : Prop := n < Fsck.inodes h.width (s.isize h)

instance (s : State) (b : Nat) : Decidable (inBitmap h s b) := by unfold inBitmap; infer_instance

instance (s : State) (n : Nat) : Decidable (inLinkmap h s n) := by unfold inLinkmap; infer_instance

def bitset (b : Nat) : F Unit := do
  let s ← get
  if inBitmap h s b then set { s with bitmap := Bits.set s.bitmap 0 b } else throw .stray

def bitclear (b : Nat) : F Unit := do
  let s ← get
  if inBitmap h s b then set { s with bitmap := Bits.clear s.bitmap 0 b } else throw .stray

def bittest (b : Nat) : F Bool := do
  let s ← get
  if inBitmap h s b then return Bits.test s.bitmap 0 b else throw .stray

def linkOf (n : Nat) : F Int := do
  let s ← get
  if inLinkmap h s n then return s.linkmap n else throw .stray

/-- A store into `linkmap`, which has words with a sign. -/
def setLink (n : Nat) (v : Int) : F Unit := do
  let s ← get
  if inLinkmap h s n then set { s with linkmap := put s.linkmap n ((v + 32768) % 65536 - 32768) }
  else throw .stray

/-- `swizzle16` exits on a value with a top half. -/
def swizzle (v : Nat) : F Nat :=
  match swizzle16 h.width h.swizzling v with
  | some w => return w
  | none => throw .exit

def writeSuper : F Unit := do
  let s ← get
  dwrite h 1 s.sb.word

/-! ## The blocks of a file -/

def readAll : List Nat → F Unit
  | [] => return ()
  | b :: bs => do
    discard (daread b)
    readAll bs

def getblkno (ino : Dinode) (num : Nat) : F Nat := do
  let s ← get
  readAll (indexReads h.swizzling s.disk ino num)
  return Fsck.getblkno h.swizzling s.disk ino num

def writeAll (disk : Disk) : List Nat → F Unit
  | [] => return ()
  | b :: bs => do
    dwrite h b (disk b)
    writeAll disk bs

def putblkno (ino : Dinode) (num dnum : Nat) : F Dinode := do
  let s ← get
  match setblkno h.swizzling s.disk ino num dnum with
  | .error _ => throw .panic
  | .ok u => do
    readAll (indexReads h.swizzling s.disk ino num)
    writeAll h u.disk u.written
    return u.ino

/-- `if (b < isize || b >= fsize)` -/
def outOfRange (s : State) (b : Nat) : Prop := b < s.isize h ∨ s.fsize h ≤ b

instance (s : State) (b : Nat) : Decidable (outOfRange h s b) := by unfold outOfRange; infer_instance

/-! ## Pass 1 -/

/-- `ino.i_addr[b] = 0; iwrite(n, &ino);` if the answer is yes. -/
def zapAddr (n b : Nat) (bad : Prop) [Decidable bad] (ino : Dinode) : F Dinode :=
  if bad then do
    let y ← yes h
    if y then do
      let ino := put ino (12 + b) 0
      iwrite h n ino
      return ino
    else return ino
  else return ino

def markIf (test : Prop) [Decidable test] (b : Nat) : F Unit :=
  if test then bitset h b else return ()

/-- A round of the loop over entries 18 and 19. -/
def single (n b : Nat) (ino : Dinode) : F Dinode := do
  let s ← get
  let ino ← zapAddr h n b (ino.i_addr b ≠ 0 ∧ outOfRange h s (swap h (ino.i_addr b))) ino
  let ino ← zapAddr h n b (ino.i_addr b ≠ 0 ∧ swizzle32 h.swizzling ino.i_size < 18 * 512) ino
  markIf h (ino.i_addr b ≠ 0) (swap h (ino.i_addr b))
  return ino

/-- `buf[b] = 0; dwrite(b, (char *) buf);` if the answer is yes: the block that is written is
that of the number of the entry. -/
def zapEntry (b : Nat) (bad : Prop) [Decidable bad] (buf : Nat → Nat) : F (Nat → Nat) :=
  if bad then do
    let y ← yes h
    if y then do
      dwrite h b (put buf b 0)
      return put buf b 0
    else return buf
  else return buf

/-- A round of the loop over the entries of the first double indirect block. -/
def double (b : Nat) (buf : Nat → Nat) : F (Nat → Nat) := do
  let s ← get
  let buf ← zapEntry h b (buf b ≠ 0 ∧ outOfRange h s (swap h (buf b))) buf
  markIf h (buf b ≠ 0) (swap h (buf b))
  return buf

def doubles : Nat → (Nat → Nat) → F (Nat → Nat)
  | 0, buf => return buf
  | b + 1, buf => do
    let buf ← doubles b buf
    double h b buf

/-- `setblkno(&ino, bno, 0); iwrite(n, &ino);` if the answer is yes. -/
def zapBlock (n bno : Nat) (bad : Prop) [Decidable bad] (ino : Dinode) : F Dinode :=
  if bad then do
    let y ← yes h
    if y then do
      let ino ← putblkno h ino bno 0
      iwrite h n ino
      return ino
    else return ino
  else return ino

/-- A round of the loop over the blocks of the file. What was found in `b` is marked even if
it has been zapped. -/
def block1 (n bno : Nat) (ino : Dinode) : F Dinode := do
  let b ← getblkno h ino bno
  let s ← get
  let ino ← zapBlock h n bno (b ≠ 0 ∧ outOfRange h s b) ino
  markIf h (b ≠ 0) b
  return ino

/-- `for (bno = 0; bno <= i_size/512; ++bno)` -/
def blocks (fuel : Loop → Nat) (size : Nat) (body : Nat → Dinode → F Dinode) (ino : Dinode) : F Dinode :=
  Counter.count (.hang (.blocks size)) (fun bno => decide (bno < size / 512 + 1)) (Counter.up 65536) body (fuel (.blocks size)) 0 ino

def typed (mode : Nat) : Prop := mode = F_REG ∨ mode = F_DIR ∨ mode = F_BDEV ∨ mode = F_CDEV

instance (mode : Nat) : Decidable (typed mode) := by unfold typed; infer_instance

/-- The first double indirect block. -/
def doubleIndirect (ino : Dinode) : F Unit :=
  if ino.i_addr 19 ≠ 0 then do
    let buf ← daread (swap h (ino.i_addr 19))
    discard (doubles h 256 buf)
  else return ()

/-- The blocks of a regular file or directory in pass 1. -/
def file1 (fuel : Loop → Nat) (n : Nat) (ino : Dinode) : F Unit := do
  let ino ← single h n 18 ino
  let ino ← single h n 19 ino
  doubleIndirect h ino
  discard (blocks fuel (swizzle32 h.swizzling ino.i_size) (block1 h n) ino)

/-- The inode in pass 1 behind the check of its mode. No size is negative. -/
def used1 (fuel : Loop → Nat) (n mode : Nat) (ino : Dinode) : F Unit := do
  setLink h n 0
  modify fun s => { s with icount := (s.icount + 1) % 65536 }
  if mode = F_REG ∨ mode = F_DIR then file1 h fuel n ino else return ()

def inode1 (fuel : Loop → Nat) (n : Nat) : F Unit := do
  let ino ← iread n
  setLink h n (-1)
  if ino.i_mode = 0 then return ()
  else do
    let mode := fmt (swap h ino.i_mode)
    if typed mode then used1 h fuel n mode ino
    else do
      let y ← yes h
      if y then iwrite h n (put (put ino 0 0) 1 0) else used1 h fuel n mode ino

/-- `for (n = ROOTINODE; n < 8 * (isize - 2); ++n)`, where `isize` never changes. -/
def inodesLoop (fuel : Loop → Nat) (body : Nat → F Unit) : F Unit := do
  let s ← get
  Counter.count (.hang .inodes) (fun n => decide (n < s.inodes h)) (Counter.up 65536)
    (fun n _ => body n) (fuel .inodes) ROOTINODE ()

/-- `8 * (isize - 2) - ROOTINODE - icount`, in the bits of the value given to `swizzle16`. -/
def freeInodes (s : State) : Nat :=
  match h.width with
  | .int16 => (8 * (s.isize h + 65534) + 131071 - s.icount) % 65536
  | .int32 => (8 * s.isize h + 4294967279 - s.icount) % 4294967296

/-- The count of free inodes in the superblock is put right. -/
def fixInodes : F Unit := do
  let s ← get
  if swap h s.sb.s_tinode ≠ freeInodes h s then do
    let y ← yes h
    if y then do
      let tinode ← swizzle h (freeInodes h s)
      modify fun s => { s with sb := { s.sb with s_tinode := tinode } }
      writeSuper h
    else return ()
  else return ()

def pass1 (fuel : Loop → Nat) : F Unit := do
  modify fun s => { s with icount := 0 }
  inodesLoop h fuel (inode1 h fuel)
  fixInodes h

/-! ## Pass 2 -/

/-- A full list goes into block `j`. -/
def spill (j : Nat) : F Unit := do
  let s ← get
  if swap h s.sb.s_nfree = 50 then do
    dwrite h j s.sb.chain
    modify fun s => { s with sb := { s.sb with s_nfree := 0 } }
  else return ()

/-- Block `j` goes on the free list if it is not marked. -/
def free2 (j : Nat) : F Unit := do
  let used ← bittest h j
  if used then return ()
  else do
    spill h j
    let s ← get
    let tfree ← swizzle h (swap h s.sb.s_tfree + 1)
    modify fun s => { s with sb := { s.sb with
      s_tfree := tfree
      s_free := put s.sb.s_free (swap h s.sb.s_nfree) (swap h j)
      s_nfree := swap h (swap h s.sb.s_nfree + 1) } }

/-- `for (j = fsize - 1; j >= isize; --j)` -/
def freelist (fuel : Loop → Nat) : F Unit := do
  let s ← get
  Counter.count (.hang .freelist) (fun j => decide (s.isize h ≤ j)) (Counter.down 65536)
    (fun j _ => free2 h j) (fuel .freelist) (less16 (s.fsize h)) ()

def pass2 (fuel : Loop → Nat) : F Unit := do
  let y ← yes_noerror h
  if y then do
    modify fun s => { s with
      fixed := true
      sb := { s.sb with s_ninode := 0, s_nfree := swap h 1, s_free := put s.sb.s_free 0 0, s_tfree := 0 } }
    freelist h fuel
    writeSuper h
  else return ()

/-! ## Pass 3 -/

/-- `if (!filesys->s_nfree)` -/
def refill (newno index : Nat) : F Unit :=
  if index = 0 then do
    let buf ← daread newno
    modify fun s => { s with sb := { s.sb with s_nfree := buf 0, s_free := fun j => buf (j + 1) } }
  else return ()

/-- Block `newno` of entry `index` is taken. -/
def take (newno index : Nat) : F Nat := do
  modify fun s => { s with sb := { s.sb with s_nfree := index } }
  refill newno index
  let s ← get
  let tfree ← swizzle h (less32 (swap h s.sb.s_tfree))
  modify fun s => { s with sb := { s.sb with s_tfree := tfree } }
  if outOfRange h s newno then return 0
  else do
    writeSuper h
    return newno

/-- An empty list is left with as many entries as there were. -/
def exhausted (index : Nat) : F Nat := do
  let nfree ← swizzle h (swap h index + 1)
  modify fun s => { s with sb := { s.sb with s_nfree := nfree } }
  return 0

/-- `--filesys->s_nfree` takes the word as it lies in memory. An index that is negative or
beyond the 50 entries is outside the list. -/
def alloc : F Nat := do
  let s ← get
  let nfree ← swizzle h (less32 (swap h s.sb.s_nfree))
  if 50 ≤ less16 nfree then throw .stray
  else if swap h (s.sb.s_free (less16 nfree)) = 0 then exhausted h (less16 nfree)
  else take h (swap h (s.sb.s_free (less16 nfree))) (less16 nfree)

/-- `blk_alloc0`, noted with the superblock and the image before and after. -/
def blk_alloc0 : F Nat := do
  let s ← get
  let newno ← alloc h
  modify fun t => { t with allocs := ((s.sb, s.disk), newno, (t.sb, t.disk)) :: t.allocs }
  return newno

def unfix : F Unit := modify fun s => { s with unfixed := true }

/-- An index block of the inode that is marked is copied, and one that is not is marked. -/
def single3 (n b : Nat) (ino : Dinode) : F Dinode :=
  if ino.i_addr b = 0 then return ino
  else do
    let dup ← bittest h (swap h (ino.i_addr b))
    if dup then do
      let y ← yes h
      if y then do
        let newno ← blk_alloc0 h
        if newno = 0 then do
          unfix
          return ino
        else do
          let words ← daread (swap h (ino.i_addr b))
          dwrite h newno words
          let ino := put ino (12 + b) (swap h newno)
          iwrite h n ino
          return ino
      else return ino
    else do
      bitset h (swap h (ino.i_addr b))
      return ino

/-- The same for a block of the file. -/
def block3 (n bno : Nat) (ino : Dinode) : F Dinode := do
  let b ← getblkno h ino bno
  if b = 0 then return ino
  else do
    let dup ← bittest h b
    if dup then do
      let y ← yes h
      if y then do
        let newno ← blk_alloc0 h
        if newno = 0 then do
          unfix
          return ino
        else do
          let words ← daread b
          dwrite h newno words
          let ino ← putblkno h ino bno newno
          iwrite h n ino
          return ino
      else return ino
    else do
      bitset h b
      return ino

def file3 (fuel : Loop → Nat) (n : Nat) (ino : Dinode) : F Unit := do
  let ino ← single3 h n 18 ino
  let ino ← single3 h n 19 ino
  discard (blocks fuel (swizzle32 h.swizzling ino.i_size) (block3 h n) ino)

def inode3 (fuel : Loop → Nat) (n : Nat) : F Unit := do
  let ino ← iread n
  let mode := fmt (swap h ino.i_mode)
  if mode = F_REG ∨ mode = F_DIR then file3 h fuel n ino else return ()

/-- `for (b = isize; b < fsize; ++b) bitclear(b);` -/
def clearFrom (b : Nat) : Nat → F Unit
  | 0 => return ()
  | k + 1 => do
    bitclear h b
    clearFrom (b + 1) k

def pass3 (fuel : Loop → Nat) : F Unit := do
  let s ← get
  clearFrom h (s.isize h) (s.fsize h - s.isize h)
  inodesLoop h fuel (inode3 h fuel)

/-! ## Pass 4 -/

def dirread (ino : Dinode) (j : Nat) : F Direct := do
  let blkno ← getblkno h ino (j / 16)
  if blkno = 0 then throw .panic
  else do
    let buf ← daread blkno
    return entryAt buf j

def dirwrite (ino : Dinode) (j : Nat) (e : Direct) : F Unit := do
  let blkno ← getblkno h ino (j / 16)
  if blkno = 0 then throw .panic
  else do
    let buf ← daread blkno
    dwrite h blkno (storeEntry buf j e)

/-- A bad entry is cleared if the answer is yes. -/
def zap (bad : Prop) [Decidable bad] (ino : Dinode) (j : Nat) (e : Direct) : F Bool :=
  if bad then do
    let y ← yes h
    if y then do
      dirwrite h ino j ⟨0, put e.d_name 0 0⟩
      return true
    else return false
  else return false

/-- An entry with a wrong inode number gets `target` if the answer is yes. -/
def point (wrong : Prop) [Decidable wrong] (target : Nat) (ino : Dinode) (j : Nat) (e : Direct) : F Direct :=
  if wrong then do
    let y ← yes h
    if y then do
      dirwrite h ino j { e with d_ino := swap h target }
      return { e with d_ino := swap h target }
    else return e
  else return e

/-- The slashes in the name, in the `n` bytes from `c` on. -/
def slashes (ino : Dinode) (j : Nat) : Nat → Nat → Direct → F Direct
  | 0, _, e => return e
  | n + 1, c, e =>
    if e.d_name c = 0 then return e
    else if e.d_name c = 47 then do
      let y ← yes h
      if y then do
        dirwrite h ino j { e with d_name := put e.d_name c 88 }
        slashes ino j n (c + 1) { e with d_name := put e.d_name c 88 }
      else slashes ino j n (c + 1) e
    else slashes ino j n (c + 1) e

/-- An entry that is kept, of a link count `links` so far. `down` walks further. -/
def keep (down : Option (Nat → F Unit)) (inum pnum : Nat) (ino : Dinode) (j : Nat) (e : Direct) (links : Int) :
    F Unit := do
  setLink h (swap h e.d_ino) (links + 1)
  let e ← slashes h ino j 30 0 e
  let e ← point h (e.isDot ∧ swap h e.d_ino ≠ inum) inum ino j e
  let e ← point h (e.isDotDot ∧ swap h e.d_ino ≠ pnum) pnum ino j e
  match down with
  | none => return ()
  | some down =>
    if swap h e.d_ino ≠ pnum ∧ swap h e.d_ino ≠ inum then down (swap h e.d_ino) else return ()

/-- One entry of a directory. -/
def ckentry (down : Option (Nat → F Unit)) (inum pnum : Nat) (ino : Dinode) (j : Nat) : F Unit := do
  let e ← dirread h ino j
  let e := e.clean
  dirwrite h ino j e
  if e.d_ino = 0 then return ()
  else do
    let s ← get
    let n := swap h e.d_ino
    let zapped ← zap h (n < ROOTINODE ∨ Fsck.inodes h.width (s.isize h) ≤ n) ino j e
    if zapped then return ()
    else do
      let links ← linkOf h n
      let zapped ← zap h (links = -1) ino j e
      if zapped then return () else keep h down inum pnum ino j e links

/-- An improper length is cut if the answer is yes. -/
def fixSize (inum : Nat) (ino : Dinode) : F Dinode :=
  if swizzle32 h.swizzling ino.i_size % 32 ≠ 0 then do
    let y ← yes h
    if y then do
      let size := swizzle32 h.swizzling (swizzle32 h.swizzling ino.i_size / 32 * 32)
      let ino := put (put ino 4 (size % 65536)) 5 (size / 65536)
      iwrite h inum ino
      return ino
    else return ino
  else return ino

/-- `nentries` as `j` is compared with it. -/
def nentries (size : Nat) : Nat :=
  match h.width with
  | .int16 => size / 32 % 65536
  | .int32 => size / 32

/-- `for (j = 0; j < nentries; ++j)` -/
def entries (fuel : Loop → Nat) (size : Nat) (body : Nat → F Unit) : F Unit :=
  Counter.count (.hang (.entries size)) (fun j => decide (j < nentries h size)) (Counter.up 65536)
    (fun j _ => body j) (fuel (.entries size)) 0 ()

/-- `depth` is the one before it is counted up. -/
def ckdir (fuel : Loop → Nat) : Nat → Nat → Nat → Nat → F Unit
  | 0, _, _, _ => throw (.hang .nesting)
  | calls + 1, depth, inum, pnum => do
    let ino ← iread inum
    if fmt (swap h ino.i_mode) ≠ F_DIR then return ()
    else do
      let ino ← fixSize h inum ino
      let down := if depth + 1 < MAXDEPTH then some fun child => ckdir fuel calls (depth + 1) child inum else none
      entries h fuel (swizzle32 h.swizzling ino.i_size) (ckentry h down inum pnum ino)

def pass4 (fuel : Loop → Nat) : F Unit := do
  setLink h ROOTINODE 1
  ckdir h fuel (fuel .nesting) 0 ROOTINODE ROOTINODE

/-! ## Pass 5 -/

/-- The bytes of `sprintf("l+f%u", inum)`. -/
def lostName (inum : Nat) : List Nat := [108, 43, 102] ++ (Nat.toDigits 10 inum).map Char.toNat ++ [0]

/-- The loop of `mkentry` over the slots of the root directory. -/
def slots (inum size : Nat) (rootino : Dinode) : Nat → Nat → F Unit
  | 0, _ => throw (.hang (.slots size))
  | fuel + 1, d =>
    if d < size / 32 then do
      let e ← dirread h rootino d
      if e.d_ino = 0 ∧ e.d_name 0 = 0 then
        dirwrite h rootino d ⟨swap h inum, fun i => (lostName inum).getD i (e.d_name i)⟩
      else slots inum size rootino fuel (Counter.up 65536 d)
    else unfix

def mkentry (fuel : Loop → Nat) (inum : Nat) : F Unit := do
  let rootino ← iread ROOTINODE
  slots h inum (swizzle32 h.swizzling rootino.i_size) rootino (fuel (.slots (swizzle32 h.swizzling rootino.i_size))) 0

/-- A useless inode is cleared. -/
def clearInode (n : Nat) (ino : Dinode) : F Unit := do
  iwrite h n (put (put ino 1 0) 0 0)
  let s ← get
  let tinode ← swizzle h (swap h s.sb.s_tinode + 1)
  modify fun s => { s with sb := { s.sb with s_tinode := tinode } }
  writeSuper h

/-- A wrong link count is put right. -/
def fixLinks (n : Nat) (links : Int) (ino : Dinode) : F Unit :=
  if 0 < links ∧ (swap h ino.i_nlink : Int) ≠ links then do
    let y ← yes h
    if y then iwrite h n (put ino 1 (swap h links.toNat)) else return ()
  else return ()

/-- An inode that no entry names. -/
def detached (fuel : Loop → Nat) (n : Nat) (ino : Dinode) : F Unit := do
  let y ← yes h
  if y then
    if fmt (swap h ino.i_mode) = F_BDEV ∨ fmt (swap h ino.i_mode) = F_CDEV ∨ ino.i_size = 0 ∨ ino.i_nlink = 0 then
      clearInode h n ino
    else do
      iwrite h n (put ino 1 (swap h 1))
      mkentry h fuel n
  else return ()

def inode5 (fuel : Loop → Nat) (n : Nat) : F Unit := do
  let ino ← iread n
  let links ← linkOf h n
  if ino.i_mode = 0 then if links ≠ -1 then throw .panic else return ()
  else if links = -1 then throw .panic
  else do
    fixLinks h n links ino
    if links = 0 then detached h fuel n ino else return ()

def pass5 (fuel : Loop → Nat) : F Unit := inodesLoop h fuel (inode5 h fuel)

/-- The five passes, each loop with fuel of its own. -/
def fsck (fuel : Loop → Nat) : F Unit := do
  pass1 h fuel
  pass2 h fuel
  pass3 h fuel
  pass4 h fuel
  pass5 h fuel

/-- The superblock as `bcopy` takes it from block 1. -/
def loadSuper (words : Nat → Nat) : Superblock where
  s_mounted := words 0
  s_isize := words 1
  s_fsize := words 2
  s_nfree := words 3
  s_free k := words (4 + k)
  s_ninode := words 54
  s_tfree := words 108
  s_tinode := words 109
  rest := words

/-- What `main` has when it calls the first pass. -/
def start (disk : Disk) (extent : Nat) : State where
  disk := disk
  extent := extent
  sb := loadSuper (disk 1)
  bitmap _ := 0
  linkmap _ := 0
  icount := 0
  asked := 0
  fixed := false
  unfixed := false
  written := []
  allocs := []

end

end Passes
