import Fuzix.Image

/-!
# The walk of fsck through the directories

Pass 4 of fsck goes through the directories from the root on and counts the links to every
inode. It repairs what it finds if the answer to its question is yes. The names it builds for
its messages and the exit code are left out.
-/

namespace Fsck

open Table Image Wp
open Fuzix (F_DIR fmt ROOTINODE)
open Devio (IntWidth)

def MAXDEPTH : Nat := 20

/-- `hang` is a loop that does not end. -/
inductive Exit where
  | panic
  | hang
deriving DecidableEq

structure State where
  disk : Disk
  linkmap : Nat → Int
  /-- How many questions were asked. -/
  asked : Nat

abbrev F := StateT State (Except Exit)

/-! ## Inodes and blocks -/

/-- The 32 words of an inode. -/
abbrev Dinode := Nat → Nat

def Dinode.i_mode (ino : Dinode) : Nat := ino 0
def Dinode.i_nlink (ino : Dinode) : Nat := ino 1
def Dinode.i_size (ino : Dinode) : Nat := ino 4 + 65536 * ino 5
def Dinode.i_addr (ino : Dinode) (k : Nat) : Nat := ino (12 + k)

/-- The inode in the words of its block. -/
def inode (disk : Disk) (n : Nat) : Dinode := fun k => disk (n / 8 + 2) (32 * (n % 8) + k)

def iread (n : Nat) : F Dinode := do
  let s ← get
  return inode s.disk n

def iwrite (n : Nat) (ino : Dinode) : F Unit :=
  modify fun s => { s with
    disk := put s.disk (n / 8 + 2) fun k =>
      if 32 * (n % 8) ≤ k ∧ k < 32 * (n % 8) + 32 then ino (k - 32 * (n % 8)) else s.disk (n / 8 + 2) k }

def getblkno (sw : Bool) (disk : Disk) (ino : Dinode) (num : Nat) : Nat :=
  if num < 18 then swap16 sw (ino.i_addr num)
  else if num < 256 + 18 then
    let indb := swap16 sw (ino.i_addr 18)
    if indb = 0 then 0 else swap16 sw (disk indb (num - 18))
  else
    let indb := swap16 sw (ino.i_addr 19)
    if indb = 0 then 0
    else
      let dindb := swap16 sw (disk indb ((num - (18 + 256)) / 256))
      swap16 sw (disk dindb ((num - (18 + 256)) % 256))

/-! ## Directory entries -/

/-- `d_name` has 30 bytes. -/
structure Direct where
  d_ino : Nat
  d_name : Nat → Nat

/-- Entry `j` in the words of its block. -/
def entryAt (words : Nat → Nat) (j : Nat) : Direct where
  d_ino := words (16 * (j % 16))
  d_name i :=
    let w := words (16 * (j % 16) + 1 + i / 2)
    if i % 2 = 0 then w % 256 else w / 256 % 256

def Direct.word (e : Direct) (k : Nat) : Nat :=
  match k with
  | 0 => e.d_ino
  | k + 1 => e.d_name (2 * k) + 256 * e.d_name (2 * k + 1)

def storeEntry (words : Nat → Nat) (j : Nat) (e : Direct) (k : Nat) : Nat :=
  if 16 * (j % 16) ≤ k ∧ k < 16 * (j % 16) + 16 then e.word (k - 16 * (j % 16)) else words k

/-- How many bytes come before the first zero byte. -/
def Direct.namelen (e : Direct) : Nat := ((List.range 30).find? fun i => e.d_name i = 0).getD 30

/-- The name is filled up with zero bytes. -/
def Direct.clean (e : Direct) : Direct := { e with d_name := fun i => if i < e.namelen then e.d_name i else 0 }

/-- `strncmp(d_name, ".", 30) == 0` -/
def Direct.isDot (e : Direct) : Bool := e.d_name 0 = 46 && e.d_name 1 = 0

/-- `strncmp(d_name, "..", 30) == 0` -/
def Direct.isDotDot (e : Direct) : Bool := e.d_name 0 = 46 && e.d_name 1 = 46 && e.d_name 2 = 0

section Walk
variable (width : IntWidth) (sw : Bool) (isize : Nat) (answers : Nat → Bool)

def ask : F Bool := do
  let s ← get
  modify fun s => { s with asked := s.asked + 1 }
  return answers s.asked

def dirread (ino : Dinode) (j : Nat) : F Direct := do
  let s ← get
  let blkno := getblkno sw s.disk ino (j / 16)
  if blkno = 0 then throw .panic
  else return entryAt (s.disk blkno) j

def dirwrite (ino : Dinode) (j : Nat) (e : Direct) : F Unit := do
  let s ← get
  let blkno := getblkno sw s.disk ino (j / 16)
  if blkno = 0 then throw .panic
  else modify fun s => { s with disk := put s.disk blkno (storeEntry (s.disk blkno) j e) }

/-- A bad entry is cleared if the answer is yes. -/
def zap (bad : Prop) [Decidable bad] (ino : Dinode) (j : Nat) (e : Direct) : F Bool :=
  if bad then do
    let yes ← ask answers
    if yes then do
      dirwrite sw ino j ⟨0, put e.d_name 0 0⟩
      return true
    else return false
  else return false

/-- An entry with a wrong inode number gets `target` if the answer is yes. -/
def point (wrong : Prop) [Decidable wrong] (target : Nat) (ino : Dinode) (j : Nat) (e : Direct) : F Direct :=
  if wrong then do
    let yes ← ask answers
    if yes then do
      dirwrite sw ino j { e with d_ino := swap16 sw target }
      return { e with d_ino := swap16 sw target }
    else return e
  else return e

/-- The slashes in the name, in the `n` bytes from `c` on. -/
def slashes (ino : Dinode) (j : Nat) : Nat → Nat → Direct → F Direct
  | 0, _, e => return e
  | n + 1, c, e =>
    if e.d_name c = 0 then return e
    else if e.d_name c = 47 then do
      let yes ← ask answers
      if yes then do
        dirwrite sw ino j { e with d_name := put e.d_name c 88 }
        slashes ino j n (c + 1) { e with d_name := put e.d_name c 88 }
      else slashes ino j n (c + 1) e
    else slashes ino j n (c + 1) e

/-- `8 * s_isize`, an unsigned product when `int` has 16 bits. -/
def inodes : Nat :=
  match width with
  | .int16 => 8 * isize % 65536
  | .int32 => 8 * isize

/-- The count, the name and the walk down for an entry that is kept. `down` walks further. -/
def keep (down : Option (Nat → F Unit)) (inum pnum : Nat) (ino : Dinode) (j : Nat) (e : Direct) : F Unit := do
  modify fun s => { s with linkmap := put s.linkmap (swap16 sw e.d_ino) (s.linkmap (swap16 sw e.d_ino) + 1) }
  let e ← slashes sw answers ino j 30 0 e
  let e ← point sw answers (e.isDot ∧ swap16 sw e.d_ino ≠ inum) inum ino j e
  let e ← point sw answers (e.isDotDot ∧ swap16 sw e.d_ino ≠ pnum) pnum ino j e
  match down with
  | none => return ()
  | some down =>
    if swap16 sw e.d_ino ≠ pnum ∧ swap16 sw e.d_ino ≠ inum then down (swap16 sw e.d_ino) else return ()

/-- One entry of a directory. -/
def ckentry (down : Option (Nat → F Unit)) (inum pnum : Nat) (ino : Dinode) (j : Nat) : F Unit := do
  let e ← dirread sw ino j
  let e := e.clean
  dirwrite sw ino j e
  if e.d_ino = 0 then return ()
  else do
    let n := swap16 sw e.d_ino
    let zapped ← zap sw answers (n < ROOTINODE ∨ inodes width isize ≤ n) ino j e
    if zapped then return ()
    else do
      let s ← get
      let zapped ← zap sw answers (s.linkmap n = -1) ino j e
      if zapped then return () else keep sw answers down inum pnum ino j e

def ckentries (down : Option (Nat → F Unit)) (inum pnum : Nat) (ino : Dinode) : Nat → F Unit
  | 0 => return ()
  | n + 1 => do
    ckentries down inum pnum ino n
    ckentry width sw isize answers down inum pnum ino n

/-- An improper length is cut if the answer is yes. -/
def fixSize (inum : Nat) (ino : Dinode) : F Dinode :=
  if swizzle32 sw ino.i_size % 32 ≠ 0 then do
    let yes ← ask answers
    if yes then do
      let size := swizzle32 sw (swizzle32 sw ino.i_size / 32 * 32)
      let ino := put (put ino 4 (size % 65536)) 5 (size / 65536)
      iwrite inum ino
      return ino
    else return ino
  else return ino

/-- `nentries`. The counter `j` has 16 bits. -/
def nentries (ino : Dinode) : F Nat :=
  match width with
  | .int16 => return swizzle32 sw ino.i_size / 32 % 65536
  | .int32 => if 65536 ≤ swizzle32 sw ino.i_size / 32 then throw .hang else return swizzle32 sw ino.i_size / 32

/-- `ckdir` when the depth is so much below `MAXDEPTH` before it is counted up. -/
def ckdir : Nat → Nat → Nat → F Unit
  | 0, _, _ => return ()
  | left + 1, inum, pnum => do
    let ino ← iread inum
    if fmt (swap16 sw ino.i_mode) ≠ F_DIR then return ()
    else do
      let ino ← fixSize sw answers inum ino
      let n ← nentries width sw ino
      let down := if left = 0 then none else some fun child => ckdir left child inum
      ckentries width sw isize answers down inum pnum ino n

def pass4 : F Unit := do
  modify fun s => { s with linkmap := put s.linkmap ROOTINODE 1 }
  ckdir width sw isize answers MAXDEPTH ROOTINODE ROOTINODE

end Walk

end Fsck
