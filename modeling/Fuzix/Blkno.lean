import Fuzix.Ckdir

/-!
# Looking up and changing the blocks of a file in fsck

`setblkno` beside `getblkno`, with the blocks that the one reads as index blocks and the
other writes.
-/

namespace Fsck

open Table Image

/-- What `setblkno` leaves, and the blocks that it wrote. -/
structure Update where
  ino : Dinode
  disk : Disk
  written : List Nat

/-- Entry `w` of index block `from'` gets `v`, and the buffer is written to block `to'`. -/
def storeIndex (disk : Disk) (from' to' w v : Nat) : Disk := put disk to' (put (disk from') w v)

def setblkno (sw : Bool) (disk : Disk) (ino : Dinode) (num dnum : Nat) : Except Exit Update :=
  if num < 18 then .ok ⟨put ino (12 + num) (swap16 sw dnum), disk, []⟩
  else if num < 256 + 18 then
    let indb := swap16 sw (ino.i_addr 18)
    if indb = 0 then .error .panic
    else .ok ⟨ino, storeIndex disk indb indb (num - 18) (swap16 sw dnum), [indb]⟩
  else
    let indb := swap16 sw (ino.i_addr 19)
    if indb = 0 then .error .panic
    else
      let dindb := swap16 sw (disk indb ((num - (18 + 256)) / 256))
      if dindb = 0 then .error .panic
      -- the number of the block in the file is stored, and the buffer goes to the first index block
      else .ok ⟨ino, storeIndex disk dindb indb ((num - (18 + 256)) % 256) (swap16 sw num), [indb]⟩

/-- The blocks that `getblkno` reads as index blocks. -/
def indexReads (sw : Bool) (disk : Disk) (ino : Dinode) (num : Nat) : List Nat :=
  if num < 18 then []
  else if num < 256 + 18 then
    let indb := swap16 sw (ino.i_addr 18)
    if indb = 0 then [] else [indb]
  else
    let indb := swap16 sw (ino.i_addr 19)
    if indb = 0 then [] else [indb, swap16 sw (disk indb ((num - (18 + 256)) / 256))]

section
variable (sw : Bool) (disk : Disk) (ino : Dinode)

/-! ## The index blocks of a file -/

/-- The index block that the inode names in entry 18 or 19. -/
def indirect (k : Nat) : Nat := swap16 sw (ino.i_addr k)

/-- The second level index block `k`. -/
def second (k : Nat) : Nat := swap16 sw (disk (indirect sw ino 19) k)

/-- The index blocks on the way to block `num` of the file are there. -/
def Needed (num : Nat) : Prop :=
  (18 ≤ num → num < 274 → indirect sw ino 18 ≠ 0) ∧
    (274 ≤ num → indirect sw ino 19 ≠ 0 ∧ second sw disk ino ((num - 274) / 256) ≠ 0)

/-- The index block that holds the entry of block `num`. -/
def holder (num : Nat) : Nat :=
  if num < 274 then indirect sw ino 18 else second sw disk ino ((num - 274) / 256)

/-- No index block of the file serves twice. -/
def Apart : Prop :=
  indirect sw ino 18 ≠ indirect sw ino 19 ∧ ∀ k < 255, second sw disk ino k ≠ 0 →
    second sw disk ino k ≠ indirect sw ino 18 ∧ second sw disk ino k ≠ indirect sw ino 19

/-! ## What is asked of the two functions -/

end

/-! ## Single lookups -/

section
variable {sw : Bool} {disk : Disk} {ino : Dinode}

theorem getblkno_direct {num : Nat} (direct : num < 18) : getblkno sw disk ino num = swap16 sw (ino.i_addr num) :=
  if_pos direct

theorem getblkno_single {num : Nat} (low : 18 ≤ num) (high : num < 274) (some : indirect sw ino 18 ≠ 0) :
    getblkno sw disk ino num = swap16 sw (disk (indirect sw ino 18) (num - 18)) := by
  unfold getblkno
  rw [if_neg (by omega), if_pos (by omega)]
  exact if_neg some

theorem getblkno_single_none {num : Nat} (low : 18 ≤ num) (high : num < 274) (none : indirect sw ino 18 = 0) :
    getblkno sw disk ino num = 0 := by
  unfold getblkno
  rw [if_neg (by omega), if_pos (by omega)]
  exact if_pos none

theorem getblkno_double {num : Nat} (high : 274 ≤ num) (some : indirect sw ino 19 ≠ 0) :
    getblkno sw disk ino num = swap16 sw (disk (second sw disk ino ((num - 274) / 256)) ((num - 274) % 256)) := by
  unfold getblkno
  rw [if_neg (by omega), if_neg (by omega)]
  exact if_neg some

theorem getblkno_none {num : Nat} (high : 274 ≤ num) (none : indirect sw ino 19 = 0) :
    getblkno sw disk ino num = 0 := by
  unfold getblkno
  rw [if_neg (by omega), if_neg (by omega)]
  exact if_pos none

/-- A lookup depends on the inode and on its index blocks. -/
theorem getblkno_congr {disk' : Disk} {num : Nat}
    (single : 18 ≤ num → num < 274 → indirect sw ino 18 ≠ 0 →
      disk' (indirect sw ino 18) (num - 18) = disk (indirect sw ino 18) (num - 18))
    (double : 274 ≤ num → indirect sw ino 19 ≠ 0 → second sw disk' ino ((num - 274) / 256) =
      second sw disk ino ((num - 274) / 256) ∧
      disk' (second sw disk ino ((num - 274) / 256)) ((num - 274) % 256) =
        disk (second sw disk ino ((num - 274) / 256)) ((num - 274) % 256)) :
    getblkno sw disk' ino num = getblkno sw disk ino num := by
  by_cases direct : num < 18
  · rw [getblkno_direct direct, getblkno_direct direct]
  · by_cases low : num < 274
    · by_cases some : indirect sw ino 18 = 0
      · rw [getblkno_single_none (by omega) low some, getblkno_single_none (by omega) low some]
      · rw [getblkno_single (by omega) low some, getblkno_single (by omega) low some,
          single (by omega) low some]
    · by_cases some : indirect sw ino 19 = 0
      · rw [getblkno_none (by omega) some, getblkno_none (by omega) some]
      · obtain ⟨same, word⟩ := double (by omega) some
        rw [getblkno_double (by omega) some, getblkno_double (by omega) some, same, word]

/-! ## An update -/

theorem indexReads_single_none {num : Nat} (low : 18 ≤ num) (high : num < 274) (none : indirect sw ino 18 = 0) :
    indexReads sw disk ino num = [] := by
  unfold indexReads
  rw [if_neg (by omega), if_pos (by omega)]
  exact if_pos none

theorem indexReads_single {num : Nat} (low : 18 ≤ num) (high : num < 274) (some : indirect sw ino 18 ≠ 0) :
    indexReads sw disk ino num = [indirect sw ino 18] := by
  unfold indexReads
  rw [if_neg (by omega), if_pos (by omega)]
  exact if_neg some

theorem indexReads_none {num : Nat} (high : 274 ≤ num) (none : indirect sw ino 19 = 0) :
    indexReads sw disk ino num = [] := by
  unfold indexReads
  rw [if_neg (by omega), if_neg (by omega)]
  exact if_pos none

theorem indexReads_double {num : Nat} (high : 274 ≤ num) (some : indirect sw ino 19 ≠ 0) :
    indexReads sw disk ino num = [indirect sw ino 19, second sw disk ino ((num - 274) / 256)] := by
  unfold indexReads
  rw [if_neg (by omega), if_neg (by omega)]
  exact if_neg some

end

/-- A file with index blocks 10 and 11, for its blocks from 274 on. -/
def large : Dinode := fun k => if k = 31 then 10 else 0

end Fsck
