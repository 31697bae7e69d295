import Fuzix.DirectoryCalls

/-!
# Directories under `ch_link`

Every call of `ch_link` that starts without a pending error takes the table of the directory to the
one its answer announces, and `srch_dir` finds what the table holds.
-/

namespace Fuzix

open Wp Table Words

/-! ## The table after a write -/

section Entries
variable {b : Block} {k k' j ino : Nat} {name src : List UInt8}

theorem direct_length (name : List UInt8) (ino : Nat) : (direct name ino).length = DIR_LEN := by
  unfold direct
  rw [List.length_cons, List.length_cons, List.length_take, List.length_append, List.length_replicate]
  have size : FILENAME_LEN = 30 := rfl
  have long : DIR_LEN = 32 := rfl
  omega

theorem splice_here (long : src.length = DIR_LEN) (less : j < DIR_LEN) :
    splice b (32 * k) src (32 * k + j) = src.getD j 0 := by
  unfold splice
  rw [if_pos (by omega), Nat.add_sub_cancel_left]

theorem splice_other (long : src.length = DIR_LEN) (less : j < DIR_LEN) (other : k' ≠ k) :
    splice b (32 * k) src (32 * k' + j) = b (32 * k' + j) := by
  unfold splice
  refine if_neg ?_
  unfold DIR_LEN at *
  omega

theorem key_here (plain : PlainName name) :
    entryKey (entryName (splice b (32 * k) (direct name ino)) k) = nameKey name := by
  rw [← entryKey_direct plain ino]
  refine entryKey_congr ?_
  intro j less
  show splice b (32 * k) (direct name ino) (32 * k + 2 + j) = (direct name ino).getD (2 + j) 0
  rw [Nat.add_assoc]
  refine splice_here (direct_length name ino) ?_
  unfold FILENAME_LEN at less
  unfold DIR_LEN
  omega

theorem key_other (long : src.length = DIR_LEN) (other : k' ≠ k) :
    entryKey (entryName (splice b (32 * k) src) k') = entryKey (entryName b k') := by
  refine entryKey_congr ?_
  intro j less
  show splice b (32 * k) src (32 * k' + 2 + j) = b (32 * k' + 2 + j)
  rw [Nat.add_assoc]
  refine splice_other long ?_ other
  unfold FILENAME_LEN at less
  unfold DIR_LEN
  omega

theorem ino_here (small : ino < 65536) : entryIno (splice b (32 * k) (direct name ino)) k = ino := by
  have low := splice_here (b := b) (k := k) (j := 0) (direct_length name ino) (by decide)
  have high := splice_here (b := b) (k := k) (j := 1) (direct_length name ino) (by decide)
  have place : 2 * (16 * k) = 32 * k := by omega
  unfold entryIno word
  rw [place, high]
  rw [Nat.add_zero] at low
  rw [low]
  show (UInt8.ofNat ino).toNat + 256 * (UInt8.ofNat (ino / 256)).toNat = ino
  rw [UInt8.toNat_ofNat', UInt8.toNat_ofNat']
  omega

theorem ino_other (long : src.length = DIR_LEN) (other : k' ≠ k) :
    entryIno (splice b (32 * k) src) k' = entryIno b k' := by
  have low := splice_other (b := b) (j := 0) long (by decide) other
  have high := splice_other (b := b) (j := 1) long (by decide) other
  have place : 2 * (16 * k') = 32 * k' := by omega
  unfold entryIno word
  rw [place, high]
  rw [Nat.add_zero] at low
  rw [low]

end Entries

/-- The file keeps its blocks, their content and its size. -/
structure Unwritten (s t : Kernel) (wd : Nat) : Prop where
  addr : (t.itab wd).node.addr = (s.itab wd).node.addr
  size : (t.itab wd).node.size = (s.itab wd).node.size
  mode : (t.itab wd).node.mode = (s.itab wd).node.mode
  dev : (t.itab wd).dev = (s.itab wd).dev
  blocks : ∀ p b, BlockPath p → nodeAt s wd p = .block b → b ≠ 0 →
    t.disk (s.itab wd).dev b = s.disk (s.itab wd).dev b

theorem Unwritten.places {s t : Kernel} {wd : Nat} (aside : Unwritten s t wd) (q : List Nat) (valid : BlockPath q) :
    nodeAt t wd q = nodeAt s wd q := by
  have inode : ∀ k, entries (t.disk (s.itab wd).dev) (t.itab wd).node .inode k =
      entries (s.disk (s.itab wd).dev) (s.itab wd).node .inode k := by
    intro k
    show Node.block ((t.itab wd).node.addr k) = _
    rw [aside.addr]
    rfl
  unfold nodeAt
  rw [aside.dev]
  refine Trie.find_congr ?_
  intro p k above some
  change nodeAt s wd p ≠ _ at some
  change entries _ _ (nodeAt s wd p) k = entries _ _ (nodeAt s wd p) k
  cases here : nodeAt s wd p with
  | inode => exact inode k
  | block b =>
    have real : b ≠ 0 := by
      intro no
      rw [here, no] at some
      exact some rfl
    have same := aside.blocks p b (blockPath_init (blockPath_above valid above)) here real
    exact congrArg (fun y => Node.block (word y k)) same

theorem Unwritten.reads {s t : Kernel} {wd : Nat} (aside : Unwritten s t wd) : Reads s t wd := by
  have same : ∀ bn, mapped t wd bn = mapped s wd bn :=
    fun bn => congrArg Node.answer (aside.places _ (blockPath_pathOf bn))
  refine ⟨fun bn some => (same bn).symm ▸ some, ?_⟩
  intro bn _
  cases here : mapped s wd bn with
  | none => rw [fileBlock_gap here, fileBlock_gap ((same bn).trans here)]
  | some b =>
    obtain ⟨there, real⟩ := nodeAt_mapped here
    rw [fileBlock_mapped here, fileBlock_mapped ((same bn).trans here), aside.dev]
    exact aside.blocks _ b (blockPath_pathOf bn) there real

variable [Build]

section Table
variable {s t : Kernel} {wd m e e' ino : Nat} {bs bs' : List Nat} {foreign : Nat → Prop} {old new : List UInt8}
  {src : List UInt8}

omit [Build] in
theorem Entered.other (entered : Entered s t wd e src) (long : src.length = DIR_LEN) (small : e' < DIR_MAX)
    (other : e' ≠ e) : (dirSlots t wd).key e' = (dirSlots s wd).key e' ∧
      (dirSlots t wd).value e' = (dirSlots s wd).value e' := by
  have less : e' / 16 < 65536 := by
    have max : DIR_MAX = 1048576 := rfl
    omega
  have block := entered.blocks (e' / 16) less
  show entryKey (entryName (fileBlock t wd (e' / 16)) (e' % 16)) = entryKey (entryName (fileBlock s wd (e' / 16)) (e' % 16)) ∧
    entryIno (fileBlock t wd (e' / 16)) (e' % 16) = entryIno (fileBlock s wd (e' / 16)) (e' % 16)
  rw [block]
  by_cases same : e' / 16 = e / 16
  · rw [if_pos same]
    have apart : e' % 16 ≠ e % 16 := by omega
    exact ⟨key_other long apart, ino_other long apart⟩
  · rw [if_neg same]
    exact ⟨rfl, rfl⟩

omit [Build] in
theorem Entered.slot (entered : Entered s t wd e (direct new ino)) (small : e < DIR_MAX) (plain : PlainName new)
    (number : ino < 65536) : (dirSlots t wd).key e = nameKey new ∧ (dirSlots t wd).value e = ino := by
  have less : e / 16 < 65536 := by
    have max : DIR_MAX = 1048576 := rfl
    omega
  have block := entered.blocks (e / 16) less
  rw [if_pos rfl] at block
  show entryKey (entryName (fileBlock t wd (e / 16)) (e % 16)) = _ ∧ entryIno (fileBlock t wd (e / 16)) (e % 16) = _
  rw [block]
  exact ⟨key_here plain, ino_here number⟩

omit [Build] in
/-- How the size of a directory grows. -/
theorem padded_size {size : Nat} (whole : size % DIR_LEN = 0) (bounded : size ≤ 2 ^ BLKOVERSIZE)
    (start : e ≤ size / DIR_LEN) (small : e < DIR_MAX) :
    padded (max size (DIR_LEN * (e + 1))) % DIR_LEN = 0 ∧ padded (max size (DIR_LEN * (e + 1))) ≤ 2 ^ BLKOVERSIZE ∧
    (padded (max size (DIR_LEN * (e + 1))) + 511) / 512 = max ((size + 511) / 512) (e / 16 + 1) ∧
    size ≤ padded (max size (DIR_LEN * (e + 1))) ∧ e < padded (max size (DIR_LEN * (e + 1))) / DIR_LEN := by
  have far : 2 ^ BLKOVERSIZE = 33554432 := rfl
  have max : DIR_MAX = 1048576 := rfl
  unfold padded BLKSIZE
  rw [far] at bounded ⊢
  rw [max] at small
  unfold DIR_LEN at *
  split <;> omega

omit [Build] in
theorem count_le (bounded : (s.itab wd).node.size ≤ 2 ^ BLKOVERSIZE) : (dirSlots s wd).count ≤ DIR_MAX ∧
    (s.itab wd).node.size / DIR_LEN ≤ (dirSlots s wd).count := by
  have far : 2 ^ BLKOVERSIZE = 33554432 := rfl
  have max : DIR_MAX = 1048576 := rfl
  rw [far] at bounded
  rw [max]
  show 16 * (((s.itab wd).node.size + 511) / 512) ≤ _ ∧ _ ≤ 16 * (((s.itab wd).node.size + 511) / 512)
  unfold DIR_LEN
  omega

omit [Build] in
theorem Linked.mode (linked : Linked s t wd m foreign) : (t.itab wd).node.mode = (s.itab wd).node.mode := by
  obtain ⟨_, _, _, _, _, _, same⟩ := linked.inode
  rw [same]

/-- The write of an entry keeps the directory sound and stores the name in the table. -/
theorem DirLaid.entered (dir : DirLaid s wd m bs foreign) (laid' : Laid t wd m bs' foreign)
    (mode : (t.itab wd).node.mode = (s.itab wd).node.mode) (entry : Entered s t wd e (direct new ino))
    (size : (t.itab wd).node.size = padded (max (s.itab wd).node.size (DIR_LEN * (e + 1))))
    (start : e ≤ (s.itab wd).node.size / DIR_LEN) (small : e < DIR_MAX) (plain : PlainName new) (number : ino < 65536)
    (named : nameKey new ≠ [] → ino ≠ 0)
    (fresh : nameKey new ≠ [] → ∀ e' < (dirSlots s wd).count, e' ≠ e → (dirSlots s wd).key e' ≠ nameKey new) :
    DirLaid t wd m bs' foreign ∧ Slots.Stored [] (dirSlots s wd) (dirSlots t wd) e (nameKey new) ino := by
  obtain ⟨whole, bounded, blocks, grown, inside⟩ := padded_size dir.whole dir.bounded start small
  rw [← size] at whole bounded blocks grown inside
  obtain ⟨key, value⟩ := entry.slot small plain number
  have counts : (dirSlots t wd).count = 16 * max (dirBlocks s wd) (e / 16 + 1) := congrArg (16 * ·) blocks
  have count : (dirSlots s wd).count = 16 * dirBlocks s wd := rfl
  obtain ⟨few, short⟩ := count_le dir.bounded
  obtain ⟨few', short'⟩ := count_le bounded
  have stored : Slots.Stored [] (dirSlots s wd) (dirSlots t wd) e (nameKey new) ino := by
    refine ⟨by omega, by omega, key, fun _ => value, ?_, ?_⟩
    · intro e' less apart
      exact entry.other (direct_length new ino) (by omega) apart
    · intro e' past less apart
      rw [(entry.other (direct_length new ino) (by omega) apart).1]
      exact dir.blank e' (by omega) (by omega)
  refine ⟨{ laid' with
    directory := mode ▸ dir.directory, whole := whole, bounded := bounded, filled := ?_, blank := ?_,
    unique := stored.unique dir.unique fresh, live := ?_ }, stored⟩
  · intro bn less
    have less : bn < max (dirBlocks s wd) (e / 16 + 1) := blocks ▸ less
    by_cases old : bn < dirBlocks s wd
    · exact entry.stays bn (dir.filled bn old)
    · have last : bn = e / 16 := by omega
      rw [last]
      exact entry.here
  · intro e' past less
    have apart : e' ≠ e := by omega
    rw [(entry.other (direct_length new ino) less apart).1]
    exact dir.blank e' (Nat.le_trans (Nat.div_le_div_right grown) past) less
  · intro e' less used
    by_cases here : e' = e
    · rw [here] at used ⊢
      rw [key] at used
      rw [value]
      exact named used
    · by_cases old : e' < (dirSlots s wd).count
      · obtain ⟨same, same'⟩ := stored.others e' old here
        rw [same] at used
        rw [same']
        exact dir.live e' old used
      · exact absurd (stored.added e' (by omega) less here) used

omit [Build] in
/-- A file that reads as before holds the same entries. -/
theorem Reads.same (reads : Reads s t wd) (size : (t.itab wd).node.size = (s.itab wd).node.size)
    (few : (dirSlots s wd).count ≤ DIR_MAX) : Slots.Same (dirSlots s wd) (dirSlots t wd) := by
  have blocks : dirBlocks t wd = dirBlocks s wd := by
    unfold dirBlocks
    rw [size]
  refine ⟨congrArg (16 * ·) blocks, ?_⟩
  intro e less
  have max : DIR_MAX = 1048576 := rfl
  have block := reads.blocks (e / 16) (by omega)
  show entryKey (entryName (fileBlock t wd (e / 16)) (e % 16)) = entryKey (entryName (fileBlock s wd (e / 16)) (e % 16)) ∧
    entryIno (fileBlock t wd (e / 16)) (e % 16) = entryIno (fileBlock s wd (e / 16)) (e % 16)
  rw [block]
  exact ⟨rfl, rfl⟩

/-- A file that reads as before holds the same directory. -/
theorem DirLaid.reads (dir : DirLaid s wd m bs foreign) (laid' : Laid t wd m bs' foreign)
    (mode : (t.itab wd).node.mode = (s.itab wd).node.mode) (reads : Reads s t wd)
    (size : (t.itab wd).node.size = (s.itab wd).node.size) :
    DirLaid t wd m bs' foreign ∧ Slots.Same (dirSlots s wd) (dirSlots t wd) := by
  have blocks : dirBlocks t wd = dirBlocks s wd := by
    unfold dirBlocks
    rw [size]
  have same := reads.same size (count_le dir.bounded).1
  refine ⟨{ laid' with
    directory := mode ▸ dir.directory, whole := size ▸ dir.whole, bounded := size ▸ dir.bounded, filled := ?_,
    blank := ?_, unique := same.unique dir.unique, live := ?_ }, same⟩
  · intro bn less
    exact reads.stays bn (dir.filled bn (blocks ▸ less))
  · intro e past less
    have max : DIR_MAX = 1048576 := rfl
    have block := reads.blocks (e / 16) (by omega)
    show entryKey (entryName (fileBlock t wd (e / 16)) (e % 16)) = []
    rw [block]
    exact dir.blank e (size ▸ past) less
  · intro e less used
    have less : e < (dirSlots s wd).count := same.count ▸ less
    rw [(same.slots e less).1] at used
    rw [(same.slots e less).2]
    exact dir.live e less used

end Table

/-! ## The calls -/

/-- The number that goes in the entry. -/
def linkNumber (s : Kernel) (nindex : Option Nat) : Nat := (nindex.map fun i => (s.itab i).num).getD 0

/-- What the callers of `ch_link` see to: the names have no slash, only the empty name goes without
an inode, and a name that is not the old one is new. -/
structure Legal (s : Kernel) (wd : Nat) (old new : List UInt8) (nindex : Option Nat) : Prop where
  plain : PlainName old
  plain' : PlainName new
  number : linkNumber s nindex < 65536
  named : new ≠ [] → linkNumber s nindex ≠ 0
  fresh : new ≠ [] → nameKey new = nameKey old ∨ dirLookup s wd new = none

/-- What a call of `ch_link` leaves: the directory as it was, or the new name in an entry that had the old one. -/
structure Linking (s t : Kernel) (wd m : Nat) (foreign : Nat → Prop) (old new : List UInt8) (ino : Nat) (ok : Bool) :
    Prop where
  dir : ∃ bs', DirLaid t wd m bs' foreign
  linked : Linked s t wd m foreign
  fstab : ok = true → old ≠ [] → t.fstab = s.fstab
  kept : ok = false → t.u.error ≠ 0 ∧ Slots.Same (dirSlots s wd) (dirSlots t wd)
  stored : ok = true → t.u.error = 0 ∧ ∃ e, Slots.Stored [] (dirSlots s wd) (dirSlots t wd) e (nameKey new) ino ∧
    (nameKey new ≠ [] → ∀ e' < (dirSlots s wd).count, e' ≠ e → (dirSlots s wd).key e' ≠ nameKey new) ∧
    (if e < (dirSlots s wd).count then (dirSlots s wd).key e = nameKey old else nameKey old = [])

section Calls
variable {s : Kernel} {wd m e c o n : Nat} {bs : List Nat} {foreign : Nat → Prop} {stop : Stop → Prop}
  {old new : List UInt8} {nindex : Option Nat}

theorem DirLaid.putEntry (dir : DirLaid s wd m bs foreign) (sure : NoFaults s) (calm : s.u.error = 0)
    (start : e ≤ (s.itab wd).node.size / DIR_LEN) (back : (if c ≠ 0 then o - DIR_LEN else o) = DIR_LEN * e)
    {Q : Bool → Kernel → Prop}
    (refused : ∀ t bs', t.u.error ≠ 0 → Laid t wd m bs' foreign → Linked s t wd m foreign → Reads s t wd →
      (t.itab wd).node.size = (s.itab wd).node.size → Q false t)
    (entered : ∀ t bs', e < DIR_MAX → t.u.error = 0 → Laid t wd m bs' foreign → Linked s t wd m foreign →
      Entered s t wd e (direct new (linkNumber s nindex)) →
      (t.itab wd).node.size = padded (max (s.itab wd).node.size (DIR_LEN * (e + 1))) → Q true t) :
    wp stop (putEntry wd new nindex) Q (s.transfers c o n) := by
  have within : DIR_LEN * e ≤ (s.itab wd).node.size := by
    unfold DIR_LEN at *
    omega
  unfold Fuzix.putEntry
  rw [wp_bind, wp_transfers (a := c) (b := DIR_LEN * e) (by dsimp only; rw [back]), wp_bind,
    wp_transfers (a := DIR_LEN) (b := DIR_LEN * e) rfl, wp_bind, wp_get]
  dsimp only
  cases nindex
  all_goals
    rw [wp_bind]
    refine dir.toLaid.write_entry sure dir.directory (direct_length _ _) within ?_ ?_
    · intro t bs' error laid' linked reads size
      dsimp only
      rw [wp_bind, wp_get, if_pos error, wp_pure]
      exact refused t bs' error laid' linked reads size
    · intro t bs' small error laid' linked entry size
      dsimp only
      rw [wp_bind, wp_get, if_neg (fun no => no (error.trans calm)), wp_bind]
      refine wp_setftime ?_
      intro u dated
      rw [wp_bind]
      refine wp_padSize ?_
      intro v resized
      have both := dated.trans resized
      rw [dated.fields.2.1, size] at both
      rw [wp_pure]
      refine entered v bs' small ?_ (both.laid laid') (linked.trans both.linked) (entry.resized both) both.fields.2.1
      rw [both.user, error, calm]

/-- An early end of `ch_link`. -/
theorem DirLaid.linkFails (dir : DirLaid s wd m bs foreign) (err c o n : Nat) (real : err ≠ 0) (ino : Nat) :
    Linking s ((s.withU { s.u with error := err, count := c, offset := o }).spent n) wd m foreign old new ino false := by
  have laid' := (dir.toLaid.of_user { s.u with error := err, count := c, offset := o }).of_spent n
  obtain ⟨dir', same⟩ := dir.reads laid' rfl ⟨fun _ => id, fun _ _ => rfl⟩ rfl
  refine ⟨⟨bs, dir'⟩, .of_user rfl n, fun no => (by cases no), fun _ => ⟨?_, same⟩, fun no => (by cases no)⟩
  have error : ((s.withU { s.u with error := err, count := c, offset := o }).spent n).u.error = err :=
    congrArg Udata.error (withU_u (s := s))
  rw [error]
  exact real

/-- A call of `ch_link` without a pending error returns, and its answer tells whether the name is in the directory. -/
theorem DirLaid.chLink (dir : DirLaid s wd m bs foreign) (sure : NoFaults s) (calm : s.u.error = 0)
    (legal : Legal s wd old new nindex) :
    wp stop (chLink wd old new nindex) (fun ok t => Linking s t wd m foreign old new (linkNumber s nindex) ok) s := by
  unfold Fuzix.chLink
  rw [wp_bind, wp_get, wp_ite]
  refine ⟨fun _ => dir.linkFails EROFS s.u.count s.u.offset 0 (by decide) _, fun _ => ?_⟩
  rw [wp_ite]
  refine ⟨fun _ => dir.linkFails EACCES s.u.count s.u.offset 0 (by decide) _, fun _ => ?_⟩
  rw [wp_ite]
  refine ⟨fun _ => dir.linkFails EEXIST s.u.count s.u.offset 0 (by decide) _, fun _ => ?_⟩
  rw [wp_bind, wp_user]
  dsimp only
  -- what comes after the search, at the entry that will be written
  have write : ∀ e c o k, e ≤ (s.itab wd).node.size / DIR_LEN → (if c ≠ 0 then o - DIR_LEN else o) = DIR_LEN * e →
      (if e < (dirSlots s wd).count then (dirSlots s wd).key e = nameKey old else nameKey old = []) →
      (old ≠ [] → mapped s wd (e / 16) ≠ none) →
      wp stop (Fuzix.putEntry wd new nindex) (fun ok t => Linking s t wd m foreign old new (linkNumber s nindex) ok)
        (s.transfers c o k) := by
    intro e c o k start back was held
    refine dir.putEntry sure calm start back ?_ ?_
    · intro t bs' error laid' linked reads size
      obtain ⟨dir', same⟩ := dir.reads laid' linked.mode reads size
      exact ⟨⟨bs', dir'⟩, linked, fun no => (by cases no), fun _ => ⟨error, same⟩, fun no => (by cases no)⟩
    · intro t bs' small error laid' linked entry size
      have real : nameKey new ≠ [] → new ≠ [] := by
        intro named none'
        rw [none'] at named
        exact named rfl
      have fresh : nameKey new ≠ [] → ∀ e' < (dirSlots s wd).count, e' ≠ e → (dirSlots s wd).key e' ≠ nameKey new := by
        intro named e' less apart there
        rcases legal.fresh (real named) with same | absent
        · by_cases inside : e < (dirSlots s wd).count
          · rw [if_pos inside] at was
            rw [← there] at named
            exact apart (dir.unique e' e less inside (there.trans (same.trans was.symm)) named)
          · rw [if_neg inside] at was
            exact named (same.trans was)
        · rcases Slots.lookup_none.mp absent with no | no
          · exact named no
          · exact no e' less there
      obtain ⟨dir', stored⟩ := dir.entered laid' linked.mode entry size start small legal.plain' legal.number
        (fun named => legal.named (real named)) fresh
      exact ⟨⟨bs', dir'⟩, linked, fun _ named => entry.fstab (held named), fun no => (by cases no),
        fun _ => ⟨error, e, stored, fresh, was⟩⟩
  obtain ⟨few, short⟩ := count_le dir.bounded
  rw [wp_bind]
  refine dir.findEntry sure calm legal.plain (e := 0) (c := s.u.count) (n := 0) ?_ ?_ ?_ (Nat.zero_le _)
    (fun e' no => by omega) _
  · intro e k inside here
    rw [wp_bind, wp_get, transfers_u, wp_ite]
    refine ⟨fun no => (by cases no.1), fun _ => ?_⟩
    refine write e _ _ k (Nat.le_of_lt inside) ?_ ?_ ?_
    · rw [if_pos (by decide)]
      rfl
    · rw [if_pos (by omega)]
      exact here
    · intro _
      refine dir.filled _ ?_
      have counts : (dirSlots s wd).count = 16 * dirBlocks s wd := rfl
      omega
  · intro k missed
    rw [wp_bind, wp_get, transfers_u, wp_ite]
    constructor
    · rintro -
      rw [wp_bind, wp_setError, wp_pure, withError_eq, transfers_u, withU_transfers]
      exact dir.linkFails ENOENT 0 (s.itab wd).node.size k (by decide) _
    · intro found
      have none' : old = [] := by
        by_contra no
        exact found ⟨rfl, no⟩
      refine write ((s.itab wd).node.size / DIR_LEN) _ _ k (Nat.le_refl _) ?_ ?_ (fun named => absurd none' named)
      · rw [if_neg (fun no => no rfl)]
        have whole := dir.whole
        unfold DIR_LEN at *
        omega
      · rw [none']
        split
        · exact dir.blank _ (Nat.le_refl _) (by omega)
        · rfl
  · rw [Nat.sub_zero, Nat.add_assoc]
    exact Nat.lt_add_of_pos_right (by omega)

end Calls

/-! ## Runs -/

/-- A call of `ch_link` with its answer, and the number it enters. -/
structure LinkCall where
  old : List UInt8
  new : List UInt8
  number : Nat
  ok : Bool

/-- What the call does to a map from names to numbers. -/
def LinkCall.apply (map : List UInt8 → Option Nat) (c : LinkCall) : List UInt8 → Option Nat := fun name =>
  if c.ok = false then map name
  else if name = nameKey c.new ∧ nameKey c.new ≠ [] then some c.number
  else if name = nameKey c.old then none
  else map name

/-- The kernel works on other files: the directory stays where it is, and so do its blocks. -/
structure Elsewhere (s t : Kernel) (wd m : Nat) (foreign : Nat → Prop) : Prop extends Unwritten s t wd where
  laid : ∃ bs, Laid t wd m bs foreign

/-- A run of calls of `ch_link` on the directory, none with a pending error and no transfer failing. -/
inductive Links (wd m : Nat) (foreign : Nat → Prop) : Kernel → List LinkCall → Kernel → Prop where
  | done (s : Kernel) : Links wd m foreign s [] s
  | elsewhere {s t u : Kernel} {calls : List LinkCall} (aside : Elsewhere s t wd m foreign)
      (rest : Links wd m foreign t calls u) : Links wd m foreign s calls u
  | call {s t u : Kernel} {calls : List LinkCall} {old new : List UInt8} {nindex : Option Nat} {ok : Bool}
      (sure : NoFaults s) (calm : s.u.error = 0) (legal : Legal s wd old new nindex)
      (ran : chLink wd old new nindex s = .ok (ok, t)) (rest : Links wd m foreign t calls u) :
      Links wd m foreign s (⟨old, new, linkNumber s nindex, ok⟩ :: calls) u

/-- The directory is this map: no name is in two entries, and `srch_dir` opens what the map holds. -/
structure IsMap (s : Kernel) (wd m : Nat) (foreign : Nat → Prop) (map : List UInt8 → Option Nat) : Prop where
  dir : ∃ bs, DirLaid s wd m bs foreign
  names : ∀ name, (dirSlots s wd).lookup [] name = map name
  found : NoFaults s → ∀ name, PlainName name → name ≠ [] →
    ∃ n, srchDir wd name s = opened (s.itab wd).dev (map (nameKey name)) (s.spent n)
  number : NoFaults s → ∀ name, PlainName name → name ≠ [] → ∀ i t, srchDir wd name s = .ok (some i, t) →
    ∃ ino, map (nameKey name) = some ino ∧ (t.itab i).num = ino

section Runs
variable {s t : Kernel} {wd m : Nat} {bs : List Nat} {foreign : Nat → Prop} {map : List UInt8 → Option Nat}
  {old new : List UInt8} {ino : Nat} {ok : Bool} {calls : List LinkCall}

theorem DirLaid.isMap (dir : DirLaid s wd m bs foreign) : IsMap s wd m foreign ((dirSlots s wd).lookup []) := by
  refine ⟨⟨bs, dir⟩, fun _ => rfl, fun sure name plain real => dir.srchDir sure plain real, ?_⟩
  intro sure name plain real i t ran
  obtain ⟨n, found⟩ := dir.srchDir sure plain real
  rw [found] at ran
  have live : dirLookup s wd name ≠ some 0 := by
    intro zero
    obtain ⟨used, e, less, here, value⟩ := (Slots.lookup_some dir.unique).mp zero
    exact dir.live e less (here ▸ used) value
  obtain ⟨ino, same, -, number⟩ := opened_names ran live
  exact ⟨ino, same, number⟩

omit [Build] in
theorem IsMap.congr [Build] {map' : List UInt8 → Option Nat} (is : IsMap s wd m foreign map)
    (same : ∀ name, map' name = map name) : IsMap s wd m foreign map' := by
  have equal : map' = map := funext same
  rw [equal]
  exact is

/-- One call takes the map to the one that its answer announces. -/
theorem IsMap.call (is : IsMap s wd m foreign map) (linking : Linking s t wd m foreign old new ino ok) :
    IsMap t wd m foreign (LinkCall.apply map ⟨old, new, ino, ok⟩) := by
  obtain ⟨bs, dir⟩ := is.dir
  obtain ⟨bs', dir'⟩ := linking.dir
  refine dir'.isMap.congr ?_
  intro name
  cases ok with
  | false =>
    obtain ⟨-, same⟩ := linking.kept rfl
    rw [same.lookup, is.names]
    rfl
  | true =>
    obtain ⟨-, e, stored, fresh, was⟩ := linking.stored rfl
    rw [stored.lookup dir.unique fresh was, is.names]
    rfl

theorem IsMap.elsewhere (is : IsMap s wd m foreign map) (aside : Elsewhere s t wd m foreign) : IsMap t wd m foreign map := by
  obtain ⟨bs, dir⟩ := is.dir
  obtain ⟨bs', laid⟩ := aside.laid
  obtain ⟨dir', same⟩ := dir.reads laid aside.mode aside.reads aside.size
  refine dir'.isMap.congr ?_
  intro name
  rw [same.lookup, is.names]

theorem Links.isMap (run : Links wd m foreign s calls t) (is : IsMap s wd m foreign map) :
    IsMap t wd m foreign (calls.foldl LinkCall.apply map) := by
  induction run generalizing map with
  | done s => exact is
  | elsewhere aside rest ih => exact ih (is.elsewhere aside)
  | call sure calm legal ran rest ih =>
    obtain ⟨bs, dir⟩ := is.dir
    have linking := wp_every (fun _ => dir.chLink sure calm legal) ran
    exact ih (is.call linking)

/-- Over every run of calls of `ch_link` the directory is the map that the answers announce, and one
more call returns, changes one entry at most, and none when it fails. -/
theorem directory_map (dir : DirLaid s wd m bs foreign) (run : Links wd m foreign s calls t) :
    IsMap t wd m foreign (calls.foldl LinkCall.apply ((dirSlots s wd).lookup [])) ∧
      ∀ old new nindex, NoFaults t → t.u.error = 0 → Legal t wd old new nindex →
        ∃ ok u, chLink wd old new nindex t = .ok (ok, u) ∧
          Linking t u wd m foreign old new (linkNumber t nindex) ok := by
  have is := run.isMap dir.isMap
  refine ⟨is, ?_⟩
  intro old new nindex sure calm legal
  obtain ⟨bs', dir'⟩ := is.dir
  exact wp_returns (dir'.chLink sure calm legal)

end Runs

/-! ## An empty directory -/

/-- Inode 0 is a directory with the block 10, which is clear, and inode 1 has number 2. The process
may have an error pending. -/
def bareDir (error : Nat) : Kernel :=
  { oneFile with
    itab := fun i => if i = 0 then
        { oneNode with node := { oneNode.node with
          mode := F_DIR + 0o777
          size := 512
          addr := fun k => if k = 0 then 10 else 0 } }
      else oneNode
    fstab := fun _ => ⟨0, false, false, { Filesys.load zeroBlock with
      mounted := SMOUNTED, isize := 4, fsize := 20, nfree := 1 }⟩
    ptab := fun _ => ⟨.live, 0, false, none, { oneUser with error := error }⟩ }

section Bare
variable {error : Nat}

omit [Build] in
theorem bareDir_dir (error : Nat) : @DirLaid tiny (bareDir error) 0 0 [] fun _ => False := by
  let _ := tiny
  have chain : Chain.Yields FILESYS_TABSIZE 0 (fun j => chainBatch ((bareDir error).disk 0 j))
      ((bareDir error).fstab 0).fs.batch [] := .done Nat.one_pos (Nat.le_add_left 1 49) rfl
  have laid : Laid (bareDir error) 0 0 [] fun _ => False := by
    refine laid_single (b := 10) (j := 0) rfl ⟨rfl, chain, ?_, List.nodup_nil, rfl⟩ (Nat.le_add_left 1 3)
      (by show 20 < 65536; decide) (fun _ _ => rfl) (fun no => (by omega)) ⟨Nat.le_add_left 4 6, Nat.le_add_left 11 9⟩
      (by simp) (fun no => no) ?_
    all_goals
      intro b no
      cases no
  have blank : ∀ e, (dirSlots (bareDir error) 0).key e = [] := by
    intro e
    have clear : fileBlock (bareDir error) 0 (e / 16) = zeroBlock := by
      cases here : mapped (bareDir error) 0 (e / 16) with
      | none => exact fileBlock_gap here
      | some b => exact fileBlock_mapped here
    show entryKey (entryName (fileBlock (bareDir error) 0 (e / 16)) (e % 16)) = []
    rw [clear]
    rfl
  refine laid.single_dir (b := 10) (by show fmt (F_DIR + 0o777) = F_DIR; rfl) rfl (fun _ _ => rfl) (by decide) ?_ ?_
  · intro e e' _ _ _ used
    exact absurd (blank e) used
  · intro e _ used
    exact absurd (blank e) used

omit [Build] in
set_option maxRecDepth 10000 in
/-- The name `a` is entered. -/
theorem directory_map_entered : ∃ t, @Links tiny 0 0 (fun _ => False) (bareDir 0) [⟨[], [0x61], 2, true⟩] t ∧
    @IsMap tiny t 0 0 (fun _ => False)
      ([⟨[], [0x61], 2, true⟩].foldl LinkCall.apply ((dirSlots (bareDir 0) 0).lookup [])) := by
  let _ := tiny
  have ran : ∃ t, @chLink tiny 0 [] [0x61] (some 1) (bareDir 0) = .ok (true, t) := ⟨_, rfl⟩
  obtain ⟨t, ran⟩ := ran
  have legal : Legal (bareDir 0) 0 [] [0x61] (some 1) := by
    refine ⟨by decide, by decide, by decide, fun _ => by decide, fun _ => Or.inr rfl⟩
  have run : Links 0 0 (fun _ => False) (bareDir 0) [⟨[], [0x61], 2, true⟩] t :=
    .call (fun _ => ⟨rfl, rfl⟩) rfl legal ran (.done t)
  exact ⟨t, run, (directory_map (bareDir_dir 0) run).1⟩

omit [Build] in
set_option maxRecDepth 10000 in
/-- With an error pending the call fails, and the name is in the directory. -/
theorem link_fails_entered : ∃ (_ : Build) (s t : Kernel), DirLaid s 0 0 [] (fun _ => False) ∧ NoFaults s ∧
    chLink 0 [] [0x61] (some 1) s = .ok (false, t) ∧ dirLookup s 0 [0x61] = none ∧ dirLookup t 0 [0x61] = some 2 :=
  ⟨tiny, bareDir EIO, _, bareDir_dir EIO, fun _ => ⟨rfl, rfl⟩, rfl, rfl, rfl⟩

end Bare

end Fuzix
