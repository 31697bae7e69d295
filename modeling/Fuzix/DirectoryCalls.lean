import Mathlib.Data.List.GetD
import Fuzix.Directory

/-!
# Changes of a directory

`ch_link` searches the entries of a directory for the old name and writes the new one there, or
behind the last entry.
-/

namespace Fuzix

open Wp Table Words

/-! ## Data blocks -/

section Leaves
variable {s t : Kernel} {ip m b bn k : Nat} {p q : List Nat} {bs : List Nat} {foreign : Nat → Prop}

theorem blockPath_above (valid : BlockPath q) (h : p <+: q) : BlockPath p := by
  obtain ⟨tail, join⟩ := h
  rw [← join] at valid
  clear join
  induction tail using List.reverseRecOn with
  | nil =>
    rw [List.append_nil] at valid
    exact valid
  | append_singleton tail k ih =>
    rw [← List.append_assoc] at valid
    exact ih (blockPath_init valid)

theorem leaf_pathOf (bn : Nat) : Leaf (pathOf bn) := by
  refine ⟨blockPath_pathOf bn, ?_⟩
  intro k valid
  unfold pathOf at valid
  split_ifs at valid
  · have deep : 1 ≤ bn - 17 := valid.2.1
    omega
  · have deep : 2 ≤ 18 - 17 := valid.2.1
    omega
  · have deep : 3 ≤ 19 - 17 := valid.2.1
    omega

variable [Build]

/-- The tree of a file is the same where its inode and its index blocks are. -/
theorem Laid.congr (laid : Laid s ip m bs foreign) (dev : (t.itab ip).dev = (s.itab ip).dev)
    (places : ∀ q, BlockPath q → nodeAt t ip q = nodeAt s ip q) (fstab : t.fstab = s.fstab)
    (links : ∀ a ∈ bs, t.disk (s.itab ip).dev a = s.disk (s.itab ip).dev a) : Laid t ip m bs foreign := by
  refine ⟨?_, ?_, ?_, ?_, ?_, ?_, ?_, laid.spare⟩
  · unfold fsTabGet
    rw [fstab, dev]
    exact laid.found
  · rw [fstab]
    exact laid.mounted
  · rw [fstab, dev]
    intro good
    exact (laid.pool good).congr rfl rfl rfl rfl rfl links
  · rw [fstab]
    exact laid.low
  · rw [fstab]
    exact laid.high
  · intro p q valid valid' same real
    have same' : nodeAt t ip p = nodeAt t ip q := same
    have real' : nodeAt t ip p ≠ .block 0 := real
    rw [places p valid] at same' real'
    rw [places q valid'] at same'
    exact laid.apart p q valid valid' same' real'
  · intro p b valid here real
    rw [fstab]
    exact laid.inside p b valid ((places p valid).symm.trans here) real

/-- A write to a data block leaves the tree. -/
theorem Laid.write_leaf (laid : Laid s ip m bs foreign) (here : nodeAt s ip p = .block b) (real : b ≠ 0)
    (leaf : Leaf p) (x : Block) : Laid (s.wrote (s.itab ip).dev b x) ip m bs foreign ∧
      ∀ q, BlockPath q → nodeAt (s.wrote (s.itab ip).dev b x) ip q = nodeAt s ip q := by
  have other : ∀ c, c ≠ b → (s.wrote (s.itab ip).dev b x).disk (s.itab ip).dev c = s.disk (s.itab ip).dev c :=
    fun c apart => put₂_ne _ _ fun no => apart no.2
  have places : ∀ q, BlockPath q → nodeAt (s.wrote (s.itab ip).dev b x) ip q = nodeAt s ip q := by
    intro q valid
    refine Trie.find_congr ?_
    intro p' k above some
    change nodeAt s ip p' ≠ _ at some
    change entries _ _ (nodeAt s ip p') k = entries _ _ (nodeAt s ip p') k
    cases there : nodeAt s ip p' with
    | inode => rfl
    | block c =>
      -- an index block is not the data block
      have apart : c ≠ b := by
        intro same
        have only := laid.apart p' p (blockPath_init (blockPath_above valid above)) leaf.1
          ((there.trans (congrArg Node.block same)).trans here.symm) some
        exact leaf.2 k (only ▸ blockPath_above valid above)
      exact congrArg (fun y => Node.block (word y k)) (other c apart)
  refine ⟨laid.congr rfl places rfl ?_, places⟩
  intro a member
  refine other a fun same => ?_
  exact (laid.inside p b leaf.1 here real).2.1 (same ▸ member)

omit [Build] in
theorem nodeAt_mapped (here : mapped s ip bn = some b) : nodeAt s ip (pathOf bn) = .block b ∧ b ≠ 0 := block_of_answer here

omit [Build] in
theorem nodeAt_gap (none' : mapped s ip bn = none) : nodeAt s ip (pathOf bn) = .block 0 := by
  refine null_of_answer ?_ none'
  unfold pathOf
  split_ifs <;> exact List.cons_ne_nil _ _

omit [Build] in
theorem Grows.mapped {path : List Nat} (grows : Grows s t ip m foreign path) (here : mapped s ip bn = some b) :
    Fuzix.mapped t ip bn = some b := by
  obtain ⟨there, real⟩ := nodeAt_mapped here
  have some : nodeAt s ip (pathOf bn) ≠ .block 0 := by
    rw [there]
    intro no
    injection no with no
    exact real no
  exact (congrArg Node.answer (grows.stays _ (blockPath_pathOf bn) some)).trans here

omit [Build] in
/-- A new block of a file reads as the gap that was there. -/
theorem Grows.fileBlock {path : List Nat} (grows : Grows s t ip m foreign path) (bn : Nat) :
    fileBlock t ip bn = Fuzix.fileBlock s ip bn := by
  cases here : Fuzix.mapped s ip bn with
  | some b =>
    obtain ⟨there, real⟩ := nodeAt_mapped here
    rw [fileBlock_mapped (grows.mapped here), fileBlock_mapped here, grows.dev]
    exact grows.data _ b (leaf_pathOf bn) there real
  | none =>
    rw [fileBlock_gap here]
    cases after : Fuzix.mapped t ip bn with
    | none => exact fileBlock_gap after
    | some b =>
      obtain ⟨there, real⟩ := nodeAt_mapped after
      rw [fileBlock_mapped after, grows.dev]
      exact grows.blank _ b (leaf_pathOf bn) (nodeAt_gap here) there real

/-- What the file holds after a write to one of its blocks. -/
theorem Laid.write_block (laid : Laid s ip m bs foreign) (small : bn < 65536) (here : mapped s ip bn = some b) (x : Block) :
    Laid (s.wrote (s.itab ip).dev b x) ip m bs foreign ∧
      (∀ bn', mapped (s.wrote (s.itab ip).dev b x) ip bn' = mapped s ip bn') ∧
      ∀ bn' < 65536, fileBlock (s.wrote (s.itab ip).dev b x) ip bn' = if bn' = bn then x else fileBlock s ip bn' := by
  obtain ⟨there, real⟩ := nodeAt_mapped here
  obtain ⟨laid', places⟩ := laid.write_leaf there real (leaf_pathOf bn) x
  have same : ∀ bn', mapped (s.wrote (s.itab ip).dev b x) ip bn' = mapped s ip bn' :=
    fun bn' => congrArg Node.answer (places _ (blockPath_pathOf bn'))
  refine ⟨laid', same, ?_⟩
  intro bn' small'
  by_cases this : bn' = bn
  · rw [if_pos this, this, fileBlock_mapped ((same bn).trans here)]
    exact put₂_same _ _ _ _
  · rw [if_neg this]
    cases here' : mapped s ip bn' with
    | none => rw [fileBlock_gap here', fileBlock_gap ((same bn').trans here')]
    | some b' =>
      rw [fileBlock_mapped here', fileBlock_mapped ((same bn').trans here')]
      refine put₂_ne _ _ fun no => ?_
      exact laid.distinct bn' small' bn small this b' here' (no.2 ▸ here)

end Leaves

/-! ## The transfer fields of a process -/

def Kernel.withU (s : Kernel) (u : Udata) : Kernel := { s with ptab := put s.ptab s.cur { s.ptab s.cur with u := u } }

/-- A transfer of `count` bytes from `offset` on, after `n` transfers of blocks. -/
def Kernel.transfers (s : Kernel) (count offset n : Nat) : Kernel :=
  (s.withU { s.u with count := count, offset := offset }).spent n

section Users
variable {s : Kernel} {u v : Udata} {c o n : Nat} {stop : Stop → Prop}

@[simp] theorem withU_u : (s.withU u).u = u := by
  unfold Kernel.withU Kernel.u
  dsimp only
  rw [put_same]

@[simp] theorem withU_withU : (s.withU u).withU v = s.withU v := by
  unfold Kernel.withU
  dsimp only
  rw [put_same, put_put]

@[simp] theorem spent_withU : (s.spent n).withU u = (s.withU u).spent n := rfl

theorem withError_eq {e : Nat} : s.withError e = s.withU { s.u with error := e } := rfl

theorem wp_user (f : Udata → Udata) (Q : Unit → Kernel → Prop) : wp stop (modifyU f) Q s ↔ Q () (s.withU (f s.u)) :=
  Iff.rfl

@[simp] theorem transfers_u : (s.transfers c o n).u = { s.u with count := c, offset := o } := withU_u

@[simp] theorem transfers_itab : (s.transfers c o n).itab = s.itab := rfl

theorem withU_transfers : (s.transfers c o n).withU u = (s.withU u).spent n := by
  unfold Kernel.transfers
  rw [spent_withU, withU_withU]

/-- A change of the transfer fields alone. -/
theorem wp_transfers {f : Udata → Udata} {a b : Nat}
    (same : f { s.u with count := c, offset := o } = { s.u with count := a, offset := b }) (Q : Unit → Kernel → Prop) :
    wp stop (modifyU f) Q (s.transfers c o n) ↔ Q () (s.transfers a b n) := by
  rw [wp_user, transfers_u, same, withU_transfers]
  exact Iff.rfl

theorem transfers_spent {k : Nat} : (s.transfers c o n).spent k = s.transfers c o (n + k) := by
  unfold Kernel.transfers
  rw [spent_spent]

end Users

variable [Build]

/-! ## The search for an entry -/

/-- The 32 bytes of an entry. -/
def entryBytes (s : Kernel) (wd e : Nat) : List UInt8 := bytes (fileBlock s wd (e / 16)) (32 * (e % 16)) DIR_LEN

section Searching
variable {s : Kernel} {wd m e c n : Nat} {bs : List Nat} {foreign : Nat → Prop} {stop : Stop → Prop}

omit [Build] in
/-- The name that is compared is the one in the entry. -/
theorem entryKey_read (s : Kernel) (wd e : Nat) (rest : List UInt8) :
    entryKey (directName (entryBytes s wd e ++ rest)) = (dirSlots s wd).key e := by
  refine entryKey_congr ?_
  intro j less
  have size : FILENAME_LEN = 30 := rfl
  have long : DIR_LEN = 32 := rfl
  have inside : 2 + j < (entryBytes s wd e).length := by
    unfold entryBytes bytes
    rw [List.length_map, List.length_range]
    omega
  show (entryBytes s wd e ++ rest).getD (2 + j) 0 = fileBlock s wd (e / 16) (32 * (e % 16) + 2 + j)
  rw [List.getD_append _ _ _ _ inside, ← List.getElem_eq_getD (h := inside)]
  simp only [entryBytes, bytes, List.getElem_map, List.getElem_range, Nat.add_assoc]

theorem Laid.of_transfers (laid : Laid s wd m bs foreign) (c o n : Nat) : Laid (s.transfers c o n) wd m bs foreign :=
  laid.of_same rfl rfl rfl rfl laid.found laid.mounted laid.pool

/-- The block number that `bmap` returns is not the null block. -/
theorem Laid.mapped_ne {bn b : Nat} (laid : Laid s wd m bs foreign) (here : mapped s wd bn = some b) : b ≠ NULLBLK := by
  obtain ⟨there, real⟩ := nodeAt_mapped here
  have inside := (laid.inside _ b (blockPath_pathOf bn) there real).1.2
  have high := laid.high
  intro no
  rw [no] at inside
  have last : NULLBLK = 65535 := rfl
  omega

omit [Build] in
theorem chunk_entry (e : Nat) : chunk DIR_LEN (DIR_LEN * e) = DIR_LEN := by
  have size : BLKSIZE = 512 := rfl
  have long : DIR_LEN = 32 := rfl
  unfold chunk
  rw [size, long]
  omega

omit [Build] in
/-- An entry before the end of the directory. -/
theorem entry_inside {size : Nat} (whole : size % DIR_LEN = 0) (bounded : size ≤ 2 ^ BLKOVERSIZE)
    (less : e < size / DIR_LEN) : ¬ size ≤ DIR_LEN * e ∧ min DIR_LEN (size - DIR_LEN * e) = DIR_LEN ∧
      e / 16 < (size + 511) / 512 ∧ e < DIR_MAX := by
  have far : 2 ^ BLKOVERSIZE = 33554432 := rfl
  have max : DIR_MAX = 1048576 := rfl
  unfold DIR_LEN at *
  omega

omit [Build] in
theorem offset_entry (small : e < DIR_MAX) : DIR_LEN * e / BLKSIZE % 65536 = e / 16 ∧ DIR_LEN * e % BLKSIZE = 32 * (e % 16) := by
  have size : BLKSIZE = 512 := rfl
  have long : DIR_LEN = 32 := rfl
  have max : DIR_MAX = 1048576 := rfl
  rw [size, long]
  omega

theorem readLoop_done {i dev rounds : Nat} {ispipe : Bool} {data : List UInt8} :
    readLoop i dev ispipe rounds 0 data = pure (0, data) := by
  cases rounds with
  | zero => rfl
  | succ rounds =>
    unfold readLoop
    exact if_pos rfl

/-- The limit of a read of the directory. -/
theorem wp_readi {o : Nat} (directory : fmt (s.itab wd).node.mode = F_DIR) {Q : Xfer → Kernel → Prop} :
    wp stop (readi wd false) Q (s.transfers c o n) ↔ wp stop (readBlocks wd (s.itab wd).dev false) Q
      (s.transfers (if (s.itab wd).node.size ≤ o then 0 else min c ((s.itab wd).node.size - o)) o n) := by
  unfold readi fileLimit
  rw [wp_bind, wp_get, transfers_itab]
  dsimp only
  rw [if_pos (Or.inl directory), wp_bind, wp_bind, wp_get, wp_transfers rfl]
  rfl

/-- One chunk is the whole entry. -/
theorem DirLaid.read_chunk (dir : DirLaid s wd m bs foreign) (sure : NoFaults s)
    (inside : e < (s.itab wd).node.size / DIR_LEN) {Q : Nat × List UInt8 → Kernel → Prop}
    (post : ∀ k, Q (0, entryBytes s wd e) (s.transfers DIR_LEN (DIR_LEN * (e + 1)) k)) (rounds : Nat) :
    wp stop (readLoop wd (s.itab wd).dev false (rounds + 1) DIR_LEN []) Q (s.transfers DIR_LEN (DIR_LEN * e) n) := by
  obtain ⟨more, limit, block, small⟩ := entry_inside dir.whole dir.bounded inside
  obtain ⟨b, here⟩ := Option.ne_none_iff_exists'.mp (dir.filled _ block)
  obtain ⟨index, start⟩ := offset_entry small
  have pages : mapped (s.transfers DIR_LEN (DIR_LEN * e) n) wd (e / 16) = some b := here
  obtain ⟨k, looked⟩ : ∃ k, bmap wd (e / 16) true (s.transfers DIR_LEN (DIR_LEN * e) n) = .ok (_, _) :=
    bmap_look (s := s.transfers DIR_LEN (DIR_LEN * e) n) (sure.of_io rfl) (isBdev_directory dir.directory) (Or.inr rfl)
  rw [pages, transfers_spent] at looked
  have read := bread_sure (s := s.transfers DIR_LEN (DIR_LEN * e) (n + k)) (sure.of_io rfl) (s.itab wd).dev b
  rw [transfers_spent] at read
  unfold readLoop
  rw [if_neg (by decide), wp_bind, wp_get, transfers_u]
  dsimp only
  rw [index, start, chunk_entry, wp_bind, wp_returned looked]
  rw [Option.getD_some, if_neg (dir.toLaid.mapped_ne here), wp_bind, wp_returned read]
  dsimp only
  unfold advance
  rw [wp_bind, wp_transfers (a := DIR_LEN) (b := DIR_LEN * (e + 1)) rfl, wp_bind, wp_onlyIf]
  refine ⟨fun no => (by cases no), fun _ => ?_⟩
  rw [Nat.sub_self, readLoop_done, wp_pure]
  have same := post (n + k + 1)
  unfold entryBytes at same
  rw [fileBlock_mapped here] at same
  exact same

theorem wp_settleCount {left : Nat} {Q : Unit → Kernel → Prop} {o : Nat} :
    wp stop (settleCount left) Q (s.transfers c o n) ↔
      Q () (s.transfers (if c - left = 0 ∧ s.u.error ≠ 0 then minusOne else c - left) o n) := by
  unfold settleCount
  rw [wp_bind, wp_get, transfers_u, wp_transfers rfl]

/-- `readi` of an entry of the directory. -/
theorem DirLaid.read_entry (dir : DirLaid s wd m bs foreign) (sure : NoFaults s)
    (inside : e < (s.itab wd).node.size / DIR_LEN) {Q : Xfer → Kernel → Prop}
    (post : ∀ k, Q (.done (entryBytes s wd e)) (s.transfers DIR_LEN (DIR_LEN * (e + 1)) k)) :
    wp stop (readi wd false) Q (s.transfers DIR_LEN (DIR_LEN * e) n) := by
  obtain ⟨more, limit, -⟩ := entry_inside dir.whole dir.bounded inside
  rw [wp_readi dir.directory, if_neg more, limit]
  unfold readBlocks
  rw [wp_bind, wp_get, wp_bind, transfers_u]
  refine dir.read_chunk sure inside ?_ 31
  intro k
  rw [wp_bind, wp_settleCount, if_neg (fun no => by cases no.1), wp_pure]
  exact post k

/-- `readi` at the end of the directory. -/
theorem DirLaid.read_end (dir : DirLaid s wd m bs foreign) (calm : s.u.error = 0) {Q : Xfer → Kernel → Prop}
    (post : Q (.done []) (s.transfers 0 (s.itab wd).node.size n)) :
    wp stop (readi wd false) Q (s.transfers DIR_LEN (s.itab wd).node.size n) := by
  rw [wp_readi dir.directory, if_pos (Nat.le_refl _)]
  unfold readBlocks
  rw [wp_bind, wp_get, wp_bind, transfers_u]
  dsimp only
  rw [readLoop_done, wp_pure, wp_bind, wp_settleCount, if_neg (fun no => no.2 calm), wp_pure]
  exact post

/-- The search stops at an entry with the name, or behind the last one. -/
theorem DirLaid.findEntry (dir : DirLaid s wd m bs foreign) (sure : NoFaults s) (calm : s.u.error = 0)
    {old : List UInt8} (plain : PlainName old) {Q : Unit → Kernel → Prop}
    (hit : ∀ e k, e < (s.itab wd).node.size / DIR_LEN → (dirSlots s wd).key e = nameKey old →
      Q () (s.transfers DIR_LEN (DIR_LEN * (e + 1)) k))
    (missed : ∀ k, (∀ e < (s.itab wd).node.size / DIR_LEN, (dirSlots s wd).key e ≠ nameKey old) →
      Q () (s.transfers 0 (s.itab wd).node.size k))
    {rounds : Nat} (enough : (s.itab wd).node.size / DIR_LEN - e < rounds) (start : e ≤ (s.itab wd).node.size / DIR_LEN)
    (before : ∀ e' < e, (dirSlots s wd).key e' ≠ nameKey old) (entry : List UInt8) :
    wp stop (findEntry wd old rounds entry) Q (s.transfers c (DIR_LEN * e) n) := by
  induction rounds generalizing e c n entry with
  | zero => omega
  | succ rounds ih =>
    unfold Fuzix.findEntry
    rw [wp_bind, wp_transfers (a := DIR_LEN) (b := DIR_LEN * e) rfl, wp_bind]
    by_cases inside : e < (s.itab wd).node.size / DIR_LEN
    · refine dir.read_entry sure inside ?_
      intro k
      dsimp only
      rw [wp_bind, wp_get, transfers_u, wp_ite]
      constructor
      · rintro (no | same)
        · cases no
        · rw [namecomp_iff plain, entryKey_read] at same
          exact hit e k inside same
      · intro other
        refine ih (by omega) (by omega) ?_ _
        intro e' less same
        by_cases last : e' = e
        · refine other (Or.inr ?_)
          rw [namecomp_iff plain, entryKey_read, ← last]
          exact same
        · exact before e' (by omega) same
    · have last : DIR_LEN * e = (s.itab wd).node.size := by
        have whole := dir.whole
        unfold DIR_LEN at *
        omega
      rw [last]
      refine dir.read_end calm ?_
      dsimp only
      rw [wp_bind, wp_get, transfers_u, wp_ite]
      refine ⟨fun _ => ?_, fun no => absurd (Or.inl rfl) no⟩
      refine missed n ?_
      intro e' less
      exact before e' (by omega)

end Searching

/-! ## What a change of a directory leaves -/

omit [Build] in
/-- A change of the file `wd` leaves all other inodes and the blocks of all others. Of the inode it
changes the size, the times, the blocks and the mark, and of the process the transfer fields and the
error. -/
structure Linked (s t : Kernel) (wd m : Nat) (foreign : Nat → Prop) : Prop extends Beside s t m where
  untouched : ∀ b, foreign b ∨ b < (s.fstab m).fs.isize → t.disk (s.itab wd).dev b = s.disk (s.itab wd).dev b
  devices : ∀ d, d ≠ (s.itab wd).dev → t.disk d = s.disk d
  inodes : ∀ j, j ≠ wd → t.itab j = s.itab j
  inode : ∃ size atime mtime ctime addr dirty, t.itab wd = { s.itab wd with
    node := { (s.itab wd).node with size := size, atime := atime, mtime := mtime, ctime := ctime, addr := addr }
    dirty := dirty }
  user : ∃ e c o, t.ptab = (s.withU { s.u with error := e, count := c, offset := o }).ptab

/-- Only the size, the times and the mark of the inode are others. -/
def Resized (s t : Kernel) (i size : Nat) : Prop :=
  ∃ atime mtime ctime dirty, t = { s with itab := put s.itab i { s.itab i with
    node := { (s.itab i).node with size := size, atime := atime, mtime := mtime, ctime := ctime }
    dirty := dirty } }

section Changes
variable {s t v : Kernel} {wd m i size size' : Nat} {bs : List Nat} {foreign : Nat → Prop} {u : Udata} {path : List Nat}

omit [Build] in
theorem withU_self : s.withU s.u = s := by
  unfold Kernel.withU Kernel.u
  rw [put_self]

omit [Build] in
theorem Linked.dev (linked : Linked s t wd m foreign) : (t.itab wd).dev = (s.itab wd).dev := by
  obtain ⟨_, _, _, _, _, _, same⟩ := linked.inode
  rw [same]

omit [Build] in
theorem u_of_ptab (cur : t.cur = s.cur) (same : t.ptab = (s.withU u).ptab) : t.u = u := by
  unfold Kernel.u
  rw [cur, same]
  exact withU_u

omit [Build] in
theorem Linked.trans (first : Linked s t wd m foreign) (second : Linked t v wd m foreign) : Linked s v wd m foreign := by
  have dev := first.dev
  refine { first.toBeside.trans second.toBeside with
    untouched := ?_, devices := ?_, inodes := ?_, inode := ?_, user := ?_ }
  · intro b theirs
    have later := second.untouched b (theirs.imp_right fun low => by
      rw [first.isize]
      exact low)
    rw [dev] at later
    exact later.trans (first.untouched b theirs)
  · intro d other
    exact (second.devices d (by rw [dev]; exact other)).trans (first.devices d other)
  · intro j other
    exact (second.inodes j other).trans (first.inodes j other)
  · obtain ⟨_, _, _, _, _, _, same⟩ := first.inode
    obtain ⟨_, _, _, _, _, _, same'⟩ := second.inode
    rw [same', same]
    exact ⟨_, _, _, _, _, _, rfl⟩
  · obtain ⟨e, c, o, same⟩ := first.user
    obtain ⟨e', c', o', same'⟩ := second.user
    refine ⟨e', c', o', ?_⟩
    rw [same', u_of_ptab first.cur same]
    have both := congrArg Kernel.ptab (withU_withU (s := s) (u := { s.u with error := e, count := c, offset := o })
      (v := { s.u with error := e', count := c', offset := o' }))
    rw [← both]
    unfold Kernel.withU
    dsimp only
    rw [first.cur, same]
    rfl

omit [Build] in
theorem Linked.of_user {e c o : Nat} (same : u = { s.u with error := e, count := c, offset := o }) (n : Nat) :
    Linked s ((s.withU u).spent n) wd m foreign := by
  refine { Beside.refl.then with
    untouched := fun _ _ => rfl, devices := fun _ _ => rfl, inodes := fun _ _ => rfl,
    inode := ⟨_, _, _, _, _, _, rfl⟩, user := ⟨e, c, o, ?_⟩ }
  rw [same]
  rfl

omit [Build] in
theorem Grows.linked {e c o : Nat} (grows : Grows s t wd m foreign path)
    (user : t.ptab = (s.withU { s.u with error := e, count := c, offset := o }).ptab) : Linked s t wd m foreign := by
  obtain ⟨_, _, same⟩ := grows.inode
  exact { grows.toBeside with
    untouched := grows.untouched, devices := grows.devices, inodes := grows.inodes,
    inode := ⟨_, _, _, _, _, _, same⟩, user := ⟨e, c, o, user⟩ }

omit [Build] in
theorem Resized.linked (resized : Resized s t wd size) : Linked s t wd m foreign := by
  obtain ⟨_, _, _, _, same⟩ := resized
  have user : s.ptab = (s.withU s.u).ptab := congrArg Kernel.ptab withU_self.symm
  have beside : Beside s t m := by
    rw [same]
    exact Beside.refl.then
  rw [same] at beside ⊢
  refine { beside with
    untouched := fun _ _ => rfl, devices := fun _ _ => rfl, inodes := fun _ other => put_ne _ _ other,
    inode := ⟨_, _, _, _, _, _, put_same _ _ _⟩,
    user := ⟨s.u.error, s.u.count, s.u.offset, user⟩ }

omit [Build] in
theorem nodeAt_congr (addr : (t.itab i).node.addr = (s.itab i).node.addr) (dev : (t.itab i).dev = (s.itab i).dev)
    (disk : t.disk = s.disk) (q : List Nat) : nodeAt t i q = nodeAt s i q := by
  have same : entries (t.disk (t.itab i).dev) (t.itab i).node = entries (s.disk (s.itab i).dev) (s.itab i).node := by
    funext n k
    cases n with
    | inode => exact congrArg Node.block (congrFun addr k)
    | block b => rw [dev, disk]; rfl
  unfold nodeAt
  rw [same]

omit [Build] in
theorem Resized.fields (resized : Resized s t wd size) : t.itab wd = { s.itab wd with
    node := { (t.itab wd).node with addr := (s.itab wd).node.addr, mode := (s.itab wd).node.mode }
    dirty := (t.itab wd).dirty } ∧ (t.itab wd).node.size = size ∧ t.disk = s.disk ∧ t.fstab = s.fstab ∧
      t.ptab = s.ptab ∧ t.cur = s.cur := by
  obtain ⟨atime, mtime, ctime, dirty, same⟩ := resized
  have here : t.itab wd = { s.itab wd with
      node := { (s.itab wd).node with size := size, atime := atime, mtime := mtime, ctime := ctime }
      dirty := dirty } := by
    rw [same]
    exact put_same _ _ _
  refine ⟨?_, ?_, ?_, ?_, ?_, ?_⟩
  · rw [here]
  · rw [here]
  all_goals rw [same]

omit [Build] in
theorem Resized.user (resized : Resized s t wd size) : t.u = s.u := by
  obtain ⟨-, -, -, -, ptab, cur⟩ := resized.fields
  unfold Kernel.u
  rw [ptab, cur]

theorem Resized.laid (resized : Resized s t wd size) (laid : Laid s wd m bs foreign) : Laid t wd m bs foreign := by
  obtain ⟨inode, -, disk, fstab, -⟩ := resized.fields
  have dev : (t.itab wd).dev = (s.itab wd).dev := by rw [inode]
  have addr : (t.itab wd).node.addr = (s.itab wd).node.addr := by rw [inode]
  refine laid.congr dev (fun q _ => nodeAt_congr addr dev disk q) fstab ?_
  intro a _
  rw [disk]

omit [Build] in
/-- The new size and times leave the blocks of the file. -/
theorem Resized.blocks (resized : Resized s t wd size) (bn : Nat) :
    mapped t wd bn = mapped s wd bn ∧ fileBlock t wd bn = fileBlock s wd bn := by
  obtain ⟨inode, -, disk, -⟩ := resized.fields
  have dev : (t.itab wd).dev = (s.itab wd).dev := by rw [inode]
  have addr : (t.itab wd).node.addr = (s.itab wd).node.addr := by rw [inode]
  have same : mapped t wd bn = mapped s wd bn := congrArg Node.answer (nodeAt_congr addr dev disk _)
  refine ⟨same, ?_⟩
  unfold fileBlock
  rw [same, dev, disk]

omit [Build] in
theorem Resized.trans (first : Resized s t wd size) (second : Resized t v wd size') : Resized s v wd size' := by
  obtain ⟨_, _, _, _, same⟩ := first
  obtain ⟨_, _, _, _, same'⟩ := second
  rw [same', same]
  dsimp only
  rw [put_same, put_put]
  exact ⟨_, _, _, _, rfl⟩

omit [Build] in
theorem Resized.refl : Resized s s wd (s.itab wd).node.size := by
  refine ⟨(s.itab wd).node.atime, (s.itab wd).node.mtime, (s.itab wd).node.ctime, (s.itab wd).dirty, ?_⟩
  rw [put_self]

end Changes

/-! ## The calls that change the inode -/

section Sizes
variable {s : Kernel} {wd : Nat} {stop : Stop → Prop} {Q : Unit → Kernel → Prop}

omit [Build] in
theorem wp_growSize (post : ∀ t, Resized s t wd (max (s.itab wd).node.size s.u.offset) → Q () t) :
    wp stop (growSize wd) Q s := by
  unfold growSize
  rw [wp_bind, wp_get, wp_ite]
  constructor
  · intro more
    rw [wp_modifyInode]
    refine post _ ?_
    rw [Nat.max_eq_right (Nat.le_of_lt more)]
    exact ⟨_, _, _, _, rfl⟩
  · intro less
    refine post s ?_
    rw [Nat.max_eq_left (Nat.le_of_not_lt less)]
    exact .refl

omit [Build] in
theorem wp_setftime {flag : Times} (post : ∀ t, Resized s t wd (s.itab wd).node.size → Q () t) :
    wp stop (setftime wd flag) Q s := by
  unfold setftime
  rw [wp_bind, wp_get, wp_ite]
  refine ⟨fun _ => post s .refl, fun _ => ?_⟩
  dsimp only
  rw [wp_modifyInode]
  exact post _ ⟨_, _, _, _, rfl⟩

/-- The size up to the next block. -/
def padded (size : Nat) : Nat := if size % BLKSIZE = 0 then size else size + (BLKSIZE - size % BLKSIZE)

omit [Build] in
theorem wp_padSize (post : ∀ t, Resized s t wd (padded (s.itab wd).node.size) → Q () t) :
    wp stop (padSize wd) Q s := by
  unfold padSize modifyNode
  rw [wp_modifyInode]
  exact post _ ⟨_, _, _, _, rfl⟩

end Sizes

/-! ## The write of an entry -/

omit [Build] in
/-- The file reads as before. -/
structure Reads (s t : Kernel) (ip : Nat) : Prop where
  stays : ∀ bn, mapped s ip bn ≠ none → mapped t ip bn ≠ none
  blocks : ∀ bn < 65536, fileBlock t ip bn = fileBlock s ip bn

omit [Build] in
/-- Entry `e` of the file got the bytes, and the rest reads as before. No block is allocated for an
entry that is there. -/
structure Entered (s t : Kernel) (wd e : Nat) (src : List UInt8) : Prop where
  stays : ∀ bn, mapped s wd bn ≠ none → mapped t wd bn ≠ none
  here : mapped t wd (e / 16) ≠ none
  blocks : ∀ bn < 65536, fileBlock t wd bn =
    if bn = e / 16 then splice (fileBlock s wd bn) (32 * (e % 16)) src else fileBlock s wd bn
  fstab : mapped s wd (e / 16) ≠ none → t.fstab = s.fstab

section Writing
variable {s t v : Kernel} {ip wd m e n bn size : Nat} {bs : List Nat} {foreign : Nat → Prop} {stop : Stop → Prop}
  {src : List UInt8} {u : Udata}

theorem Laid.of_user (laid : Laid s ip m bs foreign) (u : Udata) : Laid (s.withU u) ip m bs foreign :=
  laid.of_same rfl rfl rfl rfl laid.found laid.mounted laid.pool

omit [Build] in
theorem Grows.reads {path : List Nat} (grows : Grows s t ip m foreign path) : Reads s t ip := by
  refine ⟨?_, fun bn _ => grows.fileBlock bn⟩
  intro bn some
  obtain ⟨b, here⟩ := Option.ne_none_iff_exists'.mp some
  rw [grows.mapped here]
  exact Option.some_ne_none b

omit [Build] in
theorem Reads.resized (reads : Reads s t wd) (resized : Resized t v wd size) : Reads s v wd := by
  refine ⟨?_, ?_⟩
  · intro bn some
    rw [(resized.blocks bn).1]
    exact reads.stays bn some
  · intro bn small
    rw [(resized.blocks bn).2]
    exact reads.blocks bn small

omit [Build] in
theorem Entered.resized (entered : Entered s t wd e src) (resized : Resized t v wd size) : Entered s v wd e src := by
  refine ⟨?_, ?_, ?_, ?_⟩
  · intro bn some
    rw [(resized.blocks bn).1]
    exact entered.stays bn some
  · rw [(resized.blocks _).1]
    exact entered.here
  · intro bn small
    rw [(resized.blocks bn).2]
    exact entered.blocks bn small
  · intro there
    obtain ⟨-, -, -, fstab, -⟩ := resized.fields
    exact fstab.trans (entered.fstab there)

/-- `bmap` for a write: a block, or an error. -/
theorem Laid.bmap_write (laid : Laid s ip m bs foreign) (sure : NoFaults s) (file : isBdev (s.itab ip) = false)
    {Q : Nat → Kernel → Prop}
    (got : ∀ b t bs', Laid t ip m bs' foreign → Grows s t ip m foreign (pathOf bn) → mapped t ip bn = some b →
      t.ptab = s.ptab → (mapped s ip bn ≠ none → t.fstab = s.fstab) → Q b t)
    (refused : ∀ t bs' err, Laid t ip m bs' foreign → Grows s t ip m foreign (pathOf bn) → err ≠ 0 →
      t.ptab = (s.withError err).ptab → Q NULLBLK t) :
    wp stop (bmap ip bn false) Q s := by
  cases there : mapped s ip bn with
  | some b =>
    have known : mapped s ip bn ≠ none ∨ false = true := Or.inl (by rw [there]; exact Option.some_ne_none b)
    obtain ⟨n, looked⟩ := bmap_look sure file known
    rw [there] at looked
    rw [wp_returned looked]
    exact got b _ bs (laid.of_spent n) (.of_same rfl rfl Beside.refl.then) there rfl fun _ => rfl
  | none =>
    unfold bmap
    rw [wp_bind, wp_get, file, if_neg Bool.false_ne_true, wp_bind]
    refine wp_mono (laid.bmapTree sure.nolost bn) ?_
    rintro o t ⟨bs', laid', grows, outcome⟩
    rw [wp_pure]
    rcases outcome with ⟨missed, _⟩ | ⟨_, answer, _, answered⟩
    · exact absurd missed (laid.readable sure false)
    · cases o with
      | some b =>
        exact got b t bs' laid' grows answer.symm (answered.1 (Option.some_ne_none b)) fun no => absurd there no
      | none =>
        obtain ⟨err, real, error⟩ := answered.2 rfl rfl
        exact refused t bs' err laid' grows real error

/-- The end of `writei`. -/
theorem wp_writeEnd {left : Nat} {Q : Xfer → Kernel → Prop}
    (post : ∀ t c, Resized s t wd (max (s.itab wd).node.size s.u.offset) →
      Q (.done []) (t.withU { t.u with count := c })) :
    wp stop (do
      onlyIf (false = false) (growSize wd)
      settleCount left
      return Xfer.done []) Q s := by
  rw [wp_bind, wp_onlyIf]
  refine ⟨fun _ => ?_, fun no => absurd rfl no⟩
  refine wp_growSize ?_
  intro t resized
  unfold settleCount
  rw [wp_bind, wp_bind, wp_get]
  dsimp only
  rw [wp_user, wp_pure]
  exact post t _ resized

theorem writeLoop_done {i dev rounds : Nat} {ispipe osync : Bool} : writeLoop i dev ispipe osync rounds [] = pure 0 := by
  cases rounds with
  | zero => rfl
  | succ rounds =>
    unfold writeLoop
    exact if_pos rfl

/-- A write to a block of the file. -/
theorem Laid.wrote (laid : Laid s wd m bs foreign) {b : Nat} (here : mapped s wd bn = some b) (x : Block) :
    Linked s (s.wrote (s.itab wd).dev b x) wd m foreign := by
  obtain ⟨there, real⟩ := nodeAt_mapped here
  obtain ⟨data, -, own⟩ := laid.inside _ b (blockPath_pathOf bn) there real
  have user : s.ptab = (s.withU s.u).ptab := congrArg Kernel.ptab withU_self.symm
  have beside : Beside s (s.wrote (s.itab wd).dev b x) m := Beside.refl.then
  refine { beside with
    untouched := ?_, devices := ?_, inodes := fun _ _ => rfl, inode := ⟨_, _, _, _, _, _, rfl⟩,
    user := ⟨s.u.error, s.u.count, s.u.offset, user⟩ }
  · intro c theirs
    refine put₂_ne _ _ fun no => ?_
    rcases theirs with theirs | low
    · exact own (no.2 ▸ theirs)
    · omega
  · intro d other
    funext c
    exact put₂_ne _ _ fun no => other no.1

omit [Build] in
theorem Grows.from_transfers {c o e' : Nat} {path : List Nat} (grows : Grows (s.transfers c o n) t wd m foreign path)
    (user : t.ptab = (s.withU { s.u with count := c, offset := o, error := e' }).ptab) :
    t.u = { s.u with count := c, offset := o, error := e' } ∧ Linked s t wd m foreign ∧ Reads s t wd ∧
      (t.itab wd).node.size = (s.itab wd).node.size ∧ (t.itab wd).dev = (s.itab wd).dev := by
  have reads := grows.reads
  obtain ⟨_, _, inode⟩ := grows.inode
  have user' : t.ptab = ((s.transfers c o n).withU { (s.transfers c o n).u with error := e', count := c, offset := o }).ptab := by
    rw [user, transfers_u, withU_transfers]
    rfl
  refine ⟨u_of_ptab (s := s) grows.cur user, (Linked.of_user rfl n).trans (grows.linked user'), ⟨reads.stays, reads.blocks⟩, ?_, grows.dev⟩
  rw [inode]
  rfl

/-- One chunk is the whole entry. -/
theorem Laid.write_chunk (laid : Laid s wd m bs foreign) (sure : NoFaults s) (file : isBdev (s.itab wd) = false)
    (long : src.length = DIR_LEN) {Q : Nat → Kernel → Prop}
    (refused : ∀ t bs' err, err ≠ 0 → t.u = { s.u with count := DIR_LEN, offset := DIR_LEN * e, error := err } →
      Laid t wd m bs' foreign → Linked s t wd m foreign → Reads s t wd → (t.itab wd).node.size = (s.itab wd).node.size →
      Q DIR_LEN t)
    (entered : ∀ t bs', e < DIR_MAX → t.u = { s.u with count := DIR_LEN, offset := DIR_LEN * (e + 1) } →
      Laid t wd m bs' foreign → Linked s t wd m foreign → Entered s t wd e src →
      (t.itab wd).node.size = (s.itab wd).node.size → Q 0 t) (rounds : Nat) :
    wp stop (writeLoop wd (s.itab wd).dev false false (rounds + 1) src) Q (s.transfers DIR_LEN (DIR_LEN * e) n) := by
  have max : DIR_MAX = 1048576 := rfl
  have far : 2 ^ BLKOVERSIZE = 33554432 := rfl
  unfold writeLoop
  rw [long, if_neg (by decide), wp_bind, wp_get, transfers_u]
  dsimp only
  rw [chunk_entry, wp_ite]
  constructor
  · intro _
    rw [wp_bind, wp_setError, wp_pure, withError_eq, transfers_u, withU_transfers]
    exact refused _ bs EFBIG (by decide) withU_u ((laid.of_user _).of_spent n) (.of_user rfl n)
      ⟨fun _ => id, fun _ _ => rfl⟩ rfl
  · intro near
    have small : e < DIR_MAX := by
      unfold DIR_LEN at near
      rw [far] at near
      omega
    obtain ⟨index, start⟩ := offset_entry small
    rw [index, start, wp_bind]
    refine (laid.of_transfers DIR_LEN (DIR_LEN * e) n).bmap_write (sure.of_io rfl) file ?_ ?_
    · intro b t bs' laid' grows here same fstab
      obtain ⟨user, linked, reads, size, dev⟩ := grows.from_transfers same
      have read := bread_sure (sure.of_io grows.io : NoFaults t) (s.itab wd).dev b
      rw [if_neg (laid'.mapped_ne here), if_neg (by decide), wp_bind, wp_returned read]
      unfold putBlock advance
      dsimp only
      rw [if_neg Bool.false_ne_true, wp_bind, wp_bind, wp_bawrite, wp_pure, if_pos rfl, wp_bind, wp_user, wp_bind, wp_onlyIf]
      refine ⟨fun no => (by cases no), fun _ => ?_⟩
      rw [List.drop_of_length_le (Nat.le_of_eq long), writeLoop_done, wp_pure, List.take_of_length_le (Nat.le_of_eq long)]
      have bn_small : e / 16 < 65536 := by omega
      have content : t.disk (s.itab wd).dev b = fileBlock s wd (e / 16) := by
        rw [← reads.blocks _ bn_small, fileBlock_mapped here, dev]
      have here' : mapped (t.spent 1) wd (e / 16) = some b := here
      obtain ⟨laid₂, same₂, blocks₂⟩ := (laid'.of_spent 1).write_block bn_small here'
        (splice (t.disk (s.itab wd).dev b) (32 * (e % 16)) src)
      have linked₂ := (laid'.of_spent 1).wrote here' (splice (t.disk (s.itab wd).dev b) (32 * (e % 16)) src)
      have dev' : ((t.spent 1).itab wd).dev = (s.itab wd).dev := dev
      rw [dev'] at laid₂ same₂ blocks₂ linked₂
      have user₂ : ((t.spent 1).wrote (s.itab wd).dev b (splice (t.disk (s.itab wd).dev b) (32 * (e % 16)) src)).u =
          { s.u with count := DIR_LEN, offset := DIR_LEN * e } := user
      rw [user₂]
      have spent : Linked t (t.spent 1) wd m foreign := by
        have counted : Linked t ((t.withU t.u).spent 1) wd m foreign := Linked.of_user rfl 1
        rw [withU_self] at counted
        exact counted
      refine entered _ bs' small ?_ (laid₂.of_user _) ((linked.trans spent).trans (linked₂.trans ?_)) ?_ size
      · exact withU_u
      · exact Linked.of_user (by rw [user₂]) 0
      · refine ⟨?_, ?_, ?_, fstab⟩
        · intro bn some
          exact (same₂ bn).symm ▸ reads.stays bn some
        · exact (same₂ (e / 16)).symm ▸ here ▸ Option.some_ne_none b
        · intro bn less
          refine (blocks₂ bn less).trans ?_
          by_cases this : bn = e / 16
          · rw [if_pos this, if_pos this, content, this]
          · rw [if_neg this, if_neg this]
            exact reads.blocks bn less
    · intro t bs' err laid' grows real same
      obtain ⟨user, linked, reads, size, -⟩ := grows.from_transfers (by
        rw [same, withError_eq, transfers_u, withU_transfers]
        rfl)
      rw [if_pos rfl, wp_pure]
      exact refused t bs' err real user laid' linked reads size

/-- `writei` of one entry that starts inside the file or at its end. -/
theorem Laid.write_entry (laid : Laid s wd m bs foreign) (sure : NoFaults s) (directory : fmt (s.itab wd).node.mode = F_DIR)
    (long : src.length = DIR_LEN) (start : DIR_LEN * e ≤ (s.itab wd).node.size) {Q : Xfer → Kernel → Prop}
    (refused : ∀ t bs', t.u.error ≠ 0 → Laid t wd m bs' foreign → Linked s t wd m foreign → Reads s t wd →
      (t.itab wd).node.size = (s.itab wd).node.size → Q (.done []) t)
    (entered : ∀ t bs', e < DIR_MAX → t.u.error = s.u.error → Laid t wd m bs' foreign → Linked s t wd m foreign →
      Entered s t wd e src → (t.itab wd).node.size = max (s.itab wd).node.size (DIR_LEN * (e + 1)) → Q (.done []) t) :
    wp stop (writei wd Access.kernel src) Q (s.transfers DIR_LEN (DIR_LEN * e) n) := by
  have other : ¬ fmt (s.itab wd).node.mode = F_BDEV := by
    rw [directory]
    decide
  unfold writei
  rw [wp_bind, wp_get, transfers_itab]
  dsimp only
  rw [if_neg other, if_pos (Or.inl directory)]
  unfold writeBlocks
  rw [wp_bind, long]
  refine laid.write_chunk sure (isBdev_directory directory) long ?_ ?_ 31
  · intro t bs' err real user laid' linked reads size
    refine wp_writeEnd ?_
    intro v c resized
    have end' : DIR_LEN * e = t.u.offset := by rw [user]
    have stays : max (t.itab wd).node.size t.u.offset = (s.itab wd).node.size := by
      rw [size, ← end', Nat.max_eq_left start]
    rw [stays] at resized
    have error : t.u.error = err := by rw [user]
    refine refused _ bs' ?_ ((resized.laid laid').of_user _)
      (linked.trans (resized.linked.trans (Linked.of_user rfl 0))) ?_ resized.fields.2.1
    · rw [withU_u, resized.user, error]
      exact real
    · exact ⟨(reads.resized resized).stays, (reads.resized resized).blocks⟩
  · intro t bs' small user laid' linked entry size
    refine wp_writeEnd ?_
    intro v c resized
    have end' : t.u.offset = DIR_LEN * (e + 1) := by rw [user]
    rw [size, end'] at resized
    refine entered _ bs' small ?_ ((resized.laid laid').of_user _)
      (linked.trans (resized.linked.trans (Linked.of_user rfl 0))) ?_ resized.fields.2.1
    · rw [withU_u, resized.user, user]
    · exact ⟨(entry.resized resized).stays, (entry.resized resized).here, (entry.resized resized).blocks,
        (entry.resized resized).fstab⟩

end Writing

end Fuzix
