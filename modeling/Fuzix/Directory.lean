import Fuzix.BmapCalls
import Fuzix.Lib.Slots

/-!
# A directory as a table of names

The blocks of a directory hold entries of a number and a name. A name ends at its first null or
slash, or after 30 characters. `srch_dir` looks in every entry of every block for its name.
-/

namespace Fuzix

open Wp Table Words

/-! ## Names -/

/-- A character of a name. -/
def nameChar (c : UInt8) : Bool := c ≠ 0 ∧ c ≠ slash

def PlainName (name : List UInt8) : Prop := ∀ c ∈ name, nameChar c = true

instance (name : List UInt8) : Decidable (PlainName name) := List.decidableBAll _ _

/-- The name in an entry. -/
def entryKey (n2 : Nat → UInt8) : List UInt8 := ((List.range FILENAME_LEN).map n2).takeWhile nameChar

/-- The part of a name that an entry holds. -/
def nameKey (name : List UInt8) : List UInt8 := name.take FILENAME_LEN

section Names
variable {name : List UInt8} {n2 n2' : Nat → UInt8} {c : UInt8} {k n : Nat}

theorem nameChar_iff : nameChar c = true ↔ ¬ (c = 0 ∨ c = slash) := by
  unfold nameChar
  rw [decide_eq_true_eq]
  tauto

theorem namecompFrom_iff (plain : PlainName name) (at_end : k + (n + 1) = FILENAME_LEN) :
    namecompFrom n2 name k = true ↔ ((List.range' k (n + 1)).map n2).takeWhile nameChar = name.take (n + 1) := by
  induction name generalizing k n with
  | nil =>
    unfold namecompFrom
    rw [decide_eq_true_eq, List.range'_succ, List.map_cons, List.takeWhile_cons, List.take_nil]
    by_cases char : nameChar (n2 k) = true
    · rw [if_pos char]
      exact iff_of_false (nameChar_iff.mp char) (List.cons_ne_nil _ _)
    · rw [if_neg char]
      exact iff_of_true (not_not.mp fun no => char (nameChar_iff.mpr no)) rfl
  | cons c rest ih =>
    have char : nameChar c = true := plain c List.mem_cons_self
    have plain' : PlainName rest := fun d member => plain d (List.mem_cons_of_mem c member)
    unfold namecompFrom
    rw [if_neg (nameChar_iff.mp char), List.range'_succ, List.map_cons, List.takeWhile_cons, List.take_succ_cons]
    by_cases same : c = n2 k
    · rw [if_neg (fun no => no same), ← same, if_pos char, List.cons.injEq]
      cases n with
      | zero =>
        rw [if_pos at_end]
        simp
      | succ n =>
        rw [if_neg (by omega), ih (k := k + 1) (n := n) plain' (by omega)]
        simp
    · rw [if_pos same]
      refine iff_of_false Bool.false_ne_true ?_
      split
      · intro no
        injection no with no
        exact same no.symm
      · intro no
        cases no

/-- `namecomp` tells whether an entry holds the name. -/
theorem namecomp_iff (plain : PlainName name) : namecomp name n2 = true ↔ entryKey n2 = nameKey name := by
  unfold namecomp entryKey
  rw [List.range_eq_range', namecompFrom_iff (n := 29) plain rfl]
  rfl

theorem entryKey_congr (same : ∀ j < FILENAME_LEN, n2 j = n2' j) : entryKey n2 = entryKey n2' := by
  unfold entryKey
  congr 1
  refine List.map_congr_left ?_
  intro j member
  exact same j (List.mem_range.mp member)

theorem takeWhile_padded (plain : PlainName name) (m : Nat) :
    (name ++ List.replicate m 0).takeWhile nameChar = name := by
  have ends : (List.replicate m (0 : UInt8)).takeWhile nameChar = [] := by
    cases m with
    | zero => rfl
    | succ m => rfl
  rw [List.takeWhile_append_of_pos plain, ends, List.append_nil]

/-- An entry that is written holds the name. -/
theorem entryKey_direct (plain : PlainName name) (ino : Nat) : entryKey (directName (direct name ino)) = nameKey name := by
  have length : ((name ++ List.replicate FILENAME_LEN 0).take FILENAME_LEN).length = FILENAME_LEN := by
    rw [List.length_take, List.length_append, List.length_replicate]
    omega
  have chars : (List.range FILENAME_LEN).map (directName (direct name ino)) =
      (name ++ List.replicate FILENAME_LEN 0).take FILENAME_LEN := by
    refine List.ext_getElem (by rw [List.length_map, List.length_range, length]) ?_
    intro j _ less
    rw [List.getElem_map, List.getElem_range]
    show (direct name ino).getD (2 + j) 0 = _
    rw [Nat.add_comm 2 j]
    exact (List.getElem_eq_getD (h := less) 0).symm
  unfold entryKey
  rw [chars, List.take_append]
  have plain' : PlainName (name.take FILENAME_LEN) := fun c member => plain c (List.mem_of_mem_take member)
  rw [List.take_replicate, takeWhile_padded plain']
  rfl

end Names

variable [Build]

/-! ## The blocks of a file -/

/-- Block `bn` of a file as a read finds it. -/
def fileBlock (s : Kernel) (ip bn : Nat) : Block := ((mapped s ip bn).map (s.disk (s.itab ip).dev)).getD zeroBlock

section Blocks
variable {s t : Kernel} {ip m bn : Nat} {bs : List Nat} {foreign : Nat → Prop}

omit [Build] in
theorem NoFaults.nolost (sure : NoFaults s) : NoLost s := fun n => (sure n).2

/-- Without failing transfers every index block can be read. -/
theorem Laid.readable (laid : Laid s ip m bs foreign) (sure : NoFaults s) (rwflg : Bool) : ¬ unread ip bn rwflg s := by
  have reads : ∀ t : Kernel, t.io = s.io → ¬ (t.io t.xfers).fails = true := by
    intro t same
    rw [same, (sure _).1]
    exact Bool.false_ne_true
  unfold unread
  split_ifs with direct single
  · exact id
  · rintro ⟨nb, t, ran, fails⟩
    obtain ⟨_, _, grows, _⟩ := wp_every (fun _ => laid.bmapSlot sure.nolost (by decide)) ran
    exact reads t grows.io fails
  · rintro ⟨nb, t, ran, fails⟩
    obtain ⟨_, laid', grows, answer, _⟩ :=
      wp_every (fun _ => laid.bmapSlot sure.nolost (by decide)) ran
    rcases fails with fails | ⟨nb', u, _, ran', fails⟩
    · exact reads t grows.io fails
    · obtain ⟨here, index⟩ := block_of_answer answer.symm
      rw [← grows.dev] at ran'
      have valid : BlockPath ([19] ++ [(bn - 18 - 256) / 256 % 256]) :=
        blockPath_init (k := (bn - 18 - 256) % 256) ⟨by decide, Nat.le_refl 2, by
          intro k member
          rcases List.mem_cons.mp member with same | member
          · omega
          · rw [List.mem_singleton.mp member]
            omega⟩
      obtain ⟨_, _, grows', _⟩ :=
        wp_every (fun _ => laid'.bmapIndirect (grows.nolost sure.nolost) here index valid) ran'
      exact reads u (grows'.io.trans grows.io) fails

theorem bmapSlot_look {slot : Nat} {rw : Bool} (known : (s.itab ip).node.addr slot ≠ 0 ∨ rw = true) :
    bmapSlot ip slot rw s = .ok ((nodeAt s ip [slot]).answer, s) := by
  rw [nodeAt_slot]
  unfold bmapSlot
  rw [bind_run (a := s) (t := s) rfl]
  dsimp only
  by_cases real : (s.itab ip).node.addr slot = 0
  · rw [if_neg (fun no => no real), if_pos (known.resolve_left fun no => no real), real]
    rfl
  · rw [if_pos real, answer_some rfl real]
    rfl

theorem bmapIndirect_look (sure : NoFaults s) {p : List Nat} {nb k : Nat} {rw : Bool} (here : nodeAt s ip p = .block nb)
    (index : nb ≠ 0) (known : word (s.disk (s.itab ip).dev nb) k ≠ 0 ∨ rw = true) :
    bmapIndirect (s.itab ip).dev nb k rw s = .ok ((nodeAt s ip (p ++ [k])).answer, s.spent 1) := by
  have entry : nodeAt s ip (p ++ [k]) = .block (word (s.disk (s.itab ip).dev nb) k) := by
    rw [nodeAt_snoc, here, if_neg (by intro no; injection no with no; exact index no)]
    rfl
  rw [entry]
  unfold bmapIndirect
  rw [bind_run (bread_sure sure _ _)]
  dsimp only
  by_cases real : word (s.disk (s.itab ip).dev nb) k = 0
  · rw [if_neg (fun no => no real), if_pos (known.resolve_left fun no => no real), real]
    rfl
  · rw [if_pos real, answer_some rfl real]
    rfl

omit [Build] in
/-- A place is filled only below filled ones. -/
theorem answer_above {p : List Nat} {k : Nat} (some : p ≠ []) (real : (nodeAt s ip (p ++ [k])).answer ≠ none) :
    (nodeAt s ip p).answer ≠ none := fun no => real (answer_below some no)

omit [Build] in
theorem word_of_answer {p : List Nat} {nb k : Nat} (here : nodeAt s ip p = .block nb)
    (real : (nodeAt s ip (p ++ [k])).answer ≠ none) : word (s.disk (s.itab ip).dev nb) k ≠ 0 := by
  intro null
  refine real ?_
  rw [nodeAt_snoc, here]
  by_cases index : nb = 0
  · rw [index, if_pos rfl]
    rfl
  · rw [if_neg (by intro no; injection no with no; exact index no)]
    exact answer_none (congrArg Node.block null)

theorem bmapTree_look (sure : NoFaults s) {rw : Bool} (known : mapped s ip bn ≠ none ∨ rw = true) :
    ∃ n, bmapTree ip bn rw s = .ok (mapped s ip bn, s.spent n) := by
  unfold bmapTree
  rw [bind_run (a := s) (t := s) rfl]
  by_cases direct : bn < 18
  · have path : pathOf bn = [bn] := if_pos direct
    unfold mapped at known ⊢
    rw [path] at known ⊢
    rw [if_pos direct]
    refine ⟨0, bmapSlot_look (known.imp_left ?_)⟩
    intro real no
    rw [nodeAt_slot, no] at real
    exact real rfl
  · rw [if_neg direct]
    -- the slot of an index block
    have slot : ∀ slot, (nodeAt s ip [slot]).answer ≠ none ∨ rw = true →
        bmapSlot ip slot rw s = .ok ((nodeAt s ip [slot]).answer, s) := by
      intro slot known
      refine bmapSlot_look (known.imp_left ?_)
      intro real no
      rw [nodeAt_slot, no] at real
      exact real rfl
    by_cases single : bn - 18 < 256
    · have path : pathOf bn = [18] ++ [bn - 18] := by
        unfold pathOf
        rw [if_neg direct, if_pos single]
        rfl
      unfold mapped at known ⊢
      rw [path] at known ⊢
      rw [if_pos single, bind_run (slot 18 (known.imp_left (answer_above (List.cons_ne_nil _ _))))]
      cases index : (nodeAt s ip [18]).answer with
      | none => exact ⟨0, congrArg (fun o => Except.ok (o, s)) (answer_below (List.cons_ne_nil _ _) index).symm⟩
      | some nb =>
        obtain ⟨here, real⟩ := block_of_answer index
        exact ⟨1, bmapIndirect_look sure here real (known.imp_left (word_of_answer here))⟩
    · have path : pathOf bn = [19, (bn - 18 - 256) / 256 % 256] ++ [(bn - 18 - 256) % 256] := by
        unfold pathOf
        rw [if_neg direct, if_neg single]
        rfl
      unfold mapped at known ⊢
      rw [path] at known ⊢
      have above : (nodeAt s ip ([19] ++ [(bn - 18 - 256) / 256 % 256])).answer ≠ none ∨ rw = true :=
        known.imp_left (answer_above (List.cons_ne_nil _ _))
      rw [if_neg single, bind_run (slot 19 (above.imp_left (answer_above (List.cons_ne_nil _ _))))]
      cases index : (nodeAt s ip [19]).answer with
      | none =>
        have below := answer_below (k := (bn - 18 - 256) / 256 % 256) (List.cons_ne_nil 19 []) index
        exact ⟨0, congrArg (fun o => Except.ok (o, s)) (answer_below (List.cons_ne_nil _ _) below).symm⟩
      | some nb =>
        obtain ⟨here, real⟩ := block_of_answer index
        dsimp only
        rw [bind_run (bmapIndirect_look sure here real (above.imp_left (word_of_answer here)))]
        cases index' : (nodeAt s ip ([19] ++ [(bn - 18 - 256) / 256 % 256])).answer with
        | none => exact ⟨1, congrArg (fun o => Except.ok (o, s.spent 1)) (answer_below (List.cons_ne_nil _ _) index').symm⟩
        | some nb' =>
          obtain ⟨here', real'⟩ := block_of_answer index'
          obtain ⟨c, same⟩ := Nat.exists_eq_succ_of_ne_zero real'
          rw [same] at here' real' ⊢
          have last := bmapIndirect_look (s := s.spent 1) sure here' real'
            (known.imp_left (word_of_answer here'))
          exact ⟨1 + 1, by rw [← spent_spent]; exact last⟩

/-- Where a block is there, and for a read, `bmap` looks it up and changes nothing. -/
theorem bmap_look (sure : NoFaults s) (file : isBdev (s.itab ip) = false) {rw : Bool}
    (known : mapped s ip bn ≠ none ∨ rw = true) :
    ∃ n, bmap ip bn rw s = .ok ((mapped s ip bn).getD NULLBLK, s.spent n) := by
  obtain ⟨n, looked⟩ := bmapTree_look sure known
  refine ⟨n, ?_⟩
  unfold bmap
  rw [bind_run (a := s) (t := s) rfl, file, if_neg Bool.false_ne_true, bind_run looked]
  rfl

omit [Build] in
/-- A block is read from the device, and a gap as zeros. -/
theorem fileBlock_mapped {b : Nat} (here : mapped s ip bn = some b) : fileBlock s ip bn = s.disk (s.itab ip).dev b := by
  unfold fileBlock
  rw [here]
  rfl

omit [Build] in
theorem fileBlock_gap (none' : mapped s ip bn = none) : fileBlock s ip bn = zeroBlock := by
  unfold fileBlock
  rw [none']
  rfl

end Blocks

/-! ## The entries of a directory -/

/-- A write beyond this entry is too far in the file. -/
def DIR_MAX : Nat := 2 ^ BLKOVERSIZE / DIR_LEN

def dirBlocks (s : Kernel) (wd : Nat) : Nat := ((s.itab wd).node.size + 511) / 512

def dirSlots (s : Kernel) (wd : Nat) : Slots.Table (List UInt8) Nat where
  count := 16 * dirBlocks s wd
  key := fun e => entryKey (entryName (fileBlock s wd (e / 16)) (e % 16))
  value := fun e => entryIno (fileBlock s wd (e / 16)) (e % 16)

/-- The number that the directory holds for a name. -/
def dirLookup (s : Kernel) (wd : Nat) (name : List UInt8) : Option Nat := (dirSlots s wd).lookup [] (nameKey name)

/-- A directory whose blocks are there. What is behind its end has no name, and no name is in two
entries. -/
structure DirLaid (s : Kernel) (wd m : Nat) (bs : List Nat) (foreign : Nat → Prop) : Prop
    extends Laid s wd m bs foreign where
  directory : fmt (s.itab wd).node.mode = F_DIR
  whole : (s.itab wd).node.size % DIR_LEN = 0
  bounded : (s.itab wd).node.size ≤ 2 ^ BLKOVERSIZE
  filled : ∀ bn < dirBlocks s wd, mapped s wd bn ≠ none
  blank : ∀ e, (s.itab wd).node.size / DIR_LEN ≤ e → e < DIR_MAX → (dirSlots s wd).key e = []
  unique : (dirSlots s wd).Unique []
  live : ∀ e < (dirSlots s wd).count, (dirSlots s wd).key e ≠ [] → (dirSlots s wd).value e ≠ 0

/-- The inode for what was looked up. -/
def opened (dev : Nat) (found : Option Nat) : K (Option Nat) :=
  match found with
  | none => return none
  | some ino => iOpen dev ino

section Lookups
variable {s : Kernel} {wd m : Nat} {bs : List Nat} {foreign : Nat → Prop} {name : List UInt8}

omit [Build] in
theorem isBdev_directory (directory : fmt (s.itab wd).node.mode = F_DIR) : isBdev (s.itab wd) = false := by
  unfold isBdev
  rw [directory]
  rfl

omit [Build] in
/-- The first entry of a block that `namecomp` accepts. -/
theorem find_entry (plain : PlainName name) {b : Block} {e : Nat}
    (found : (List.range 16).find? (fun e => namecomp name (entryName b e)) = some e) :
    e < 16 ∧ entryKey (entryName b e) = nameKey name ∧ ∀ e' < e, entryKey (entryName b e') ≠ nameKey name := by
  obtain ⟨hit, i, less, here, before⟩ := List.find?_eq_some_iff_getElem.mp found
  have same : i = e := by simpa using here
  rw [List.length_range] at less
  rw [← same] at hit ⊢
  refine ⟨less, (namecomp_iff plain).mp hit, ?_⟩
  intro e' earlier same'
  have miss := before e' earlier
  rw [List.getElem_range, Bool.not_eq_true'] at miss
  rw [(namecomp_iff plain).mpr same'] at miss
  cases miss

omit [Build] in
theorem find_no_entry (plain : PlainName name) {b : Block}
    (missed : (List.range 16).find? (fun e => namecomp name (entryName b e)) = none) :
    ∀ e < 16, entryKey (entryName b e) ≠ nameKey name := by
  intro e less same
  have miss := List.find?_eq_none.mp missed e (List.mem_range.mpr less)
  exact miss ((namecomp_iff plain).mpr same)

omit [Build] in
theorem nameKey_some (real : name ≠ []) : nameKey name ≠ [] := by
  cases name with
  | nil => exact absurd rfl real
  | cons c rest => exact List.cons_ne_nil c _

omit [Build] in
theorem lookup_seek (real : name ≠ []) : dirLookup s wd name = ((dirSlots s wd).seek (nameKey name)).map (dirSlots s wd).value :=
  if_neg (nameKey_some real)

/-- `srch_dir` from one of the blocks on, when the name is in none before. -/
theorem DirLaid.srchFrom (dir : DirLaid s wd m bs foreign) (sure : NoFaults s) (plain : PlainName name)
    (real : name ≠ []) (n : Nat) (within : n ≤ dirBlocks s wd) (k : Nat)
    (before : ∀ e < 16 * (dirBlocks s wd - n), (dirSlots s wd).key e ≠ nameKey name) :
    ∃ j, srchFrom wd name (dirBlocks s wd) n (s.spent k) =
      opened (s.itab wd).dev (dirLookup s wd name) (s.spent j) := by
  have counts : (dirSlots s wd).count = 16 * dirBlocks s wd := rfl
  induction n generalizing k with
  | zero =>
    have none' : dirLookup s wd name = none := by
      rw [lookup_seek real, Slots.seek_none.mpr before]
      rfl
    rw [none']
    exact ⟨k, rfl⟩
  | succ n ih =>
    have earlier : dirBlocks s wd - (n + 1) < dirBlocks s wd := by omega
    obtain ⟨b, here⟩ := Option.ne_none_iff_exists'.mp (dir.filled _ earlier)
    have answer : mapped (s.spent k) wd (dirBlocks s wd - (n + 1)) = some b := here
    obtain ⟨j, looked⟩ : ∃ j, bmap wd (dirBlocks s wd - (n + 1)) true (s.spent k) = _ :=
      bmap_look (s := s.spent k) sure (isBdev_directory dir.directory) (Or.inr rfl)
    rw [answer] at looked
    have read := bread_sure (s := (s.spent k).spent j) sure ((s.spent k).itab wd).dev ((some b).getD NULLBLK)
    have block : ((s.spent k).spent j).disk ((s.spent k).itab wd).dev ((some b).getD NULLBLK) =
        fileBlock s wd (dirBlocks s wd - (n + 1)) := (fileBlock_mapped here).symm
    rw [block] at read
    have entry : ∀ e < 16, (16 * (dirBlocks s wd - (n + 1)) + e) / 16 = dirBlocks s wd - (n + 1) ∧
        (16 * (dirBlocks s wd - (n + 1)) + e) % 16 = e := by
      intro e less
      omega
    unfold Fuzix.srchFrom
    rw [bind_run (a := s.spent k) (t := s.spent k) rfl, bind_run looked, bind_run read, spent_spent, spent_spent]
    dsimp only
    cases found : (List.range 16).find? (fun e =>
        namecomp name (entryName (fileBlock s wd (dirBlocks s wd - (n + 1))) e)) with
    | some e =>
      obtain ⟨less, hit, first⟩ := find_entry plain found
      obtain ⟨place, rest⟩ := entry e less
      have key : (dirSlots s wd).key (16 * (dirBlocks s wd - (n + 1)) + e) = nameKey name := by
        show entryKey (entryName (fileBlock s wd (_ / 16)) (_ % 16)) = _
        rw [place, rest, hit]
      have value : (dirSlots s wd).value (16 * (dirBlocks s wd - (n + 1)) + e) =
          entryIno (fileBlock s wd (dirBlocks s wd - (n + 1))) e := by
        show entryIno (fileBlock s wd (_ / 16)) (_ % 16) = _
        rw [place, rest]
      have sought : (dirSlots s wd).seek (nameKey name) = some (16 * (dirBlocks s wd - (n + 1)) + e) := by
        refine Slots.seek_of_first (by omega) key ?_
        intro e' less'
        by_cases old : e' < 16 * (dirBlocks s wd - (n + 1))
        · exact before e' old
        · have apart := first (e' - 16 * (dirBlocks s wd - (n + 1))) (by omega)
          obtain ⟨place', rest'⟩ := entry (e' - 16 * (dirBlocks s wd - (n + 1))) (by omega)
          rw [Nat.add_sub_cancel' (by omega)] at place' rest'
          show entryKey (entryName (fileBlock s wd (e' / 16)) (e' % 16)) ≠ _
          rw [place', rest']
          exact apart
      rw [lookup_seek real, sought, Option.map_some, value]
      exact ⟨_, rfl⟩
    | none =>
      have missed := find_no_entry plain found
      refine ih (by omega) _ ?_
      intro e less
      by_cases old : e < 16 * (dirBlocks s wd - (n + 1))
      · exact before e old
      · have apart := missed (e - 16 * (dirBlocks s wd - (n + 1))) (by omega)
        obtain ⟨place', rest'⟩ := entry (e - 16 * (dirBlocks s wd - (n + 1))) (by omega)
        rw [Nat.add_sub_cancel' (by omega)] at place' rest'
        show entryKey (entryName (fileBlock s wd (e / 16)) (e % 16)) ≠ _
        rw [place', rest']
        exact apart

/-- `srch_dir` opens the inode that the table holds for the name. -/
theorem DirLaid.srchDir (dir : DirLaid s wd m bs foreign) (sure : NoFaults s) (plain : PlainName name)
    (real : name ≠ []) : ∃ n, srchDir wd name s = opened (s.itab wd).dev (dirLookup s wd name) (s.spent n) :=
  dir.srchFrom sure plain real (dirBlocks s wd) (Nat.le_refl _) 0 fun e no => by omega

omit [Build] in
theorem wp_iCheck_names {j : Nat} {isnew : Bool} {dev ino : Nat} {stop : Stop → Prop} {t : Kernel}
    (here : (t.itab j).dev = dev ∧ (t.itab j).num = ino) :
    wp stop (iCheck j isnew) (fun r u => ∀ i, r = some i → (u.itab i).dev = dev ∧ (u.itab i).num = ino) t := by
  unfold iCheck
  rw [wp_bind, wp_get, wp_ite]
  constructor
  · intro _
    rw [wp_bind, wp_modifyInode, wp_pure]
    intro i same
    injection same with same
    rw [← same]
    dsimp only
    rw [put_same]
    exact here
  · intro _ i no
    cases no

/-- The inode that is opened has the number that was asked for. -/
theorem opened_names {dev : Nat} {found : Option Nat} {t u : Kernel} {i : Nat}
    (run : opened dev found t = .ok (some i, u)) (real : found ≠ some 0) :
    ∃ ino, found = some ino ∧ (u.itab i).dev = dev ∧ (u.itab i).num = ino := by
  cases found with
  | none => cases run
  | some ino =>
    refine ⟨ino, rfl, ?_⟩
    have spec : wp (fun _ => True) (iOpen dev ino)
        (fun r u => ∀ i, r = some i → (u.itab i).dev = dev ∧ (u.itab i).num = ino) t := by
      unfold iOpen
      rw [wp_ite]
      refine ⟨fun _ => trivial, fun _ => ?_⟩
      rw [wp_ite]
      refine ⟨fun no => absurd (congrArg some no) real, fun _ => ?_⟩
      unfold iGet
      rw [wp_bind, wp_get]
      cases fsTabGet t dev with
      | none => trivial
      | some m =>
        dsimp only
        rw [wp_ite]
        refine ⟨fun _ i no => (by cases no), fun _ => ?_⟩
        cases place : iFind t dev ino with
        | full =>
          intro i no
          cases no
        | found j =>
          refine wp_iCheck_names ?_
          unfold iFind at place
          split at place
          · rename_i k hit
            injection place with place
            have both := List.find?_some hit
            rw [decide_eq_true_eq] at both
            rw [← place]
            exact both
          · split at place
            · cases place
            · cases place
        | unused j =>
          dsimp only
          rw [wp_bind]
          refine wp_any ?_
          intro r v
          cases r with
          | none =>
            intro i no
            cases no
          | some b =>
            dsimp only
            rw [wp_bind, wp_modifyInode]
            refine wp_iCheck_names ?_
            dsimp only
            rw [put_same]
            exact ⟨rfl, rfl⟩
    exact wp_ok spec run i rfl

end Lookups

/-! ## A directory with one block -/

section Single
variable {s : Kernel} {wd m b : Nat} {bs : List Nat} {foreign : Nat → Prop}

omit [Build] in
theorem mapped_single (addr : ∀ k < 20, (s.itab wd).node.addr k = if k = 0 then b else 0) (bn : Nat) :
    mapped s wd (bn + 1) = none := by
  have gap : ∀ slot ks, slot < 20 → slot ≠ 0 → (nodeAt s wd (slot :: ks)).answer = none := by
    intro slot ks less other
    change (Trie.find (.block 0) (entries _ _) (.block ((s.itab wd).node.addr slot)) ks).answer = none
    rw [addr slot less, if_neg other, Trie.find_null]
    rfl
  unfold mapped pathOf
  split
  · exact gap _ _ (by omega) (by omega)
  · split
    · exact gap _ _ (by decide) (by decide)
    · exact gap _ _ (by decide) (by decide)

/-- One block holds the entries of a small directory. -/
theorem Laid.single_dir (laid : Laid s wd m bs foreign) (directory : fmt (s.itab wd).node.mode = F_DIR)
    (size : (s.itab wd).node.size = 512) (addr : ∀ k < 20, (s.itab wd).node.addr k = if k = 0 then b else 0)
    (real : b ≠ 0) (unique : (dirSlots s wd).Unique [])
    (live : ∀ e < (dirSlots s wd).count, (dirSlots s wd).key e ≠ [] → (dirSlots s wd).value e ≠ 0) :
    DirLaid s wd m bs foreign := by
  refine { laid with
    directory := directory, whole := ?_, bounded := ?_, filled := ?_, blank := ?_, unique := unique, live := live }
  · rw [size]
    rfl
  · rw [size]
    show 512 ≤ 33554432
    decide
  · intro bn less
    have few : bn < ((s.itab wd).node.size + 511) / 512 := less
    rw [size] at few
    have first : bn = 0 := by omega
    have block : (nodeAt s wd (pathOf 0)).answer = some b := by
      have here : nodeAt s wd (pathOf 0) = .block b := congrArg Node.block ((addr 0 (by decide)).trans (if_pos rfl))
      rw [here]
      exact if_neg real
    rw [first]
    unfold mapped
    rw [block]
    exact Option.some_ne_none b
  · intro e past _
    rw [size] at past
    have sixteen : 512 / DIR_LEN = 16 := rfl
    obtain ⟨bn, place⟩ : ∃ bn, e / 16 = bn + 1 := ⟨e / 16 - 1, by omega⟩
    show entryKey (entryName (fileBlock s wd (e / 16)) (e % 16)) = []
    rw [place, fileBlock_gap (mapped_single addr bn)]
    rfl

end Single

end Fuzix
