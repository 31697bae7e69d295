import Fuzix.PassesBooks
import Fuzix.Fsck

/-!
# The free list between passes 2 and 3 of fsck

Pass 2 builds the free list of just the blocks that pass 1 has not marked. It writes to these
blocks and to block 1 only, so that the files are those that pass 1 has left.
-/

namespace Passes

open Table Image Wp Counter Chain
open Fuzix (FILESYS_TABSIZE ROOTINODE)
open Fsck (Dinode inode Needed)

/-- The bitmap in the form of the model of pass 2 alone. -/
def bytes (bitmap : Nat → Bits.Byte) : Fsck.Bitmap := ⟨0, fun k => UInt8.ofBitVec (bitmap k)⟩

theorem bytes_marks (bitmap : Nat → Bits.Byte) (b : Nat) : (bytes bitmap).marks b = Bits.test bitmap 0 b := by
  unfold Fsck.Bitmap.marks Bits.test bytes
  rw [Nat.zero_add, BitVec.getLsbD, Nat.testBit_eq_decide_div_mod_eq, Nat.shiftRight_eq_div_pow]
  rfl

section
variable {h : Host} {s t : State} {j : Nat}

/-- The blocks from `j` on that are not marked. -/
def vacant (h : Host) (s : State) (j : Nat) : List Nat := (bytes s.bitmap).unused j (s.fsize h - j)

/-- The blocks from `j` on have been freed. -/
structure Freeing (h : Host) (s : State) (j : Nat) (t : State) : Prop where
  bitmap : t.bitmap = s.bitmap
  mounted : t.sb.s_mounted = s.sb.s_mounted
  isize : t.sb.s_isize = s.sb.s_isize
  fsize : t.sb.s_fsize = s.sb.s_fsize
  allocs : t.allocs = s.allocs
  built : Built h.swizzling t.sb (links h.swizzling t.disk) (vacant h s j)
  disk : ∀ b, Bits.test s.bitmap 0 b = true ∨ ¬ Inside h s b → t.disk b = s.disk b

theorem wp_free2 (inside : Inside h s j) (small : s.fsize h < 65536) (low : 0 < s.isize h) (freeing : Freeing h s (j + 1) t) :
    wp (fun _ => True) (free2 h j) (fun _ u => Freeing h s j u) t := by
  have size : t.fsize h = s.fsize h := by
    unfold State.fsize
    rw [freeing.fsize]
  have mapped : inBitmap h t j := by
    have less := inside.2
    unfold inBitmap
    omega
  have split : s.fsize h - j = s.fsize h - (j + 1) + 1 := by
    have less := inside.2
    omega
  unfold free2 bittest
  simp only [wp_bind, wp_get, wp_ite, wp_pure, wp_throw, freeing.bitmap]
  refine ⟨fun _ => ⟨fun used => ?_, fun unused => ?_⟩, fun _ => True.intro⟩
  · have list : vacant h s j = vacant h s (j + 1) := by
      unfold vacant
      rw [split, Fsck.unused_used ((bytes_marks s.bitmap j).trans used)]
    exact ⟨freeing.bitmap, freeing.mounted, freeing.isize, freeing.fsize, freeing.allocs, list ▸ freeing.built,
      freeing.disk⟩
  · have free : Bits.test s.bitmap 0 j = false := Bool.eq_false_iff.mpr unused
    have list : vacant h s j = j :: vacant h s (j + 1) := by
      unfold vacant
      rw [split, Fsck.unused_free ((bytes_marks s.bitmap j).trans free)]
    have few : (vacant h s (j + 1)).length ≤ s.fsize h - (j + 1) := Fsck.unused_length
    have new : j ∉ vacant h s (j + 1) := by
      intro member
      have later := Fsck.unused_inside member
      omega
    have less := inside.2
    have first := inside.1
    obtain ⟨st, done, built, disk, mounted, isize, fsize, _⟩ := freeing.built.push h.width
      (fun j words d => put d j words) (fun _ => links_put) (by omega) (by omega) new (by omega)
    have kept : ∀ d : Disk, (∀ b, b ≠ j → d b = t.disk b) →
        ∀ b, Bits.test s.bitmap 0 b = true ∨ ¬ Inside h s b → d b = s.disk b := by
      intro d same b away
      rw [← freeing.disk b away]
      apply same
      rintro rfl
      rcases away with marked | outside
      · rw [free] at marked
        cases marked
      · exact outside inside
    unfold spill swizzle dwrite
    simp only [wp_bind, wp_get]
    by_cases full : swap16 h.swizzling t.sb.s_nfree = 50
    · have full' : swap h t.sb.s_nfree = 50 := full
      simp only [free_block, if_pos full] at done
      obtain ⟨tfree, count, rfl⟩ := Option.map_eq_some_iff.mp done
      have same : swizzle16 h.width h.swizzling (swap h t.sb.s_tfree + 1) = some tfree := count
      rw [if_pos full']
      simp only [wp_bind, wp_get, wp_ite, wp_set, wp_throw, wp_modify, same]
      refine ⟨fun _ => ?_, fun _ => True.intro⟩
      refine ⟨freeing.bitmap, freeing.mounted, freeing.isize, freeing.fsize, freeing.allocs, list ▸ built, ?_⟩
      exact kept _ fun b other => put_ne _ _ other
    · have full' : ¬ swap h t.sb.s_nfree = 50 := full
      simp only [free_block, if_neg full] at done
      obtain ⟨tfree, count, rfl⟩ := Option.map_eq_some_iff.mp done
      have same : swizzle16 h.width h.swizzling (swap h t.sb.s_tfree + 1) = some tfree := count
      rw [if_neg full']
      simp only [wp_pure, wp_modify, same]
      refine ⟨freeing.bitmap, freeing.mounted, freeing.isize, freeing.fsize, freeing.allocs, list ▸ built, ?_⟩
      exact kept _ fun _ _ => rfl

/-- The first block that the loop looks at last. -/
def lowest (h : Host) (s : State) : Nat := min (s.isize h) (s.fsize h)

/-- The loop of pass 2. -/
theorem wp_freelist {fuel : Loop → Nat} (enough : Enough h (s.isize h) fuel) (low : 0 < s.isize h)
    (freeing : Freeing h s (s.fsize h) s) :
    wp (fun _ => True) (freelist h fuel) (fun _ u => Freeing h s (lowest h s) u) s := by
  have limit : s.fsize h < 65536 := swap16_lt
  have below : s.isize h < 65536 := swap16_lt
  have lasts : 65537 ≤ fuel .freelist := enough .freelist (Nat.ne_of_gt low)
  unfold freelist
  rw [wp_bind, wp_get]
  by_cases empty : s.fsize h = 0
  · have first : less16 (s.fsize h) = 65535 := by
      rw [empty]
      rfl
    have outside : ¬ inBitmap h s 65535 := by
      unfold inBitmap
      rw [empty]
      decide
    obtain ⟨rest, same⟩ : ∃ rest, fuel .freelist = rest + 1 := ⟨fuel .freelist - 1, by omega⟩
    rw [first, same]
    unfold Counter.count free2 bittest
    rw [if_pos (decide_eq_true (by omega))]
    simp only [wp_bind, wp_get, wp_ite, wp_throw, wp_pure, outside, false_implies, not_false_eq_true, true_implies, and_self]
  · have first : less16 (s.fsize h) = s.fsize h - 1 := by
      unfold less16
      omega
    have top : s.fsize h - 1 + 1 = s.fsize h := by omega
    rw [first]
    refine wp_mono (wp_down (I := fun j _ u => j < s.fsize h ∧ lowest h s ≤ j + 1 ∧ Freeing h s (j + 1) u) low (by omega)
      (by omega) (by omega) ⟨by omega, ?_, top.symm ▸ freeing⟩ ?_) ?_
    · unfold lowest
      omega
    · rintro j _ u inside _ ⟨less, _, freeing⟩
      have before : j - 1 + 1 = j := by omega
      refine wp_mono (wp_free2 ⟨inside, less⟩ limit low freeing) fun _ v freeing => ?_
      rw [before]
      refine ⟨by omega, ?_, freeing⟩
      unfold lowest
      omega
    · rintro _ u ⟨j, done, less, above, freeing⟩
      have here : j + 1 = lowest h s := by
        unfold lowest at above ⊢
        omega
      exact here ▸ freeing

theorem vacant_iff (b : Nat) : b ∈ vacant h s (lowest h s) ↔ Inside h s b ∧ Bits.test s.bitmap 0 b = false := by
  unfold vacant Fsck.Bitmap.unused lowest Inside
  rw [List.mem_filter, List.mem_range'_1, bytes_marks, Bool.not_eq_true']
  constructor
  · rintro ⟨inside, free⟩
    exact ⟨by omega, free⟩
  · rintro ⟨inside, free⟩
    exact ⟨by omega, free⟩

end

/-! ## What passes 1 and 2 are for -/

section
variable (h : Host)

/-- The free list of a superblock is a list of blocks in range, each once. -/
structure FreeList (s : State) (sb : Superblock) (disk : Disk) (free : List Nat) : Prop where
  chain : Yields FILESYS_TABSIZE 0 (links h.swizzling disk) (sb.top h.swizzling) free
  distinct : free.Nodup
  inside : ∀ b ∈ free, Inside h s b

/-- A block that a file uses. -/
def Used (s : State) (disk : Disk) (b : Nat) : Prop :=
  ∃ n, Listed h s n ∧ Filed h (inode disk n) ∧ Uses h disk (inode disk n) b

/-- The pointers of all files are in range, and the free list has no block of a file. -/
structure Checked (s : State) : Prop where
  room : 2 ≤ s.isize h
  count : s.inodes h < 65536
  files : ∀ n, Listed h s n → Filed h (inode s.disk n) → Framed h s (inode s.disk n) ∧ Tidy h s (inode s.disk n)
  list : ∃ free, FreeList h s s.sb s.disk free ∧ ∀ b ∈ free, ¬ Used h s s.disk b

end

section
variable {h : Host} {s t u : State} {ino ino' : Dinode} {b n : Nat}

/-- The sizes in the superblock. -/
def Sized (h : Host) (s t : State) : Prop := t.isize h = s.isize h ∧ t.fsize h = s.fsize h

theorem Sized.inside (sized : Sized h s t) (b : Nat) : Inside h t b ↔ Inside h s b := by
  unfold Inside
  rw [sized.1, sized.2]

theorem Sized.listed (sized : Sized h s t) (n : Nat) : Listed h t n ↔ Listed h s n := by
  unfold Listed State.inodes
  rw [sized.1]

theorem SameFile.framed (same : SameFile h s.disk t.disk ino ino') (sized : Sized h s t) (framed : Framed h s ino) :
    Framed h t ino' := by
  intro k which some
  rw [same.addr k which] at some ⊢
  exact (sized.inside _).mpr (framed k which some)

theorem SameFile.tidy (same : SameFile h s.disk t.disk ino ino') (sized : Sized h s t) (tidy : Tidy h s ino) :
    Tidy h t ino' := by
  constructor
  · rw [same.last]
    exact tidy.short
  · intro some k less entry
    rw [same.addr 19 (.inr rfl)] at some entry ⊢
    rw [same.second some] at entry ⊢
    exact (sized.inside _).mpr (tidy.second some k less entry)
  · intro bno inside some
    rw [same.last] at inside
    obtain ⟨found, present⟩ := same.look bno inside
    rw [found] at some ⊢
    obtain ⟨range, needed⟩ := tidy.data bno inside some
    exact ⟨(sized.inside _).mpr range, present.mpr needed⟩

/-- The free list is empty before the loop. -/
theorem freeing_start (nfree : s.sb.s_nfree = swap h 1) (last : s.sb.s_free 0 = 0) (tfree : s.sb.s_tfree = 0) :
    Freeing h s (s.fsize h) s := by
  have empty : vacant h s (s.fsize h) = [] := by
    unfold vacant
    rw [Nat.sub_self]
    rfl
  exact ⟨rfl, rfl, rfl, rfl, rfl, empty.symm ▸ built_nil nfree last tfree, fun _ _ => rfl⟩

/-- What is known after pass 2. -/
structure Passed2 (h : Host) (t u : State) : Prop where
  isize : u.sb.s_isize = t.sb.s_isize
  fsize : u.sb.s_fsize = t.sb.s_fsize
  list : ∃ free, FreeList h t u.sb u.disk free ∧ ∀ b ∈ free, Bits.test t.bitmap 0 b = false
  disk : ∀ b, b ≠ 1 → Bits.test t.bitmap 0 b = true ∨ ¬ Inside h t b → u.disk b = t.disk b

/-- The superblock is written last. -/
theorem Freeing.written {v : State} (freeing : Freeing h v (lowest h v) u) (room : 2 ≤ t.isize h)
    (bitmap : v.bitmap = t.bitmap) (disk : v.disk = t.disk) (isize : v.sb.s_isize = t.sb.s_isize)
    (fsize : v.sb.s_fsize = t.sb.s_fsize) : wp (fun _ => True) (writeSuper h) (fun _ w => Passed2 h t w) u := by
  have sized : Sized h t v := ⟨congrArg (swap h) isize, congrArg (swap h) fsize⟩
  have free : ∀ b ∈ vacant h v (lowest h v), Inside h t b ∧ Bits.test t.bitmap 0 b = false := by
    intro b member
    rw [vacant_iff, bitmap, sized.inside] at member
    exact member
  unfold writeSuper dwrite
  simp only [wp_bind, wp_get, wp_ite, wp_set, wp_throw]
  refine ⟨fun _ => ?_, fun _ => True.intro⟩
  refine ⟨freeing.isize.trans isize, freeing.fsize.trans fsize, ⟨vacant h v (lowest h v), ?_, ?_⟩, ?_⟩
  · constructor
    · refine freeing.built.chain.congr rfl (fun _ _ => rfl) fun b member => .of_eq ?_
      have low := (free b member).1.1
      rw [links_put]
      exact put_ne _ _ (by omega)
    · exact Fsck.unused_distinct
    · exact fun b member => (free b member).1
  · exact fun b member => (free b member).2
  · intro b super away
    rw [← bitmap, ← sized.inside] at away
    rw [← disk, ← freeing.disk b away]
    exact put_ne _ _ super

theorem wp_pass2 (all : Accepts h) {fuel : Loop → Nat} (enough : Enough h (t.isize h) fuel) (room : 2 ≤ t.isize h) :
    wp (fun _ => True) (pass2 h fuel) (fun _ u => Passed2 h t u) t := by
  have last : put t.sb.s_free 0 0 0 = 0 := put_same _ _ _
  unfold pass2 yes_noerror
  simp only [wp_bind, wp_get, wp_set, wp_pure]
  rw [all t.asked, if_pos rfl]
  simp only [wp_bind, wp_modify]
  refine wp_mono (wp_freelist enough (Nat.lt_of_lt_of_le (by decide) room) (freeing_start rfl last rfl)) ?_
  exact fun _ u freeing => freeing.written room rfl rfl rfl rfl

/-- After both passes all is as it should be if the image was clear. -/
theorem checked (clear : Clear h s) (room : 2 ≤ s.isize h) (first : Passed1 h s t) (second : Passed2 h t u) :
    Checked h u := by
  have sized : Sized h s t := ⟨congrArg (swap h) first.isize, congrArg (swap h) first.fsize⟩
  have sized' : Sized h s u :=
    ⟨congrArg (swap h) (second.isize.trans first.isize), congrArg (swap h) (second.fsize.trans first.fsize)⟩
  have inodes : ∀ n, Listed h s n → inode u.disk n = inode t.disk n := by
    intro n listed
    have below := ((clear.bounds).2 n listed.2).1
    have outside : ¬ Inside h t (n / 8 + 2) := by
      rw [sized.inside]
      unfold Inside
      omega
    unfold inode
    rw [second.disk (n / 8 + 2) (by omega) (.inr outside)]
  have files : ∀ n, Listed h s n → Filed h (inode s.disk n) →
      SameFile h s.disk u.disk (trimmed h s (inode s.disk n)) (inode u.disk n) := by
    intro n listed filed
    have tidy := clear.tidy n listed filed
    refine same_file ?_ (agrees_of ?_ fun b uses => ?_) tidy
    · intro k less
      rw [inodes n listed, first.done n listed k less, repaired_filed filed (filed_some filed)]
    · have outside : ¬ Inside h t 0 := by
        rw [sized.inside]
        unfold Inside
        omega
      rw [second.disk 0 (by decide) (.inr outside), first.outer 0 (by decide) (.inl rfl)]
    · have inside := uses_inside (trimmed_framed s _) tidy uses
      have low := inside.1
      have marked := (first.marks b).mpr ⟨n, listed, filed, uses⟩
      rw [second.disk b (by omega) (.inl marked), first.outer b (by omega) (.inr low)]
  have filed_iff : ∀ n, Listed h s n → (Filed h (inode u.disk n) ↔ Filed h (inode s.disk n)) := by
    intro n listed
    rw [inodes n listed]
    exact (first.same_file clear listed).1
  constructor
  · rw [sized'.1]
    exact room
  · have bound := clear.bounds.1
    unfold State.inodes at bound ⊢
    rw [sized'.1]
    exact bound
  · intro n listed filed
    have listed := (sized'.listed n).mp listed
    have filed := (filed_iff n listed).mp filed
    have same := files n listed filed
    exact ⟨same.framed sized' (trimmed_framed s _), same.tidy sized' (clear.tidy n listed filed)⟩
  · obtain ⟨free, list, unmarked⟩ := second.list
    refine ⟨free, ⟨list.chain, list.distinct, fun b member => ?_⟩, ?_⟩
    · exact (sized'.inside b).mpr ((sized.inside b).mp (list.inside b member))
    · rintro b member ⟨n, listed, filed, uses⟩
      have listed := (sized'.listed n).mp listed
      have filed := (filed_iff n listed).mp filed
      have marked := (first.marks b).mpr ⟨n, listed, filed, (files n listed filed).symm.uses uses⟩
      rw [unmarked b member] at marked
      cases marked

end

end Passes
