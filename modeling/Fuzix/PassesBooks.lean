import Fuzix.PassesRuns

/-!
# What pass 1 of fsck keeps books of

The bitmap after pass 1 against the blocks that the inodes use, and the blocks that were
written. With all answers yes pass 1 is right for an image whose files have no pointer out of
range but for the index blocks that the inodes name, as these are all that it repairs well.
-/

namespace Passes

open Table Image Wp Counter
open Fuzix (F_REG F_DIR fmt ROOTINODE)
open Devio (IntWidth)
open Fsck (Dinode inode Needed)

/-! ## The blocks of a file -/

section
variable (h : Host)

/-- A regular file or a directory. -/
def Filed (ino : Dinode) : Prop := fmt (swap h ino.i_mode) = F_REG ∨ fmt (swap h ino.i_mode) = F_DIR

instance (ino : Dinode) : Decidable (Filed h ino) := by unfold Filed; infer_instance

/-- The number of the last block of the file that is looked at. -/
def last (ino : Dinode) : Nat := swizzle32 h.swizzling ino.i_size / 512

/-- The index blocks of the file, and its blocks that are there. -/
inductive Uses (disk : Disk) (ino : Dinode) : Nat → Prop where
  | index (k : Nat) (which : k = 18 ∨ k = 19) (some : ino.i_addr k ≠ 0) : Uses disk ino (swap h (ino.i_addr k))
  | second (k : Nat) (inside : k < 256) (some : ino.i_addr 19 ≠ 0) (entry : disk (swap h (ino.i_addr 19)) k ≠ 0) :
    Uses disk ino (swap h (disk (swap h (ino.i_addr 19)) k))
  | data (bno : Nat) (inside : bno ≤ last h ino) (needed : Needed h.swizzling disk ino bno)
    (some : Fsck.getblkno h.swizzling disk ino bno ≠ 0) : Uses disk ino (Fsck.getblkno h.swizzling disk ino bno)

def Inside (s : State) (b : Nat) : Prop := s.isize h ≤ b ∧ b < s.fsize h

/-- An inode that is looked at. -/
def Listed (s : State) (n : Nat) : Prop := ROOTINODE ≤ n ∧ n < s.inodes h

/-- An inode whose words have changed, or whose blocks are found elsewhere. -/
def Repaired (s t : State) (n : Nat) : Prop :=
  (∃ k < 32, inode t.disk n k ≠ inode s.disk n k) ∨
    ∃ bno, Fsck.getblkno h.swizzling t.disk (inode t.disk n) bno ≠ Fsck.getblkno h.swizzling s.disk (inode s.disk n) bno

/-- The books are right: the blocks that are marked, and those that were written. -/
structure Booked (s t : State) : Prop where
  marks : ∀ b, Bits.test t.bitmap 0 b = true ↔
    Inside h s b ∧ ∃ n, Listed h s n ∧ Filed h (inode t.disk n) ∧ Uses h t.disk (inode t.disk n) b
  written : ∀ b ∈ t.written, b = 1 ∨ 2 ≤ b ∧ b < s.isize h ∨ ∃ n, Listed h s n ∧ Repaired h s t n ∧
    (∃ k, (k = 18 ∨ k = 19) ∧ b = swap h (Dinode.i_addr (inode t.disk n) k) ∨
      ∃ k < 256, b = swap h (t.disk (swap h (Dinode.i_addr (inode t.disk n) 19)) k))

/-! ## What pass 1 makes of an inode -/

/-- An index block that is out of range or past the end of the file is forgotten. -/
def cut (s : State) (b : Nat) (ino : Dinode) : Dinode :=
  if ino.i_addr b ≠ 0 ∧ (outOfRange h s (swap h (ino.i_addr b)) ∨ swizzle32 h.swizzling ino.i_size < 18 * 512) then
    put ino (12 + b) 0
  else ino

def trimmed (s : State) (ino : Dinode) : Dinode := cut h s 19 (cut h s 18 ino)

def repaired (s : State) (ino : Dinode) : Dinode :=
  if ino.i_mode = 0 then ino
  else if typed (fmt (swap h ino.i_mode)) then if Filed h ino then trimmed h s ino else ino
  else put (put ino 0 0) 1 0

/-- The pointers of a file are in range, and the second level is there where the file has blocks
or block 0 has no word that looks like one. -/
structure Tidy (s : State) (ino : Dinode) : Prop where
  short : last h ino < 65535
  second : ino.i_addr 19 ≠ 0 → ∀ k < 256, s.disk (swap h (ino.i_addr 19)) k ≠ 0 →
    Inside h s (swap h (s.disk (swap h (ino.i_addr 19)) k))
  data : ∀ bno ≤ last h ino, Fsck.getblkno h.swizzling s.disk ino bno ≠ 0 →
    Inside h s (Fsck.getblkno h.swizzling s.disk ino bno) ∧ Needed h.swizzling s.disk ino bno

/-- The sizes are such that the counters and the link map suffice, and all files are tidy. -/
structure Clear (s : State) : Prop where
  small : h.width = .int16 → 2 ≤ s.isize h ∧ s.isize h < 8192
  wide : h.width = .int32 → s.isize h ≤ 8193
  tidy : ∀ n, Listed h s n → Filed h (inode s.disk n) → Tidy h s (trimmed h s (inode s.disk n))

end

section
variable {h : Host} {s t : State} {n b : Nat} {d : Disk} {ino : Dinode} {M : Nat → Prop}

/-! ## While an inode is looked at -/

/-- The words of inode `n` are those of `ino`, all others are as in `d`, and the blocks of `M` are marked. -/
structure During (h : Host) (s : State) (d : Disk) (n : Nat) (ino : Dinode) (M : Nat → Prop) (t : State) : Prop where
  sb : t.sb = s.sb
  other : ∀ b w, ¬ (b = n / 8 + 2 ∧ 32 * (n % 8) ≤ w ∧ w < 32 * (n % 8) + 32) → t.disk b w = d b w
  own : ∀ k < 32, inode t.disk n k = ino k
  marks : ∀ b, Bits.test t.bitmap 0 b = true ↔ M b
  written : ∀ b ∈ t.written, 2 ≤ b ∧ b < s.isize h

/-- The run stops only because a block cannot be read or written. -/
def Failed (e : Exit) : Prop := e = .exit

/-- All repairs are accepted. -/
def Accepts (h : Host) : Prop := ∀ i, h.answers i = true

theorem During.congr {M' : Nat → Prop} (during : During h s d n ino M t) (same : ∀ b, M b ↔ M' b) :
    During h s d n ino M' t :=
  ⟨during.sb, during.other, during.own, fun b => (during.marks b).trans (same b), during.written⟩

theorem wp_daread {Q : (Nat → Nat) → State → Prop} (next : Q (t.disk b) t) : wp Failed (daread b) Q t := by
  unfold daread
  simp only [wp_bind, wp_get, wp_ite, wp_pure, wp_throw]
  exact ⟨fun _ => next, fun _ => rfl⟩

theorem wp_yes (all : Accepts h) {Q : Bool → State → Prop} (during : During h s d n ino M t)
    (next : ∀ u, During h s d n ino M u → Q true u) : wp Failed (yes h) Q t := by
  unfold yes
  simp only [wp_bind, wp_get, wp_set, wp_pure]
  rw [all t.asked]
  exact next _ ⟨during.sb, during.other, during.own, during.marks, during.written⟩

/-- The inode is written back. -/
theorem wp_iwrite (below : n / 8 + 2 < s.isize h) (during : During h s d n ino M t) (ino' : Dinode) :
    wp Failed (iwrite h n ino') (fun _ u => During h s d n ino' M u) t := by
  unfold iwrite dwrite
  rw [wp_bind]
  apply wp_daread
  simp only [wp_bind, wp_get, wp_ite, wp_set, wp_throw]
  refine ⟨fun _ => ?_, fun _ => rfl⟩
  refine ⟨during.sb, ?_, ?_, during.marks, ?_⟩
  · intro b w outside
    rw [← during.other b w outside]
    show put t.disk (n / 8 + 2) _ b w = t.disk b w
    rw [put_apply]
    by_cases block : b = n / 8 + 2
    · subst block
      rw [if_pos rfl, if_neg fun inside => outside ⟨rfl, inside⟩]
    · rw [if_neg block]
  · intro k less
    show put t.disk (n / 8 + 2) _ (n / 8 + 2) (32 * (n % 8) + k) = ino' k
    rw [put_same, if_pos ⟨by omega, by omega⟩, Nat.add_sub_cancel_left]
  · intro b written
    rcases List.mem_cons.mp written with rfl | older
    · exact ⟨by omega, below⟩
    · exact during.written b older

theorem wp_zapAddr (all : Accepts h) (below : n / 8 + 2 < s.isize h) (b : Nat) (bad : Prop) [Decidable bad]
    (during : During h s d n ino M t) :
    wp Failed (zapAddr h n b bad ino) (fun ino' u => ino' = (if bad then put ino (12 + b) 0 else ino) ∧
      During h s d n ino' M u) t := by
  unfold zapAddr
  by_cases zap : bad
  · rw [if_pos zap, if_pos zap, wp_bind]
    refine wp_yes all during fun u during => ?_
    rw [if_pos rfl, wp_bind]
    exact wp_mono (wp_iwrite below during _) fun _ v during => ⟨rfl, during⟩
  · rw [if_neg zap, if_neg zap]
    exact ⟨rfl, during⟩

theorem Inside.mapped {u : State} (inside : Inside h s b) (sb : u.sb = s.sb) : inBitmap h u b := by
  have size : u.fsize h = s.fsize h := by
    unfold State.fsize
    rw [sb]
  have less := inside.2
  unfold inBitmap
  omega

theorem wp_bitset (inside : Inside h s b) (during : During h s d n ino M t) :
    wp Failed (bitset h b) (fun _ u => During h s d n ino (fun x => M x ∨ x = b) u) t := by
  unfold bitset
  simp only [wp_bind, wp_get, wp_ite, wp_set, wp_throw]
  refine ⟨fun _ => ?_, fun out => absurd (inside.mapped during.sb) out⟩
  refine ⟨during.sb, during.other, during.own, ?_, during.written⟩
  intro x
  show Bits.test (Bits.set t.bitmap 0 b) 0 x = true ↔ _
  rw [Bits.test_set, Bool.or_eq_true, decide_eq_true_iff, during.marks]

theorem wp_markIf (test : Prop) [Decidable test] (inside : test → Inside h s b) (during : During h s d n ino M t) :
    wp Failed (markIf h test b) (fun _ u => During h s d n ino (fun x => M x ∨ test ∧ x = b) u) t := by
  unfold markIf
  by_cases mark : test
  · rw [if_pos mark]
    refine wp_mono (wp_bitset (inside mark) during) fun _ u during => during.congr fun x => ?_
    simp [mark]
  · rw [if_neg mark]
    exact during.congr fun x => by simp [mark]

theorem cut_addr (s : State) {b : Nat} (some : (cut h s b ino).i_addr b ≠ 0) : cut h s b ino = ino ∧
    ¬ outOfRange h s (swap h (ino.i_addr b)) := by
  unfold cut at some ⊢
  by_cases bad : ino.i_addr b ≠ 0 ∧
      (outOfRange h s (swap h (ino.i_addr b)) ∨ swizzle32 h.swizzling ino.i_size < 18 * 512)
  · rw [if_pos bad] at some
    exact absurd (put_same ino (12 + b) 0) some
  · rw [if_neg bad] at some ⊢
    exact ⟨rfl, fun out => bad ⟨some, .inl out⟩⟩

theorem inside_of {v : Nat} (fine : ¬ outOfRange h s v) : Inside h s v := by
  unfold outOfRange at fine
  exact ⟨by omega, by omega⟩

theorem outOfRange_congr {u : State} (sb : u.sb = s.sb) (v : Nat) : outOfRange h u v ↔ outOfRange h s v := by
  unfold outOfRange State.isize State.fsize
  rw [sb]

/-- An index block of the inode. -/
theorem wp_single (all : Accepts h) (below : n / 8 + 2 < s.isize h) (b : Nat)
    (during : During h s d n ino M t) :
    wp Failed (single h n b ino) (fun ino' u => ino' = cut h s b ino ∧
      During h s d n ino' (fun x => M x ∨ ino'.i_addr b ≠ 0 ∧ x = swap h (ino'.i_addr b)) u) t := by
  have gone : Dinode.i_addr (put ino (12 + b) 0) b = 0 := put_same _ _ _
  unfold single
  simp only [wp_bind, wp_get]
  have range := outOfRange_congr (h := h) during.sb
  refine wp_mono (wp_zapAddr all below b _ during) ?_
  rintro ino₁ u₁ ⟨first, during₁⟩
  refine wp_mono (wp_zapAddr all below b _ during₁) ?_
  rintro ino₂ u₂ ⟨second, during₂⟩
  have whole : ino₂ = cut h s b ino := by
    unfold cut
    by_cases out : ino.i_addr b ≠ 0 ∧ outOfRange h t (swap h (ino.i_addr b))
    · rw [if_pos out] at first
      subst first
      rw [second, if_neg (fun no => no.1 gone), if_pos ⟨out.1, .inl ((range _).mp out.2)⟩]
    · rw [if_neg out] at first
      subst first
      rw [second]
      by_cases past : ino₁.i_addr b ≠ 0 ∧ swizzle32 h.swizzling ino₁.i_size < 18 * 512
      · rw [if_pos past, if_pos ⟨past.1, .inr past.2⟩]
      · rw [if_neg past, if_neg]
        rintro ⟨some, out' | past'⟩
        · exact out ⟨some, (range _).mpr out'⟩
        · exact past ⟨some, past'⟩
  have inside : ino₂.i_addr b ≠ 0 → Inside h s (swap h (ino₂.i_addr b)) := by
    intro some
    subst whole
    obtain ⟨same, fine⟩ := cut_addr s some
    rw [same]
    exact inside_of fine
  refine wp_mono (wp_markIf _ inside during₂) fun _ u₃ during₃ => ?_
  exact ⟨whole, during₃⟩

/-- The entries of the first double indirect block. -/
theorem wp_doubles {buf : Nat → Nat} (inside : ∀ k < 256, buf k ≠ 0 → Inside h s (swap h (buf k))) {k : Nat}
    (low : k ≤ 256) (during : During h s d n ino M t) :
    wp Failed (doubles h k buf) (fun buf' u => buf' = buf ∧
      During h s d n ino (fun x => M x ∨ ∃ j < k, buf j ≠ 0 ∧ x = swap h (buf j)) u) t := by
  induction k with
  | zero =>
    refine ⟨rfl, during.congr fun x => ?_⟩
    simp
  | succ k ih =>
    unfold doubles
    rw [wp_bind]
    refine wp_mono (ih (by omega)) ?_
    rintro buf' u ⟨rfl, during⟩
    unfold double zapEntry
    simp only [wp_bind, wp_get]
    have fine : ¬ (buf' k ≠ 0 ∧ outOfRange h u (swap h (buf' k))) := by
      rintro ⟨some, out⟩
      have range := (outOfRange_congr during.sb _).mp out
      have here := inside k (by omega) some
      unfold outOfRange at range
      unfold Inside at here
      omega
    rw [if_neg fine, wp_pure]
    refine wp_mono (wp_markIf _ (inside k (by omega)) during) fun _ v during => ⟨rfl, during.congr fun x => ?_⟩
    constructor
    · rintro ((old | ⟨j, less, entry⟩) | new)
      · exact .inl old
      · exact .inr ⟨j, by omega, entry⟩
      · exact .inr ⟨k, by omega, new⟩
    · rintro (old | ⟨j, less, entry⟩)
      · exact .inl (.inl old)
      · by_cases same : j = k
        · subst same
          exact .inr entry
        · exact .inl (.inr ⟨j, by omega, entry⟩)

/-- The blocks behind the inodes are as they were, and so is block 0. -/
def Outer (h : Host) (s : State) (d : Disk) : Prop := ∀ b, b = 0 ∨ s.isize h ≤ b → d b = s.disk b

theorem During.outer (during : During h s d n ino M t) (below : n / 8 + 2 < s.isize h) (outer : Outer h s d) :
    Outer h s t.disk := by
  intro b away
  rw [← outer b away]
  funext w
  exact during.other b w fun no => by omega

/-- The index blocks that the inode names are in range. -/
def Framed (h : Host) (s : State) (ino : Dinode) : Prop :=
  ∀ k, k = 18 ∨ k = 19 → ino.i_addr k ≠ 0 → Inside h s (swap h (ino.i_addr k))

theorem named_of {k : Nat} (some : Fsck.indirect h.swizzling ino k ≠ 0) : ino.i_addr k ≠ 0 := by
  intro none
  apply some
  unfold Fsck.indirect
  rw [none, swap16_zero]

/-- The index blocks that the inode names, and block 0, are as they were. -/
structure Agrees (h : Host) (s : State) (ino : Dinode) (d : Disk) : Prop where
  zero : d 0 = s.disk 0
  index : ∀ k, k = 18 ∨ k = 19 → ino.i_addr k ≠ 0 → d (swap h (ino.i_addr k)) = s.disk (swap h (ino.i_addr k))
  second : ino.i_addr 19 ≠ 0 → ∀ k < 256, s.disk (swap h (ino.i_addr 19)) k ≠ 0 →
    d (swap h (s.disk (swap h (ino.i_addr 19)) k)) = s.disk (swap h (s.disk (swap h (ino.i_addr 19)) k))

theorem agrees_of (zero : d 0 = s.disk 0) (uses : ∀ b, Uses h s.disk ino b → d b = s.disk b) : Agrees h s ino d :=
  ⟨zero, fun k which some => uses _ (.index k which some), fun some k less entry => uses _ (.second k less some entry)⟩

/-- All blocks of a tidy file are in range. -/
theorem uses_inside (framed : Framed h s ino) (tidy : Tidy h s ino) (uses : Uses h s.disk ino b) : Inside h s b := by
  cases uses with
  | index k which some => exact framed k which some
  | second k inside some entry => exact tidy.second some k inside entry
  | data bno inside needed some => exact (tidy.data bno inside some).1

theorem Outer.agrees (outer : Outer h s d) (framed : Framed h s ino) (tidy : Tidy h s ino) : Agrees h s ino d :=
  agrees_of (outer 0 (.inl rfl)) fun b uses => outer b (.inr (uses_inside framed tidy uses).1)

/-- A lookup finds the same on all images that agree on the index blocks of the file. -/
theorem lookup_same (agrees : Agrees h s ino d) {bno : Nat}
    (small : bno < 65536) : Fsck.getblkno h.swizzling d ino bno = Fsck.getblkno h.swizzling s.disk ino bno ∧
      (Needed h.swizzling d ino bno ↔ Needed h.swizzling s.disk ino bno) := by
  have first : ∀ k, k = 18 ∨ k = 19 → Fsck.indirect h.swizzling ino k ≠ 0 →
      d (Fsck.indirect h.swizzling ino k) = s.disk (Fsck.indirect h.swizzling ino k) := fun k which some =>
    agrees.index k which (named_of some)
  have second : Fsck.indirect h.swizzling ino 19 ≠ 0 → ∀ k,
      Fsck.second h.swizzling d ino k = Fsck.second h.swizzling s.disk ino k := by
    intro some k
    unfold Fsck.second
    rw [first 19 (.inr rfl) some]
  constructor
  · apply Fsck.getblkno_congr
    · intro _ _ some
      rw [first 18 (.inl rfl) some]
    · intro high some
      refine ⟨second some _, ?_⟩
      have entry : (bno - 274) / 256 < 256 := by omega
      by_cases none : s.disk (swap h (ino.i_addr 19)) ((bno - 274) / 256) = 0
      · have zero : Fsck.second h.swizzling s.disk ino ((bno - 274) / 256) = 0 := by
          show swap16 _ (s.disk (swap h (ino.i_addr 19)) _) = 0
          rw [none, swap16_zero]
        rw [zero, agrees.zero]
      · have same : d (Fsck.second h.swizzling s.disk ino ((bno - 274) / 256)) =
            s.disk (Fsck.second h.swizzling s.disk ino ((bno - 274) / 256)) := agrees.second (named_of some) _ entry none
        rw [same]
  · unfold Needed
    by_cases some : Fsck.indirect h.swizzling ino 19 = 0
    · simp [some]
    · simp only [second some]

theorem wp_readAll (bs : List Nat) {Q : Unit → State → Prop} (next : Q () t) : wp Failed (readAll bs) Q t := by
  induction bs with
  | nil => exact next
  | cons b bs ih =>
    unfold readAll
    rw [wp_bind, wp_discard]
    exact wp_daread ih

theorem wp_getblkno (ino : Dinode) (bno : Nat) {Q : Nat → State → Prop}
    (next : Q (Fsck.getblkno h.swizzling t.disk ino bno) t) : wp Failed (getblkno h ino bno) Q t := by
  unfold getblkno
  rw [wp_bind, wp_get, wp_bind]
  exact wp_readAll _ next

/-- A block of a tidy file. -/
theorem wp_block1 (below : n / 8 + 2 < s.isize h) (outer : Outer h s d) (framed : Framed h s ino) (tidy : Tidy h s ino)
    {bno : Nat} (less : bno ≤ last h ino) (during : During h s d n ino M t) :
    wp Failed (block1 h n bno ino) (fun ino' u => ino' = ino ∧ During h s d n ino (fun x => M x ∨
      Fsck.getblkno h.swizzling s.disk ino bno ≠ 0 ∧ x = Fsck.getblkno h.swizzling s.disk ino bno) u) t := by
  have short := tidy.short
  have found := (lookup_same ((during.outer below outer).agrees framed tidy) (show bno < 65536 by omega)).1
  unfold block1
  rw [wp_bind]
  apply wp_getblkno
  rw [found]
  simp only [wp_bind, wp_get]
  unfold zapBlock
  have fine : ¬ (Fsck.getblkno h.swizzling s.disk ino bno ≠ 0 ∧
      outOfRange h t (Fsck.getblkno h.swizzling s.disk ino bno)) := by
    rintro ⟨some, out⟩
    have range := (outOfRange_congr during.sb _).mp out
    have here := (tidy.data bno less some).1
    unfold outOfRange at range
    unfold Inside at here
    omega
  rw [if_neg fine, wp_pure]
  exact wp_mono (wp_markIf _ (fun some => (tidy.data bno less some).1) during) fun _ u during => ⟨rfl, during⟩

/-- All blocks of a tidy file. -/
theorem wp_blocks {fuel : Loop → Nat} (enough : Enough h (s.isize h) fuel) (below : n / 8 + 2 < s.isize h)
    (outer : Outer h s d) (framed : Framed h s ino) (tidy : Tidy h s ino) (during : During h s d n ino M t) :
    wp Failed (blocks fuel (swizzle32 h.swizzling ino.i_size) (block1 h n) ino) (fun _ u =>
      During h s d n ino (fun x => M x ∨ ∃ bno < last h ino + 1, Fsck.getblkno h.swizzling s.disk ino bno ≠ 0 ∧
        x = Fsck.getblkno h.swizzling s.disk ino bno) u) t := by
  have short := tidy.short
  have lasts : last h ino + 1 < 0 + fuel (.blocks (swizzle32 h.swizzling ino.i_size)) := by
    have rounds := enough (.blocks (swizzle32 h.swizzling ino.i_size)) (Nat.not_le.mpr short)
    have size : last h ino + 2 ≤ fuel (.blocks (swizzle32 h.swizzling ino.i_size)) := rounds
    omega
  have reach : last h ino + 1 < 65536 := by omega
  refine wp_mono (wp_up (I := fun i ino' u => ino' = ino ∧
    During h s d n ino (fun x => M x ∨ ∃ bno < i, Fsck.getblkno h.swizzling s.disk ino bno ≠ 0 ∧
      x = Fsck.getblkno h.swizzling s.disk ino bno) u) reach lasts (Nat.zero_le _) ⟨rfl, during.congr fun x => ?_⟩ ?_)
    fun _ u post => post.2
  · simp
  · rintro i ino' u less ⟨rfl, during⟩
    have within : i < last h ino' + 1 := less
    refine wp_mono (wp_block1 below outer framed tidy (by omega) during) ?_
    rintro ino'' v ⟨rfl, during⟩
    refine ⟨rfl, during.congr fun x => ?_⟩
    constructor
    · rintro ((old | ⟨j, less, found⟩) | new)
      · exact .inl old
      · exact .inr ⟨j, by omega, found⟩
      · exact .inr ⟨i, by omega, new⟩
    · rintro (old | ⟨j, less, found⟩)
      · exact .inl (.inl old)
      · by_cases same : j = i
        · subst same
          exact .inr found
        · exact .inl (.inr ⟨j, by omega, found⟩)

theorem cut_other (s : State) (b : Nat) {k : Nat} (away : k ≠ 12 + b) : cut h s b ino k = ino k := by
  unfold cut
  by_cases bad : ino.i_addr b ≠ 0 ∧
      (outOfRange h s (swap h (ino.i_addr b)) ∨ swizzle32 h.swizzling ino.i_size < 18 * 512)
  · rw [if_pos bad, put_ne _ _ away]
  · rw [if_neg bad]

theorem cut_none (s : State) {b : Nat} (none : ino.i_addr b = 0) : cut h s b ino = ino := if_neg fun no => no.1 none

theorem trimmed_framed (s : State) (ino : Dinode) : Framed h s (trimmed h s ino) := by
  have kept : (trimmed h s ino).i_addr 18 = (cut h s 18 ino).i_addr 18 := cut_other s 19 (by decide)
  rintro k (rfl | rfl) some
  · rw [kept] at some ⊢
    obtain ⟨same, fine⟩ := cut_addr s some
    rw [same]
    exact inside_of fine
  · obtain ⟨same, fine⟩ := cut_addr s some
    show Inside h s (swap h ((cut h s 19 (cut h s 18 ino)).i_addr 19))
    rw [same]
    exact inside_of fine

theorem uses_iff (tidy : Tidy h s ino) (b : Nat) : Uses h s.disk ino b ↔
    ino.i_addr 18 ≠ 0 ∧ b = swap h (ino.i_addr 18) ∨ ino.i_addr 19 ≠ 0 ∧ b = swap h (ino.i_addr 19) ∨
      (ino.i_addr 19 ≠ 0 ∧ ∃ k < 256, s.disk (swap h (ino.i_addr 19)) k ≠ 0 ∧
        b = swap h (s.disk (swap h (ino.i_addr 19)) k)) ∨
      ∃ bno < last h ino + 1, Fsck.getblkno h.swizzling s.disk ino bno ≠ 0 ∧
        b = Fsck.getblkno h.swizzling s.disk ino bno := by
  constructor
  · intro uses
    cases uses with
    | index k which some =>
      rcases which with rfl | rfl
      · exact .inl ⟨some, rfl⟩
      · exact .inr (.inl ⟨some, rfl⟩)
    | second k inside some entry => exact .inr (.inr (.inl ⟨some, k, inside, entry, rfl⟩))
    | data bno inside needed some => exact .inr (.inr (.inr ⟨bno, by omega, some, rfl⟩))
  · rintro (⟨some, rfl⟩ | ⟨some, rfl⟩ | ⟨some, k, inside, entry, rfl⟩ | ⟨bno, less, some, rfl⟩)
    · exact .index 18 (.inl rfl) some
    · exact .index 19 (.inr rfl) some
    · exact .second k inside some entry
    · exact .data bno (by omega) (tidy.data bno (by omega) some).2 some

/-- The first double indirect block, if there is one. -/
theorem wp_doubleIndirect (below : n / 8 + 2 < s.isize h) (outer : Outer h s d) (framed : Framed h s ino)
    (tidy : Tidy h s ino) (during : During h s d n ino M t) :
    wp Failed (doubleIndirect h ino) (fun _ u => During h s d n ino (fun x => M x ∨ ino.i_addr 19 ≠ 0 ∧ ∃ k < 256,
      s.disk (swap h (ino.i_addr 19)) k ≠ 0 ∧ x = swap h (s.disk (swap h (ino.i_addr 19)) k)) u) t := by
  unfold doubleIndirect
  by_cases some : ino.i_addr 19 ≠ 0
  · have entries : ∀ k, k = 256 → wp Failed (discard (doubles h k (s.disk (swap h (ino.i_addr 19)))))
        (fun _ u => During h s d n ino (fun x => M x ∨ ino.i_addr 19 ≠ 0 ∧ ∃ j < k,
          s.disk (swap h (ino.i_addr 19)) j ≠ 0 ∧ x = swap h (s.disk (swap h (ino.i_addr 19)) j)) u) t := by
      intro k all
      rw [wp_discard]
      refine wp_mono (wp_doubles (tidy.second some) (Nat.le_of_eq all) during) ?_
      rintro _ u ⟨_, during⟩
      exact during.congr fun x => by simp only [some, ne_eq, not_false_eq_true, true_and]
    rw [if_pos some, wp_bind]
    apply wp_daread
    rw [during.outer below outer _ (.inr (framed 19 (.inr rfl) some).1)]
    generalize full : (256 : Nat) = k
    exact entries k full.symm
  · rw [if_neg some]
    exact during.congr fun x => by simp only [some, false_and, or_false]

/-- The blocks of a regular file or directory. -/
theorem wp_file1 (all : Accepts h) {fuel : Loop → Nat} (enough : Enough h (s.isize h) fuel)
    (below : n / 8 + 2 < s.isize h) (outer : Outer h s d) (tidy : Tidy h s (trimmed h s ino))
    (during : During h s d n ino M t) :
    wp Failed (file1 h fuel n ino) (fun _ u => During h s d n (trimmed h s ino)
      (fun x => M x ∨ Uses h s.disk (trimmed h s ino) x) u) t := by
  unfold file1
  rw [wp_bind]
  refine wp_mono (wp_single all below 18 during) ?_
  rintro ino₁ u₁ ⟨rfl, during₁⟩
  rw [wp_bind]
  refine wp_mono (wp_single all below 19 during₁) ?_
  rintro ino₂ u₂ ⟨same, during₂⟩
  have whole : ino₂ = trimmed h s ino := same
  subst whole
  have kept : (trimmed h s ino).i_addr 18 = (cut h s 18 ino).i_addr 18 := cut_other s 19 (by decide)
  have framed : Framed h s (trimmed h s ino) := trimmed_framed s ino
  rw [← kept] at during₂
  generalize trimmed h s ino = ino' at tidy framed during₂
  rw [wp_bind]
  refine wp_mono (wp_doubleIndirect below outer framed tidy during₂) fun _ u₃ during₃ => ?_
  rw [wp_discard]
  refine wp_mono (wp_blocks enough below outer framed tidy during₃) fun _ u₄ during₄ => during₄.congr fun x => ?_
  rw [uses_iff tidy]
  simp only [or_assoc]

/-! ## The loop over the inodes -/

theorem iread_eq (n : Nat) {Q : Dinode → State → Prop} (next : Q (inode t.disk n) t) : wp Failed (iread n) Q t := by
  unfold iread
  rw [wp_bind]
  exact wp_daread next

theorem wp_setLink (linked : n < Fsck.inodes h.width (s.isize h)) (v : Int) (during : During h s d n ino M t) :
    wp Failed (setLink h n v) (fun _ u => During h s d n ino M u) t := by
  have same : t.isize h = s.isize h := by
    unfold State.isize
    rw [during.sb]
  unfold setLink
  simp only [wp_bind, wp_get, wp_ite, wp_set, wp_throw]
  refine ⟨fun _ => ⟨during.sb, during.other, during.own, during.marks, during.written⟩, fun out => absurd ?_ out⟩
  unfold inLinkmap
  rw [same]
  exact linked

theorem wp_used1 (all : Accepts h) {fuel : Loop → Nat} (enough : Enough h (s.isize h) fuel)
    (below : n / 8 + 2 < s.isize h) (linked : n < Fsck.inodes h.width (s.isize h)) (outer : Outer h s d)
    (tidy : Filed h ino → Tidy h s (trimmed h s ino)) (during : During h s d n ino M t) :
    wp Failed (used1 h fuel n (fmt (swap h ino.i_mode)) ino) (fun _ u =>
      During h s d n (if Filed h ino then trimmed h s ino else ino)
        (fun x => M x ∨ Filed h ino ∧ Uses h s.disk (trimmed h s ino) x) u) t := by
  unfold used1
  rw [wp_bind]
  refine wp_mono (wp_setLink linked 0 during) fun _ u during => ?_
  rw [wp_bind, wp_modify]
  have counted : During h s d n ino M { u with icount := (u.icount + 1) % 65536 } :=
    ⟨during.sb, during.other, during.own, during.marks, during.written⟩
  by_cases filed : Filed h ino
  · have case : fmt (swap h ino.i_mode) = F_REG ∨ fmt (swap h ino.i_mode) = F_DIR := filed
    rw [if_pos filed, if_pos case]
    refine wp_mono (wp_file1 all enough below outer (tidy filed) counted) fun _ v during => during.congr fun x => ?_
    simp only [filed, true_and]
  · have case : ¬ (fmt (swap h ino.i_mode) = F_REG ∨ fmt (swap h ino.i_mode) = F_DIR) := filed
    rw [if_neg filed, if_neg case]
    exact counted.congr fun x => by simp only [filed, false_and, or_false]

/-- The inodes below `n` have been looked at. -/
structure Upto (h : Host) (s : State) (n : Nat) (t : State) : Prop where
  sb : t.sb = s.sb
  outer : Outer h s t.disk
  done : ∀ m, ROOTINODE ≤ m → m < n → ∀ k < 32, inode t.disk m k = repaired h s (inode s.disk m) k
  rest : ∀ m, n ≤ m → inode t.disk m = inode s.disk m
  marks : ∀ b, Bits.test t.bitmap 0 b = true ↔ ∃ m, ROOTINODE ≤ m ∧ m < n ∧ Filed h (inode s.disk m) ∧
    Uses h s.disk (trimmed h s (inode s.disk m)) b
  written : ∀ b ∈ t.written, 2 ≤ b ∧ b < s.isize h

theorem Upto.during (upto : Upto h s n t) : During h s t.disk n (inode s.disk n) (fun b => ∃ m, ROOTINODE ≤ m ∧ m < n ∧
    Filed h (inode s.disk m) ∧ Uses h s.disk (trimmed h s (inode s.disk m)) b) t :=
  ⟨upto.sb, fun _ _ _ => rfl, fun k _ => congrFun (upto.rest n (Nat.le_refl n)) k, upto.marks, upto.written⟩

/-- The words of another inode. -/
theorem other_inode {m k : Nat} (other : m ≠ n) (less : k < 32) :
    ¬ (m / 8 + 2 = n / 8 + 2 ∧ 32 * (n % 8) ≤ 32 * (m % 8) + k ∧ 32 * (m % 8) + k < 32 * (n % 8) + 32) := by
  omega

theorem Upto.next {u : State} (upto : Upto h s n t) (low : ROOTINODE ≤ n) (below : n / 8 + 2 < s.isize h)
    (during : During h s t.disk n (repaired h s (inode s.disk n)) M u)
    (marks : ∀ b, M b ↔ (∃ m, ROOTINODE ≤ m ∧ m < n ∧ Filed h (inode s.disk m) ∧
      Uses h s.disk (trimmed h s (inode s.disk m)) b) ∨
      Filed h (inode s.disk n) ∧ Uses h s.disk (trimmed h s (inode s.disk n)) b) :
    Upto h s (n + 1) u := by
  refine ⟨during.sb, during.outer below upto.outer, ?_, ?_, ?_, during.written⟩
  · intro m first less k inside
    by_cases same : m = n
    · subst same
      exact during.own k inside
    · rw [← upto.done m first (by omega) k inside]
      exact during.other _ _ (other_inode same inside)
  · intro m later
    rw [← upto.rest m (by omega)]
    funext k
    exact during.other _ _ (by omega)
  · intro b
    rw [during.marks, marks]
    constructor
    · rintro (⟨m, first, less, uses⟩ | here)
      · exact ⟨m, first, by omega, uses⟩
      · exact ⟨n, low, Nat.lt_succ_self n, here⟩
    · rintro ⟨m, first, less, uses⟩
      by_cases same : m = n
      · subst same
        exact .inr uses
      · exact .inl ⟨m, first, by omega, uses⟩

theorem filed_typed (filed : Filed h ino) : typed (fmt (swap h ino.i_mode)) := by
  rcases filed with reg | dir
  · exact .inl reg
  · exact .inr (.inl dir)

theorem wp_inode1 (all : Accepts h) {fuel : Loop → Nat} (enough : Enough h (s.isize h) fuel)
    (low : ROOTINODE ≤ n) (below : n / 8 + 2 < s.isize h) (linked : n < Fsck.inodes h.width (s.isize h))
    (tidy : Filed h (inode s.disk n) → Tidy h s (trimmed h s (inode s.disk n))) (upto : Upto h s n t) :
    wp Failed (inode1 h fuel n) (fun _ u => Upto h s (n + 1) u) t := by
  unfold inode1
  rw [wp_bind]
  apply iread_eq
  rw [upto.rest n (Nat.le_refl n), wp_bind]
  refine wp_mono (wp_setLink linked (-1) upto.during) fun _ u during => ?_
  by_cases unused : Dinode.i_mode (inode s.disk n) = 0
  · have same : repaired h s (inode s.disk n) = inode s.disk n := if_pos unused
    have empty : ¬ Filed h (inode s.disk n) := by
      unfold Filed
      rw [unused]
      show ¬ (fmt (swap16 _ 0) = F_REG ∨ fmt (swap16 _ 0) = F_DIR)
      rw [swap16_zero]
      decide
    rw [if_pos unused]
    refine upto.next low below (same ▸ during) fun b => ?_
    simp only [empty, false_and, or_false]
  · rw [if_neg unused]
    by_cases fine : typed (fmt (swap h (Dinode.i_mode (inode s.disk n))))
    · have same : repaired h s (inode s.disk n) = if Filed h (inode s.disk n) then trimmed h s (inode s.disk n)
          else inode s.disk n := (if_neg unused).trans (if_pos fine)
      simp only [if_pos fine]
      refine wp_mono (wp_used1 all enough below linked upto.outer tidy during) fun _ v during => ?_
      exact upto.next low below (same ▸ during) fun b => Iff.rfl
    · have same : repaired h s (inode s.disk n) = put (put (inode s.disk n) 0 0) 1 0 :=
        (if_neg unused).trans (if_neg fine)
      have empty : ¬ Filed h (inode s.disk n) := fun filed => fine (filed_typed filed)
      simp only [if_neg fine]
      rw [wp_bind]
      refine wp_yes all during fun v during => ?_
      rw [if_pos rfl]
      refine wp_mono (wp_iwrite below during _) fun _ w during => ?_
      refine upto.next low below (same ▸ during) fun b => ?_
      simp only [empty, false_and, or_false]

/-- The bounds that the counters and the link map need. -/
theorem Clear.bounds (clear : Clear h s) : s.inodes h < 65536 ∧
    ∀ n, n < s.inodes h → n / 8 + 2 < s.isize h ∧ n < Fsck.inodes h.width (s.isize h) := by
  have small := clear.small
  have wide := clear.wide
  unfold State.inodes Fsck.inodes
  cases width : h.width with
  | int16 =>
    have sizes := small width
    refine ⟨Nat.mod_lt _ (by decide), fun n less => ?_⟩
    dsimp only at less ⊢
    omega
  | int32 =>
    have size := wide width
    dsimp only
    refine ⟨by omega, fun n less => ?_⟩
    omega

/-- The loop over the inodes, which looks at none if there are none. -/
theorem wp_inodesLoop {stop : Exit → Prop} {fuel : Loop → Nat} {body : Nat → F Unit} {I : Nat → State → Prop}
    (bound : t.inodes h < 65536) (lasts : t.inodes h < fuel .inodes) (start : I ROOTINODE t)
    (round : ∀ n u, Listed h t n → I n u → wp stop (body n) (fun _ v => I (n + 1) v) u) :
    wp stop (inodesLoop h fuel body) (fun _ u => I (max ROOTINODE (t.inodes h)) u) t := by
  unfold inodesLoop
  rw [wp_bind, wp_get]
  by_cases some : ROOTINODE ≤ t.inodes h
  · rw [Nat.max_eq_right some]
    refine wp_mono (wp_up (I := fun n _ u => ROOTINODE ≤ n ∧ I n u) bound (by omega) some
      ⟨Nat.le_refl _, start⟩ ?_) fun _ u post => post.2
    rintro n _ u less ⟨low, kept⟩
    exact wp_mono (round n u ⟨low, less⟩ kept) fun _ v kept => ⟨by omega, kept⟩
  · obtain ⟨rest, fuel_eq⟩ : ∃ rest, fuel .inodes = rest + 1 := ⟨fuel .inodes - 1, by omega⟩
    rw [fuel_eq, Nat.max_eq_left (by omega)]
    unfold Counter.count
    have done : ¬ decide (ROOTINODE < t.inodes h) = true := by
      rw [decide_eq_true_iff]
      omega
    rw [if_neg done]
    exact start

theorem wp_inodes (all : Accepts h) (clear : Clear h s) {fuel : Loop → Nat} (enough : Enough h (s.isize h) fuel)
    (upto : Upto h s ROOTINODE t) :
    wp Failed (inodesLoop h fuel (inode1 h fuel)) (fun _ u => Upto h s (max ROOTINODE (s.inodes h)) u) t := by
  obtain ⟨bound, each⟩ := clear.bounds
  have same : t.inodes h = s.inodes h := by
    unfold State.inodes State.isize
    rw [upto.sb]
  have lasts : s.inodes h < fuel .inodes := enough .inodes (Nat.not_le.mpr bound)
  rw [← same] at bound lasts ⊢
  refine wp_inodesLoop (I := fun n u => Upto h s n u) bound lasts upto fun n u listed upto => ?_
  have less : n < s.inodes h := same ▸ listed.2
  obtain ⟨below, linked⟩ := each n less
  exact wp_inode1 all enough listed.1 below linked (clear.tidy n ⟨listed.1, less⟩) upto

/-- What is known after pass 1. -/
structure Passed1 (h : Host) (s t : State) : Prop where
  mounted : t.sb.s_mounted = s.sb.s_mounted
  isize : t.sb.s_isize = s.sb.s_isize
  fsize : t.sb.s_fsize = s.sb.s_fsize
  outer : ∀ b, b ≠ 1 → b = 0 ∨ s.isize h ≤ b → t.disk b = s.disk b
  done : ∀ n, Listed h s n → ∀ k < 32, inode t.disk n k = repaired h s (inode s.disk n) k
  marks : ∀ b, Bits.test t.bitmap 0 b = true ↔ ∃ n, Listed h s n ∧ Filed h (inode s.disk n) ∧
    Uses h s.disk (trimmed h s (inode s.disk n)) b
  written : ∀ b ∈ t.written, b = 1 ∨ 2 ≤ b ∧ b < s.isize h

theorem Upto.passed (upto : Upto h s (max ROOTINODE (s.inodes h)) t) : Passed1 h s t := by
  refine ⟨by rw [upto.sb], by rw [upto.sb], by rw [upto.sb], fun b _ => upto.outer b, ?_, ?_,
    fun b written => .inr (upto.written b written)⟩
  · intro n listed
    exact upto.done n listed.1 (Nat.lt_of_lt_of_le listed.2 (Nat.le_max_right _ _))
  · intro b
    rw [upto.marks b]
    constructor
    · rintro ⟨n, low, less, uses⟩
      exact ⟨n, ⟨low, by omega⟩, uses⟩
    · rintro ⟨n, listed, uses⟩
      exact ⟨n, listed.1, Nat.lt_of_lt_of_le listed.2 (Nat.le_max_right _ _), uses⟩

theorem super_apart (d : Disk) (words : Nat → Nat) (n k : Nat) : inode (put d 1 words) n k = inode d n k := by
  have away : n / 8 + 2 ≠ 1 := by omega
  unfold inode
  rw [put_ne _ _ away]

/-- The count in the superblock touches no inode. -/
theorem wp_fixInodes (all : Accepts h) (passed : Passed1 h s t) :
    wp Failed (fixInodes h) (fun _ u => Passed1 h s u) t := by
  unfold fixInodes yes swizzle writeSuper dwrite
  simp only [wp_bind, wp_get]
  by_cases wrong : swap h t.sb.s_tinode ≠ freeInodes h t
  · rw [if_pos wrong]
    simp only [wp_bind, wp_get, wp_set, wp_pure]
    rw [all t.asked, if_pos rfl]
    cases swizzle16 h.width h.swizzling (freeInodes h t) with
    | none => exact rfl
    | some tinode =>
      simp only [wp_bind, wp_get, wp_set, wp_pure, wp_modify, wp_ite, wp_throw]
      refine ⟨fun _ => ?_, fun _ => rfl⟩
      refine ⟨passed.mounted, passed.isize, passed.fsize, ?_, ?_, passed.marks, ?_⟩
      · intro b super away
        rw [← passed.outer b super away]
        exact put_ne _ _ super
      · intro n listed k less
        rw [← passed.done n listed k less]
        exact super_apart t.disk _ n k
      · intro b written
        rcases List.mem_cons.mp written with rfl | older
        · exact .inl rfl
        · exact passed.written b older
  · rw [if_neg wrong]
    exact passed

/-- The state that `main` hands to pass 1. -/
structure Fresh (h : Host) (s : State) : Prop where
  bitmap : ∀ b, Bits.test s.bitmap 0 b = false
  written : s.written = []

theorem start_fresh (h : Host) (disk : Disk) (extent : Nat) : Fresh h (start disk extent) :=
  ⟨fun b => by simp [start, Bits.test], rfl⟩

theorem wp_pass1 (all : Accepts h) (clear : Clear h s) {fuel : Loop → Nat} (enough : Enough h (s.isize h) fuel)
    (fresh : Fresh h s) : wp Failed (pass1 h fuel) (fun _ u => Passed1 h s u) s := by
  have first : Upto h s ROOTINODE { s with icount := 0 } := by
    refine ⟨rfl, fun _ _ => rfl, fun m low less => absurd less (by omega), fun _ _ => rfl, ?_, ?_⟩
    · intro b
      rw [fresh.bitmap b]
      constructor
      · intro no
        cases no
      · rintro ⟨m, low, less, _⟩
        omega
    · intro b written
      rw [fresh.written] at written
      cases written
  unfold pass1
  rw [wp_bind, wp_modify, wp_bind]
  refine wp_mono (wp_inodes all clear enough first) fun _ u reached => ?_
  exact wp_fixInodes all reached.passed

/-! ## The books -/

/-- Two inodes with the same words of a file, each on its image. -/
structure SameFile (h : Host) (d d' : Disk) (ino ino' : Dinode) : Prop where
  addr : ∀ k, k = 18 ∨ k = 19 → ino'.i_addr k = ino.i_addr k
  last : last h ino' = last h ino
  second : ino.i_addr 19 ≠ 0 → d' (swap h (ino.i_addr 19)) = d (swap h (ino.i_addr 19))
  look : ∀ bno ≤ Passes.last h ino, Fsck.getblkno h.swizzling d' ino' bno = Fsck.getblkno h.swizzling d ino bno ∧
    (Needed h.swizzling d' ino' bno ↔ Needed h.swizzling d ino bno)

theorem SameFile.symm {d d' : Disk} {ino' : Dinode} (same : SameFile h d d' ino ino') : SameFile h d' d ino' ino := by
  refine ⟨fun k which => (same.addr k which).symm, same.last.symm, ?_, ?_⟩
  · intro some
    rw [same.addr 19 (.inr rfl)] at some ⊢
    exact (same.second some).symm
  · intro bno less
    rw [same.last] at less
    exact ⟨(same.look bno less).1.symm, (same.look bno less).2.symm⟩

theorem SameFile.uses {d d' : Disk} {ino' : Dinode} (same : SameFile h d d' ino ino') {b : Nat}
    (uses : Uses h d ino b) : Uses h d' ino' b := by
  cases uses with
  | index k which some =>
    rw [← same.addr k which] at some ⊢
    exact .index k which some
  | second k inside some entry =>
    have addr := same.addr 19 (.inr rfl)
    have words := same.second some
    rw [← addr] at some
    rw [← words] at entry ⊢
    rw [← addr] at entry ⊢
    exact Uses.second k inside some entry
  | data bno inside needed some =>
    obtain ⟨found, present⟩ := same.look bno inside
    have low : bno ≤ Passes.last h ino' := Nat.le_trans inside (Nat.le_of_eq same.last.symm)
    rw [← found] at some ⊢
    exact Uses.data bno low (present.mpr needed) some

/-- A lookup depends on the pointers of the inode. -/
theorem look_moved {ino' : Dinode} (words : ∀ k, 12 ≤ k → k < 32 → ino' k = ino k) (bno : Nat) :
    Fsck.getblkno h.swizzling d ino' bno = Fsck.getblkno h.swizzling d ino bno ∧
      (Needed h.swizzling d ino' bno ↔ Needed h.swizzling d ino bno) := by
  have addr : ∀ k < 20, ino'.i_addr k = ino.i_addr k := fun k less => words (12 + k) (by omega) (by omega)
  have index : ∀ k < 20, Fsck.indirect h.swizzling ino' k = Fsck.indirect h.swizzling ino k := by
    intro k less
    unfold Fsck.indirect
    rw [addr k less]
  have second : ∀ k, Fsck.second h.swizzling d ino' k = Fsck.second h.swizzling d ino k := by
    intro k
    unfold Fsck.second
    rw [index 19 (by decide)]
  constructor
  · unfold Fsck.getblkno
    by_cases direct : bno < 18
    · rw [if_pos direct, if_pos direct, addr bno (by omega)]
    · rw [if_neg direct, if_neg direct, addr 18 (by decide), addr 19 (by decide)]
  · unfold Needed
    rw [index 18 (by decide), index 19 (by decide), second]

/-- The file of a tidy inode on an image that agrees on its index blocks. -/
theorem same_file {ino' : Dinode} (words : ∀ k < 32, ino' k = ino k) (agrees : Agrees h s ino d)
    (tidy : Tidy h s ino) : SameFile h s.disk d ino ino' := by
  have addr : ∀ k < 20, ino'.i_addr k = ino.i_addr k := fun k less => words (12 + k) (by omega)
  have size : ino'.i_size = ino.i_size := by
    unfold Dinode.i_size
    rw [words 4 (by decide), words 5 (by decide)]
  refine ⟨?_, ?_, ?_, ?_⟩
  · rintro k (rfl | rfl)
    · exact addr 18 (by decide)
    · exact addr 19 (by decide)
  · unfold last
    rw [size]
  · intro some
    exact agrees.index 19 (.inr rfl) some
  · intro bno less
    have short := tidy.short
    obtain ⟨moved, still⟩ := look_moved (h := h) (d := d) (fun k _ less => words k less) bno
    obtain ⟨found, present⟩ := lookup_same agrees (show bno < 65536 by omega)
    exact ⟨moved.trans found, still.trans present⟩

theorem trimmed_mode (s : State) (ino : Dinode) : (trimmed h s ino).i_mode = ino.i_mode := by
  unfold trimmed Dinode.i_mode
  rw [cut_other s 19 (by decide), cut_other s 18 (by decide)]

theorem filed_repaired (s : State) (ino : Dinode) : Filed h (repaired h s ino) ↔ Filed h ino := by
  unfold repaired
  by_cases unused : ino.i_mode = 0
  · rw [if_pos unused]
  · rw [if_neg unused]
    by_cases fine : typed (fmt (swap h ino.i_mode))
    · rw [if_pos fine]
      by_cases filed : Filed h ino
      · rw [if_pos filed]
        unfold Filed
        rw [trimmed_mode]
      · rw [if_neg filed]
    · rw [if_neg fine]
      have mode : Dinode.i_mode (put (put ino 0 0) 1 0) = 0 := rfl
      constructor
      · intro filed
        unfold Filed at filed
        rw [mode] at filed
        revert filed
        show fmt (swap16 _ 0) = F_REG ∨ fmt (swap16 _ 0) = F_DIR → _
        rw [swap16_zero]
        exact fun no => absurd no (by decide)
      · exact fun filed => absurd (filed_typed filed) fine

theorem repaired_filed (filed : Filed h ino) (some : ino.i_mode ≠ 0) : repaired h s ino = trimmed h s ino := by
  unfold repaired
  rw [if_neg some, if_pos (filed_typed filed), if_pos filed]

theorem filed_some (filed : Filed h ino) : ino.i_mode ≠ 0 := by
  intro none
  unfold Filed at filed
  rw [none] at filed
  revert filed
  show fmt (swap16 _ 0) = F_REG ∨ fmt (swap16 _ 0) = F_DIR → _
  rw [swap16_zero]
  exact fun no => absurd no (by decide)

/-- The inodes that pass 1 leaves have the files that it has looked at. -/
theorem Passed1.same_file (clear : Clear h s) (passed : Passed1 h s t) (listed : Listed h s n) :
    (Filed h (inode t.disk n) ↔ Filed h (inode s.disk n)) ∧ (Filed h (inode s.disk n) →
      SameFile h s.disk t.disk (trimmed h s (inode s.disk n)) (inode t.disk n)) := by
  have words := passed.done n listed
  constructor
  · rw [← filed_repaired s (inode s.disk n)]
    unfold Filed Dinode.i_mode
    rw [words 0 (by decide)]
  · intro filed
    have below := ((clear.bounds).2 n listed.2).1
    have outer : Outer h s t.disk := fun b away => passed.outer b (by omega) away
    have tidy := clear.tidy n listed filed
    refine Passes.same_file ?_ (outer.agrees (trimmed_framed s _) tidy) tidy
    intro k less
    rw [words k less, repaired_filed filed (filed_some filed)]

theorem Passed1.booked (clear : Clear h s) (passed : Passed1 h s t) : Booked h s t := by
  constructor
  · intro b
    rw [passed.marks b]
    constructor
    · rintro ⟨n, listed, filed, uses⟩
      obtain ⟨mode, same⟩ := passed.same_file clear listed
      exact ⟨uses_inside (trimmed_framed s _) (clear.tidy n listed filed) uses, n, listed, mode.mpr filed,
        (same filed).uses uses⟩
    · rintro ⟨_, n, listed, filed, uses⟩
      obtain ⟨mode, same⟩ := passed.same_file clear listed
      have filed' := mode.mp filed
      exact ⟨n, listed, filed', (same filed').symm.uses uses⟩
  · intro b written
    rcases passed.written b written with super | inside
    · exact .inl super
    · exact .inr (.inl inside)

end

/-- With all repairs accepted and enough rounds, pass 1 of a clear image ends with the books right,
or with an error of the device. It never gets outside the bitmap and the link map. -/
theorem pass1_books (h : Host) (all : Accepts h) (disk : Disk) (extent : Nat) (clear : Clear h (start disk extent))
    (fuel : Loop → Nat) (enough : Enough h ((start disk extent).isize h) fuel) :
    (∀ e, pass1 h fuel (start disk extent) = .error e → e = .exit) ∧
      ∀ t, pass1 h fuel (start disk extent) = .ok ((), t) → Booked h (start disk extent) t := by
  have passed := wp_pass1 all clear enough (start_fresh h disk extent)
  constructor
  · intro e run
    have failed : Failed e := wp_error passed run
    exact failed
  · intro t run
    exact (wp_ok passed run).booked clear

/-- Why a run stopped. -/
def stopped {α : Type} : Except Exit α → Option Exit
  | .error e => some e
  | .ok _ => none

def yesHost : Host := ⟨.int32, false, fun _ => true, false⟩

/-- Eight blocks, with an empty root directory whose first block is `b`. -/
def rootAt (b : Nat) : Disk :=
  put₂ (put₂ (put₂ (put₂ (put₂ (put₂ (fun _ _ => 0) 1 0 12742) 1 1 3) 1 2 8) 2 32 16877) 2 33 1) 2 44 b

theorem root_enough (b : Nat) : Enough yesHost ((start (rootAt b) 8).isize yesHost) (rounds yesHost 3) := by
  have isize : (start (rootAt b) 8).isize yesHost = 3 := rfl
  rw [isize]
  exact fun _ _ => Nat.le_refl _

theorem root_clear : Clear yesHost (start (rootAt 5) 8) := by
  have only : ∀ n < 8, Filed yesHost (inode (rootAt 5) n) → n = 1 := by decide
  have kept : trimmed yesHost (start (rootAt 5) 8) (inode (rootAt 5) 1) = inode (rootAt 5) 1 := by
    unfold trimmed
    rw [cut_none _ (by decide), cut_none _ (by decide)]
  have length : last yesHost (inode (rootAt 5) 1) = 0 := by decide
  have named : Dinode.i_addr (inode (rootAt 5) 1) 19 = 0 := by decide
  have found : Fsck.getblkno yesHost.swizzling (rootAt 5) (inode (rootAt 5) 1) 0 = 5 := by decide
  constructor
  · intro no
    cases no
  · intro _
    decide
  · intro n listed filed
    have root := only n listed.2 filed
    subst root
    have tidy : Tidy yesHost (start (rootAt 5) 8) (inode (rootAt 5) 1) := by
      refine ⟨by rw [length]; decide, fun no => absurd named no, ?_⟩
      intro bno less _
      rw [length] at less
      have zero : bno = 0 := Nat.le_zero.mp less
      subst zero
      show Inside _ _ (Fsck.getblkno yesHost.swizzling (rootAt 5) (inode (rootAt 5) 1) 0) ∧ _
      rw [found]
      exact ⟨⟨by decide, by decide⟩, fun no => absurd no (by decide), fun no => absurd no (by decide)⟩
    rw [← kept] at tidy
    exact tidy

theorem pass1_books_empty : (∀ e, pass1 yesHost (rounds yesHost 3) (start (rootAt 5) 8) = .error e → e = .exit) ∧
    ∀ t, pass1 yesHost (rounds yesHost 3) (start (rootAt 5) 8) = .ok ((), t) → Booked yesHost (start (rootAt 5) 8) t :=
  pass1_books yesHost (fun _ => rfl) (rootAt 5) 8 root_clear (rounds yesHost 3) (root_enough 5)

/-- The root directory names block 9 of eight: the block is zapped in the inode, and then its bit
is set outside the bitmap. -/
theorem stale_marked : ¬ ∀ (h : Host) (_ : Accepts h) (disk : Disk) (extent : Nat) (fuel : Loop → Nat)
    (_ : Enough h ((start disk extent).isize h) fuel),
    (∀ e, pass1 h fuel (start disk extent) = .error e → e = .exit) ∧
      ∀ t, pass1 h fuel (start disk extent) = .ok ((), t) → Booked h (start disk extent) t := by
  intro claim
  have right := (claim yesHost (fun _ => rfl) (rootAt 9) 8 (rounds yesHost 3) (root_enough 9)).1
  have run : stopped (pass1 yesHost (rounds yesHost 3) (start (rootAt 9) 8)) = some .stray := by decide +kernel
  cases result : pass1 yesHost (rounds yesHost 3) (start (rootAt 9) 8) with
  | error e =>
    rw [result] at run
    injection run with same
    rw [right e result] at same
    cases same
  | ok r =>
    rw [result] at run
    cases run

end Passes
