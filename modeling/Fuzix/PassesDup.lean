import Fuzix.PassesFree

/-!
# Blocks with two owners in pass 3 of fsck

Pass 3 looks for blocks that two pointers name. As its allocator takes two entries off the free
list for every block that it hands out, and finds none in the other byte order, the pass is right
for the images in which it has nothing to do.
-/

namespace Passes

open Table Image Wp Counter Chain
open Fuzix (F_REG F_DIR FILESYS_TABSIZE ROOTINODE fmt)
open Fsck (Dinode inode Needed)

/-- A pointer to a block of a file. -/
inductive Ref where
  | index (k : Nat)
  | second (k : Nat)
  | data (bno : Nat)
deriving DecidableEq

section
variable (h : Host)

/-- The pointer leads to block `b`. -/
def Names (disk : Disk) (ino : Dinode) : Ref → Nat → Prop
  | .index k, b => (k = 18 ∨ k = 19) ∧ ino.i_addr k ≠ 0 ∧ b = swap h (ino.i_addr k)
  | .second k, b => k < 256 ∧ ino.i_addr 19 ≠ 0 ∧ disk (swap h (ino.i_addr 19)) k ≠ 0 ∧
      b = swap h (disk (swap h (ino.i_addr 19)) k)
  | .data bno, b => bno ≤ last h ino ∧ Needed h.swizzling disk ino bno ∧
      Fsck.getblkno h.swizzling disk ino bno ≠ 0 ∧ b = Fsck.getblkno h.swizzling disk ino bno

/-- The files have a pointer `r` of inode `n` to block `b`. -/
def Points (s : State) (disk : Disk) (n : Nat) (r : Ref) (b : Nat) : Prop :=
  Listed h s n ∧ Filed h (inode disk n) ∧ Names h disk (inode disk n) r b

/-- No block is named twice. -/
def Single (s : State) (disk : Disk) : Prop :=
  ∀ n n' r r' b, Points h s disk n r b → Points h s disk n' r' b → n = n' ∧ r = r'

/-- The words of a block of a file. -/
def content (disk : Disk) (ino : Dinode) (bno : Nat) : Option (Nat → Nat) :=
  if Fsck.getblkno h.swizzling disk ino bno = 0 then none else some (disk (Fsck.getblkno h.swizzling disk ino bno))

/-- An allocation takes just the block that it returns, and counts it. -/
def Exact (s : State) (a : (Superblock × Disk) × Nat × (Superblock × Disk)) : Prop :=
  ∃ free free', FreeList h s a.1.1 a.1.2 free ∧ FreeList h s a.2.2.1 a.2.2.2 free' ∧ free.Perm (a.2.1 :: free') ∧
    swap h a.2.2.1.s_tfree + 1 = swap h a.1.1.s_tfree

/-- What pass 3 is for. -/
structure Resolved (s t : State) : Prop where
  single : Single h s t.disk
  list : ∃ free, FreeList h s t.sb t.disk free ∧ ∀ b ∈ free, ¬ Used h s t.disk b
  kept : ∀ n, Listed h s n → Filed h (inode s.disk n) → Filed h (inode t.disk n) ∧
    (inode t.disk n).i_size = (inode s.disk n).i_size ∧
    ∀ bno ≤ last h (inode s.disk n), content h t.disk (inode t.disk n) bno = content h s.disk (inode s.disk n) bno
  exact : ∃ new, t.allocs = new ++ s.allocs ∧ ∀ a ∈ new, a.2.1 ≠ 0 → Exact h s a

end

/-! ## The allocator -/

section
variable {h : Host} {s t u : State}

theorem top_put {sb : Superblock} (n : Nat) (small : n < 65536) :
    ({ sb with s_nfree := n } : Superblock).top false = ⟨n, (sb.top false).entry⟩ := by
  unfold Superblock.top
  show Batch.mk (n % 65536) _ = _
  rw [Nat.mod_eq_of_lt small]

/-- The index into the list is behind two entries. -/
theorem index_below (ready : 0 < swap h s.sb.s_nfree) (fits : swap h s.sb.s_nfree ≤ 50) {nfree : Nat}
    (count : swizzle16 h.width h.swizzling (less32 (swap h s.sb.s_nfree)) = some nfree) (low : less16 nfree < 50) :
    h.swizzling = false ∧ less16 nfree + 2 = swap h s.sb.s_nfree := by
  have less : less32 (swap h s.sb.s_nfree) = swap h s.sb.s_nfree - 1 := by
    unfold less32
    omega
  rw [less, swizzle16_small (by omega)] at count
  injection count with same
  rw [← same] at low ⊢
  cases swizzling : h.swizzling with
  | true =>
    rw [swizzling] at low
    have half : (swap h s.sb.s_nfree - 1) % 256 = swap h s.sb.s_nfree - 1 := Nat.mod_eq_of_lt (by omega)
    have none : (swap h s.sb.s_nfree - 1) / 256 = 0 := Nat.div_eq_of_lt (by omega)
    unfold swap16 less16 at low
    rw [if_pos rfl, half, none] at low
    omega
  | false =>
    rw [swizzling] at low
    unfold swap16 less16 at low ⊢
    rw [if_neg (by decide)] at low ⊢
    exact ⟨rfl, by omega⟩

/-- The list is left without two of its entries. -/
theorem not_exact (room : 2 ≤ u.isize h) {before after : Superblock} {disk disk' : Disk} {index newno : Nat}
    (count : (before.top h.swizzling).count = index + 2) (entry : (before.top h.swizzling).entry index = newno)
    (some : newno ≠ 0) (top : after.top h.swizzling =
      if index = 0 then links h.swizzling disk newno else ⟨index, (before.top h.swizzling).entry⟩)
    (same : ∀ b, b ≠ 1 → disk' b = disk b) : ¬ Exact h u ((before, disk), newno, (after, disk')) := by
  rintro ⟨free, free', list, list', perm, _⟩
  have chain := list.chain
  have inside := list.inside
  have lengths := perm.length_eq
  cases chain with
  | done => cases lengths
  | next _ _ first _ rest =>
    have popped : (before.top h.swizzling).pop (links h.swizzling disk) = ⟨index + 1, (before.top h.swizzling).entry⟩ := by
      unfold Batch.pop
      rw [if_neg (by omega), count]
      rfl
    rw [popped] at rest
    cases rest with
    | done _ _ last => exact some (entry.symm.trans last)
    | @next _ b tail _ _ second _ rest =>
      have below : Batch.pop (links h.swizzling disk) ⟨index + 1, (before.top h.swizzling).entry⟩ = after.top h.swizzling := by
        rw [top]
        unfold Batch.pop
        by_cases zero : index = 0
        · subst zero
          rw [if_pos rfl, if_pos rfl]
          exact congrArg (links h.swizzling disk) entry
        · rw [if_neg (by dsimp only; omega), if_neg zero]
          rfl
      rw [below] at rest
      have moved : Yields FILESYS_TABSIZE 0 (links h.swizzling disk') (after.top h.swizzling) tail := by
        refine rest.congr rfl (fun _ _ => rfl) fun c member => .of_eq ?_
        have low := (inside c (List.mem_cons_of_mem _ (List.mem_cons_of_mem _ member))).1
        unfold links
        rw [same c (by omega)]
      have one := moved.unique list'.chain
      rw [one] at lengths
      simp at lengths

theorem wp_refill (newno index : Nat) (s : State) :
    wp (fun _ => True) (refill newno index) (fun _ t => t.allocs = s.allocs ∧ t.disk = s.disk ∧ t.sb.top h.swizzling =
      if index = 0 then links h.swizzling s.disk newno else s.sb.top h.swizzling) s := by
  unfold refill daread
  by_cases zero : index = 0
  · rw [if_pos zero, if_pos zero]
    simp only [wp_bind, wp_get, wp_ite, wp_pure, wp_throw, wp_modify]
    exact ⟨fun _ => ⟨trivial, trivial, rfl⟩, fun _ => trivial⟩
  · rw [if_neg zero, if_neg zero]
    exact ⟨rfl, rfl, rfl⟩

theorem take_spoils (room : 2 ≤ u.isize h) {index newno : Nat} (s : State)
    (ready : 0 < swap h s.sb.s_nfree → swap h s.sb.s_nfree ≤ 50 →
      h.swizzling = false ∧ index + 2 = swap h s.sb.s_nfree)
    (entry : swap h (s.sb.s_free index) = newno) (some : newno ≠ 0) :
    wp (fun _ => True) (take h newno index) (fun newno t => t.allocs = s.allocs ∧ (newno = 0 → t.disk = s.disk) ∧
      (newno ≠ 0 → ¬ Exact h u ((s.sb, s.disk), newno, (t.sb, t.disk)))) s := by
  unfold take
  rw [wp_bind, wp_modify, wp_bind]
  refine wp_mono (wp_refill (h := h) newno index _) ?_
  rintro _ v ⟨allocs, disk, top⟩
  unfold swizzle writeSuper dwrite
  rw [wp_bind, wp_get]
  cases swizzle16 h.width h.swizzling (less32 (swap h v.sb.s_tfree)) with
  | none => exact True.intro
  | some tfree =>
    rw [wp_bind, wp_pure, wp_bind, wp_modify]
    by_cases out : outOfRange h v newno
    · rw [if_pos out, wp_pure]
      exact ⟨allocs, fun _ => disk, fun no => absurd rfl no⟩
    · rw [if_neg out]
      simp only [wp_bind, wp_get, wp_ite, wp_set, wp_throw, wp_pure]
      refine ⟨fun _ => ⟨allocs, fun no => absurd no some, fun _ exact => ?_⟩, fun _ => True.intro⟩
      obtain ⟨free, _, list, _⟩ := id exact
      obtain ⟨native, count⟩ := ready list.chain.count_pos list.chain.count_le
      have small : index < 65536 := by
        have less : swap h s.sb.s_nfree < 65536 := swap16_lt
        omega
      refine not_exact room count.symm entry some ?_ (fun b away => ?_) exact
      · rw [native, top_put index small] at top
        rw [native]
        exact top
      · rw [← show v.disk = s.disk from disk]
        exact put_ne _ _ away

/-- What `alloc` hands out has not been taken in the way that is asked. -/
theorem alloc_spoils (room : 2 ≤ u.isize h) (s : State) :
    wp (fun _ => True) (alloc h) (fun newno t => t.allocs = s.allocs ∧ (newno = 0 → t.disk = s.disk) ∧
      (newno ≠ 0 → ¬ Exact h u ((s.sb, s.disk), newno, (t.sb, t.disk)))) s := by
  unfold alloc swizzle
  rw [wp_bind, wp_get]
  cases count : swizzle16 h.width h.swizzling (less32 (swap h s.sb.s_nfree)) with
  | none => exact True.intro
  | some nfree =>
    rw [wp_bind, wp_pure]
    generalize index_eq : less16 nfree = index
    by_cases outside : 50 ≤ index
    · rw [if_pos outside]
      exact True.intro
    · rw [if_neg outside]
      by_cases none : swap h (s.sb.s_free index) = 0
      · rw [if_pos none]
        unfold exhausted swizzle
        rw [wp_bind]
        cases swizzle16 h.width h.swizzling (swap h index + 1) with
        | none => exact True.intro
        | some nfree' =>
          rw [wp_pure, wp_bind, wp_modify, wp_pure]
          exact ⟨rfl, fun _ => rfl, fun no => absurd rfl no⟩
      · rw [if_neg none]
        refine take_spoils room s (fun positive fits => ?_) rfl none
        obtain ⟨native, two⟩ := index_below positive fits count (by omega)
        rw [index_eq] at two
        exact ⟨native, two⟩

end

/-! ## Any run -/

/-- The image and the allocations are as they were. -/
def Calm (s t : State) : Prop := t.disk = s.disk ∧ t.allocs = s.allocs

/-- Nothing was allocated. -/
def Idle (s t : State) : Prop := t.allocs = s.allocs

instance : Std.Refl Calm := ⟨fun _ => ⟨rfl, rfl⟩⟩
instance : IsTrans State Calm := ⟨fun _ _ _ first second => ⟨second.1.trans first.1, second.2.trans first.2⟩⟩
instance : Std.Refl Idle := ⟨fun _ => rfl⟩
instance : IsTrans State Idle := ⟨fun _ _ _ first second => Eq.trans second first⟩

section
variable {h : Host} {s t u : State} {α : Type}

/-- Nothing has been written but after an allocation that took the wrong blocks. -/
def Honest (h : Host) (u t : State) : Prop :=
  ∃ new, t.allocs = new ++ u.allocs ∧ (t.disk = u.disk ∨ ∃ a ∈ new, a.2.1 ≠ 0 ∧ ¬ Exact h u a)

/-- An allocation took the wrong blocks. -/
def Spoilt (h : Host) (u t : State) : Prop :=
  ∃ new, t.allocs = new ++ u.allocs ∧ ∃ a ∈ new, a.2.1 ≠ 0 ∧ ¬ Exact h u a

theorem Spoilt.honest (spoilt : Spoilt h u t) : Honest h u t := by
  obtain ⟨new, same, wrong⟩ := spoilt
  exact ⟨new, same, .inr wrong⟩

theorem Honest.calm {m : F α} (honest : Honest h u t) (calm : Keeps (fun _ => True) Calm m) :
    wp (fun _ => True) m (fun _ v => Honest h u v) t := by
  obtain ⟨new, same, kept⟩ := honest
  refine wp_mono (calm t) ?_
  rintro _ v ⟨disk, allocs⟩
  refine ⟨new, allocs.trans same, ?_⟩
  rw [disk]
  exact kept

theorem Spoilt.idle {m : F α} (spoilt : Spoilt h u t) (idle : Keeps (fun _ => True) Idle m) :
    wp (fun _ => True) m (fun _ v => Spoilt h u v) t := by
  obtain ⟨new, same, wrong⟩ := spoilt
  exact wp_mono (idle t) fun _ v allocs => ⟨new, Eq.trans allocs same, wrong⟩

theorem Calm.idle {m : F α} (calm : Keeps (fun _ => True) Calm m) : Keeps (fun _ => True) Idle m :=
  calm.mono (fun _ kept => kept) fun _ _ both => both.2

theorem daread_calm (b : Nat) : Keeps (fun _ => True) Calm (daread b) := by
  intro s
  unfold daread
  simp only [wp_bind, wp_get, wp_ite, wp_pure, wp_throw]
  exact ⟨fun _ => ⟨rfl, rfl⟩, fun _ => trivial⟩

theorem dwrite_idle (b : Nat) (words : Nat → Nat) : Keeps (fun _ => True) Idle (dwrite h b words) := by
  intro s
  unfold dwrite
  simp only [wp_bind, wp_get, wp_ite, wp_set, wp_throw]
  exact ⟨fun _ => rfl, fun _ => trivial⟩

theorem iwrite_idle (n : Nat) (ino : Dinode) : Keeps (fun _ => True) Idle (iwrite h n ino) :=
  (Calm.idle (daread_calm _)).bind fun _ => dwrite_idle _ _

theorem yes_calm : Keeps (fun _ => True) Calm (yes h) := fun _ => ⟨rfl, rfl⟩

theorem unfix_calm : Keeps (fun _ => True) Calm unfix := fun _ => ⟨rfl, rfl⟩

theorem bittest_calm (b : Nat) : Keeps (fun _ => True) Calm (bittest h b) := by
  intro s
  unfold bittest
  simp only [wp_bind, wp_get, wp_ite, wp_pure, wp_throw]
  exact ⟨fun _ => ⟨rfl, rfl⟩, fun _ => trivial⟩

theorem bitset_calm (b : Nat) : Keeps (fun _ => True) Calm (bitset h b) := by
  intro s
  unfold bitset
  simp only [wp_bind, wp_get, wp_ite, wp_set, wp_throw]
  exact ⟨fun _ => ⟨rfl, rfl⟩, fun _ => trivial⟩

theorem clearFrom_calm (b k : Nat) : Keeps (fun _ => True) Calm (clearFrom h b k) := by
  induction k generalizing b with
  | zero => exact .pure ()
  | succ k ih =>
    refine Keeps.bind ?_ fun _ => ih (b + 1)
    intro s
    unfold bitclear
    simp only [wp_bind, wp_get, wp_ite, wp_set, wp_throw]
    exact ⟨fun _ => ⟨rfl, rfl⟩, fun _ => trivial⟩

theorem readAll_calm (bs : List Nat) : Keeps (fun _ => True) Calm (readAll bs) := by
  induction bs with
  | nil => exact .pure ()
  | cons b bs ih =>
    refine Keeps.bind ?_ fun _ => ih
    intro s
    rw [wp_discard]
    exact daread_calm b s

theorem getblkno_calm (ino : Dinode) (bno : Nat) : Keeps (fun _ => True) Calm (getblkno h ino bno) :=
  Keeps.get.bind fun _ => (readAll_calm _).bind fun _ => .pure _

theorem writeAll_idle (disk : Disk) (bs : List Nat) : Keeps (fun _ => True) Idle (writeAll h disk bs) := by
  induction bs with
  | nil => exact .pure ()
  | cons b bs ih => exact (dwrite_idle _ _).bind fun _ => ih

theorem putblkno_idle (ino : Dinode) (num dnum : Nat) : Keeps (fun _ => True) Idle (putblkno h ino num dnum) := by
  intro s
  unfold putblkno
  rw [wp_bind, wp_get]
  cases Fsck.setblkno h.swizzling s.disk ino num dnum with
  | error => exact trivial
  | ok v =>
    exact ((Calm.idle (readAll_calm _)).bind fun _ => (writeAll_idle _ _).bind fun _ => .pure _) s

theorem wp_blk_alloc0 (room : 2 ≤ u.isize h) (honest : Honest h u t) :
    wp (fun _ => True) (blk_alloc0 h) (fun newno v => Honest h u v ∧ (newno ≠ 0 → Spoilt h u v)) t := by
  obtain ⟨new, same, kept⟩ := honest
  unfold blk_alloc0
  rw [wp_bind, wp_get, wp_bind]
  refine wp_mono (alloc_spoils room t) ?_
  rintro newno v ⟨allocs, none, wrong⟩
  rw [wp_bind, wp_modify, wp_pure]
  have longer : ((t.sb, t.disk), newno, (v.sb, v.disk)) :: v.allocs =
      (((t.sb, t.disk), newno, (v.sb, v.disk)) :: new) ++ u.allocs := by
    rw [allocs, same]
    rfl
  have spoilt : newno ≠ 0 → Spoilt h u { v with
      allocs := ((t.sb, t.disk), newno, (v.sb, v.disk)) :: v.allocs } := fun some =>
    ⟨_, longer, _, List.mem_cons_self, some, wrong some⟩
  refine ⟨?_, spoilt⟩
  by_cases zero : newno = 0
  · refine ⟨_, longer, ?_⟩
    rcases kept with disk | ⟨a, member, bad⟩
    · exact .inl ((none zero).trans disk)
    · exact .inr ⟨a, List.mem_cons_of_mem _ member, bad⟩
  · exact (spoilt zero).honest

/-- What both loops do with a block that a pointer names. -/
theorem dup_honest {a : α} {b : Nat} {copy : Nat → F α} (room : 2 ≤ u.isize h)
    (idle : ∀ newno, Keeps (fun _ => True) Idle (copy newno)) (honest : Honest h u t) :
    wp (fun _ => True) (do
      let dup ← bittest h b
      if dup then do
        let y ← yes h
        if y then do
          let newno ← blk_alloc0 h
          if newno = 0 then do
            unfix
            return a
          else copy newno
        else return a
      else do
        bitset h b
        return a) (fun _ v => Honest h u v) t := by
  rw [wp_bind]
  refine wp_mono (honest.calm (bittest_calm _)) fun dup v honest => ?_
  cases dup with
  | false =>
    rw [if_neg (by decide), wp_bind]
    exact honest.calm (bitset_calm _)
  | true =>
    rw [if_pos rfl, wp_bind]
    refine wp_mono (honest.calm yes_calm) fun y v honest => ?_
    cases y with
    | false => exact honest
    | true =>
      rw [if_pos rfl, wp_bind]
      refine wp_mono (wp_blk_alloc0 room honest) ?_
      rintro newno v ⟨honest, spoilt⟩
      by_cases zero : newno = 0
      · rw [if_pos zero, wp_bind]
        exact honest.calm unfix_calm
      · rw [if_neg zero]
        exact wp_mono ((spoilt zero).idle (idle newno)) fun _ _ spoilt => spoilt.honest

theorem single3_honest (room : 2 ≤ u.isize h) (n b : Nat) (ino : Dinode) (honest : Honest h u t) :
    wp (fun _ => True) (single3 h n b ino) (fun _ v => Honest h u v) t := by
  unfold single3
  by_cases none : ino.i_addr b = 0
  · rw [if_pos none]
    exact honest
  · rw [if_neg none]
    refine dup_honest room (fun newno => ?_) honest
    exact (Calm.idle (daread_calm _)).bind fun _ => (dwrite_idle _ _).bind fun _ =>
      (iwrite_idle _ _).bind fun _ => .pure _

theorem block3_honest (room : 2 ≤ u.isize h) (n bno : Nat) (ino : Dinode) (honest : Honest h u t) :
    wp (fun _ => True) (block3 h n bno ino) (fun _ v => Honest h u v) t := by
  unfold block3
  rw [wp_bind]
  refine wp_mono (honest.calm (getblkno_calm _ _)) fun b v honest => ?_
  by_cases none : b = 0
  · rw [if_pos none]
    exact honest
  · rw [if_neg none]
    refine dup_honest room (fun newno => ?_) honest
    exact (Calm.idle (daread_calm _)).bind fun _ => (dwrite_idle _ _).bind fun _ =>
      (putblkno_idle _ _ _).bind fun _ => (iwrite_idle _ _).bind fun _ => .pure _

theorem inode3_honest (room : 2 ≤ u.isize h) (fuel : Loop → Nat) (n : Nat) (honest : Honest h u t) :
    wp (fun _ => True) (inode3 h fuel n) (fun _ v => Honest h u v) t := by
  unfold inode3 iread
  simp only [wp_bind, wp_pure]
  refine wp_mono (honest.calm (daread_calm _)) fun words v honest => ?_
  rw [wp_ite]
  refine ⟨fun _ => ?_, fun _ => honest⟩
  unfold file3 blocks
  rw [wp_bind]
  refine wp_mono (single3_honest room n 18 _ honest) fun ino v honest => ?_
  rw [wp_bind]
  refine wp_mono (single3_honest room n 19 ino honest) fun ino v honest => ?_
  rw [wp_discard]
  exact wp_count (I := fun _ t => Honest h u t) trivial honest fun bno ino t honest => block3_honest room n bno ino honest

/-- Whatever the image, pass 3 writes nothing but after an allocation that took the wrong blocks. -/
theorem pass3_honest (room : 2 ≤ u.isize h) (fuel : Loop → Nat) :
    wp (fun _ => True) (pass3 h fuel) (fun _ v => Honest h u v) u := by
  have start : Honest h u u := ⟨[], rfl, .inl rfl⟩
  unfold pass3
  rw [wp_bind, wp_get, wp_bind]
  refine wp_mono (start.calm (clearFrom_calm _ _)) fun _ v honest => ?_
  unfold inodesLoop
  rw [wp_bind, wp_get]
  exact wp_count (I := fun _ t => Honest h u t) trivial honest fun n _ t honest => inode3_honest room fuel n honest

/-- So nothing was shared before where all is well afterwards. -/
theorem Honest.single (honest : Honest h u t) (resolved : Resolved h u t) : Single h u u.disk := by
  obtain ⟨new, same, disk | ⟨a, member, some, wrong⟩⟩ := honest
  · exact disk ▸ resolved.single
  · obtain ⟨new', same', right⟩ := resolved.exact
    have one : new' = new := List.append_cancel_right (same'.symm.trans same)
    exact absurd (right a (one ▸ member) some) wrong

end

/-! ## A run with nothing to do -/

section
variable {h : Host} {t u : State} {M : Nat → Prop} {ino : Dinode} {b n : Nat} {α : Type}

/-- The image has all its blocks. -/
def Whole (h : Host) (u : State) : Prop := u.isize h ≤ u.extent ∧ u.fsize h ≤ u.extent

instance (h : Host) (u : State) : Decidable (Whole h u) := by unfold Whole; infer_instance

/-- The run stops only at a block behind the end of the image. -/
def Short (h : Host) (u : State) (e : Exit) : Prop := e = .exit ∧ ¬ Whole h u

/-- Nothing has changed but the bitmap, which has the blocks of `M`. -/
structure Quiet (h : Host) (u : State) (M : Nat → Prop) (t : State) : Prop where
  disk : t.disk = u.disk
  sb : t.sb = u.sb
  extent : t.extent = u.extent
  allocs : t.allocs = u.allocs
  marks : ∀ b, Inside h u b → (Bits.test t.bitmap 0 b = true ↔ M b)

theorem Quiet.congr {M' : Nat → Prop} (quiet : Quiet h u M t) (same : ∀ b, Inside h u b → (M b ↔ M' b)) :
    Quiet h u M' t :=
  ⟨quiet.disk, quiet.sb, quiet.extent, quiet.allocs, fun b inside => (quiet.marks b inside).trans (same b inside)⟩

theorem quiet_daread (near : b < u.isize h ∨ b < u.fsize h) (quiet : Quiet h u M t) {Q : (Nat → Nat) → State → Prop}
    (next : Q (u.disk b) t) : wp (Short h u) (daread b) Q t := by
  unfold daread
  simp only [wp_bind, wp_get, wp_ite, wp_pure, wp_throw, quiet.disk, quiet.extent]
  refine ⟨fun _ => next, fun behind => ⟨rfl, ?_⟩⟩
  unfold Whole
  omega

theorem quiet_clear (inside : Inside h u b) (quiet : Quiet h u M t) :
    wp (Short h u) (bitclear h b) (fun _ v => Quiet h u (fun x => M x ∧ x ≠ b) v) t := by
  unfold bitclear
  simp only [wp_bind, wp_get, wp_ite, wp_set, wp_throw]
  refine ⟨fun _ => ⟨quiet.disk, quiet.sb, quiet.extent, quiet.allocs, fun x within => ?_⟩,
    fun out => absurd (inside.mapped quiet.sb) out⟩
  show Bits.test (Bits.clear t.bitmap 0 b) 0 x = true ↔ _
  rw [Bits.test_clear, Bool.and_eq_true, decide_eq_true_iff, quiet.marks x within]

theorem quiet_clearFrom {k : Nat} (low : u.isize h ≤ b) (high : b + k ≤ u.fsize h) (quiet : Quiet h u M t) :
    wp (Short h u) (clearFrom h b k) (fun _ v => Quiet h u (fun x => M x ∧ (x < b ∨ b + k ≤ x)) v) t := by
  induction k generalizing b t M with
  | zero =>
    refine quiet.congr fun x _ => ?_
    constructor
    · exact fun marked => ⟨marked, by omega⟩
    · exact fun marked => marked.1
  | succ k ih =>
    unfold clearFrom
    rw [wp_bind]
    refine wp_mono (quiet_clear ⟨low, by omega⟩ quiet) fun _ v quiet => ?_
    refine wp_mono (ih (by omega) (by omega) quiet) fun _ w quiet => quiet.congr fun x _ => ?_
    constructor
    · rintro ⟨⟨marked, other⟩, away⟩
      exact ⟨marked, by omega⟩
    · rintro ⟨marked, away⟩
      exact ⟨⟨marked, by omega⟩, by omega⟩

/-- A block that was not seen yet is only marked. -/
theorem quiet_mark {a : α} (other : F α) (inside : Inside h u b) (new : ¬ M b) (quiet : Quiet h u M t) :
    wp (Short h u) (do
      let dup ← bittest h b
      if dup then other
      else do
        bitset h b
        return a) (fun a' v => a' = a ∧ Quiet h u (fun x => M x ∨ x = b) v) t := by
  have unmarked : ¬ Bits.test t.bitmap 0 b = true := fun marked => new ((quiet.marks b inside).mp marked)
  have mapped : inBitmap h t b := inside.mapped quiet.sb
  unfold bittest bitset
  simp only [wp_bind, wp_get, wp_ite, wp_pure, wp_set, wp_throw]
  refine ⟨fun _ => ⟨fun marked => absurd marked unmarked, fun _ => ⟨fun _ => ⟨trivial, ?_⟩,
    fun out => absurd mapped out⟩⟩, fun out => absurd mapped out⟩
  refine ⟨quiet.disk, quiet.sb, quiet.extent, quiet.allocs, fun x within => ?_⟩
  show Bits.test (Bits.set t.bitmap 0 b) 0 x = true ↔ _
  rw [Bits.test_set, Bool.or_eq_true, decide_eq_true_iff, quiet.marks x within]

theorem quiet_single3 (k : Nat) (framed : ino.i_addr k ≠ 0 → Inside h u (swap h (ino.i_addr k)))
    (new : ino.i_addr k ≠ 0 → ¬ M (swap h (ino.i_addr k))) (quiet : Quiet h u M t) :
    wp (Short h u) (single3 h n k ino) (fun ino' v => ino' = ino ∧
      Quiet h u (fun x => M x ∨ ino.i_addr k ≠ 0 ∧ x = swap h (ino.i_addr k)) v) t := by
  unfold single3
  by_cases none : ino.i_addr k = 0
  · rw [if_pos none]
    refine ⟨rfl, quiet.congr fun x _ => ?_⟩
    simp [none]
  · rw [if_neg none]
    refine wp_mono (quiet_mark _ (framed none) (new none) quiet) ?_
    rintro ino' v ⟨same, quiet⟩
    refine ⟨same, quiet.congr fun x _ => ?_⟩
    simp [none]

theorem quiet_readAll (bs : List Nat) (near : ∀ b ∈ bs, b < u.isize h ∨ b < u.fsize h) (quiet : Quiet h u M t)
    {Q : Unit → State → Prop} (next : Q () t) : wp (Short h u) (readAll bs) Q t := by
  induction bs with
  | nil => exact next
  | cons b bs ih =>
    unfold readAll
    rw [wp_bind, wp_discard]
    exact quiet_daread (near b List.mem_cons_self) quiet (ih fun c member => near c (List.mem_cons_of_mem _ member))

/-- The index blocks of a file are on the image. -/
theorem reads_near (room : 2 ≤ u.isize h) (framed : Framed h u ino) (tidy : Tidy h u ino) {bno : Nat}
    (small : bno < 65536) : ∀ b ∈ Fsck.indexReads h.swizzling u.disk ino bno, b < u.isize h ∨ b < u.fsize h := by
  have first : ∀ k, k = 18 ∨ k = 19 → swap h (ino.i_addr k) < u.isize h ∨ swap h (ino.i_addr k) < u.fsize h := by
    intro k which
    by_cases none : ino.i_addr k = 0
    · rw [none]
      left
      show swap16 _ 0 < _
      rw [swap16_zero]
      omega
    · exact .inr (framed k which none).2
  have second : ino.i_addr 19 ≠ 0 → ∀ k < 256, swap h (u.disk (swap h (ino.i_addr 19)) k) < u.isize h ∨
      swap h (u.disk (swap h (ino.i_addr 19)) k) < u.fsize h := by
    intro some k less
    by_cases none : u.disk (swap h (ino.i_addr 19)) k = 0
    · rw [none]
      left
      show swap16 _ 0 < _
      rw [swap16_zero]
      omega
    · exact .inr (tidy.second some k less none).2
  intro b member
  by_cases direct : bno < 18
  · unfold Fsck.indexReads at member
    rw [if_pos direct] at member
    cases member
  · by_cases low : bno < 274
    · by_cases some : Fsck.indirect h.swizzling ino 18 = 0
      · rw [Fsck.indexReads_single_none (by omega) low some] at member
        cases member
      · rw [Fsck.indexReads_single (by omega) low some] at member
        rw [List.mem_singleton.mp member]
        exact first 18 (.inl rfl)
    · by_cases some : Fsck.indirect h.swizzling ino 19 = 0
      · rw [Fsck.indexReads_none (by omega) some] at member
        cases member
      · rw [Fsck.indexReads_double (by omega) some] at member
        rcases List.mem_cons.mp member with rfl | rest
        · exact first 19 (.inr rfl)
        · rw [List.mem_singleton.mp rest]
          exact second (named_of some) _ (by omega)

theorem quiet_getblkno (room : 2 ≤ u.isize h) (framed : Framed h u ino) (tidy : Tidy h u ino) {bno : Nat}
    (small : bno < 65536) (quiet : Quiet h u M t) {Q : Nat → State → Prop}
    (next : Q (Fsck.getblkno h.swizzling u.disk ino bno) t) : wp (Short h u) (getblkno h ino bno) Q t := by
  unfold getblkno
  rw [wp_bind, wp_get, wp_bind, quiet.disk]
  exact quiet_readAll _ (reads_near room framed tidy small) quiet next

/-- The pointers that pass 3 looks at. -/
def Ref.seen : Ref → Prop
  | .second _ => False
  | _ => True

theorem quiet_block3 (room : 2 ≤ u.isize h) (framed : Framed h u ino) (tidy : Tidy h u ino) {bno : Nat}
    (less : bno ≤ last h ino) (new : Fsck.getblkno h.swizzling u.disk ino bno ≠ 0 →
      ¬ M (Fsck.getblkno h.swizzling u.disk ino bno)) (quiet : Quiet h u M t) :
    wp (Short h u) (block3 h n bno ino) (fun ino' v => ino' = ino ∧ Quiet h u (fun x => M x ∨
      Fsck.getblkno h.swizzling u.disk ino bno ≠ 0 ∧ x = Fsck.getblkno h.swizzling u.disk ino bno) v) t := by
  have short := tidy.short
  unfold block3
  rw [wp_bind]
  refine quiet_getblkno room framed tidy (by omega) quiet ?_
  by_cases none : Fsck.getblkno h.swizzling u.disk ino bno = 0
  · rw [if_pos none]
    refine ⟨rfl, quiet.congr fun x _ => ?_⟩
    simp [none]
  · rw [if_neg none]
    refine wp_mono (quiet_mark _ (tidy.data bno less none).1 (new none) quiet) ?_
    rintro ino' v ⟨same, quiet⟩
    refine ⟨same, quiet.congr fun x _ => ?_⟩
    simp [none]

/-- The blocks of a file none of which was seen yet. -/
theorem quiet_blocks {fuel : Loop → Nat} (enough : Enough h (u.isize h) fuel) (room : 2 ≤ u.isize h)
    (framed : Framed h u ino) (tidy : Tidy h u ino)
    (new : ∀ bno b, Names h u.disk ino (.data bno) b → ¬ M b)
    (once : ∀ bno bno' b, Names h u.disk ino (.data bno) b → Names h u.disk ino (.data bno') b → bno = bno')
    (quiet : Quiet h u M t) :
    wp (Short h u) (blocks fuel (swizzle32 h.swizzling ino.i_size) (block3 h n) ino) (fun _ v =>
      Quiet h u (fun x => M x ∨ ∃ bno, Names h u.disk ino (.data bno) x) v) t := by
  have short := tidy.short
  have data : ∀ bno ≤ last h ino, Fsck.getblkno h.swizzling u.disk ino bno ≠ 0 →
      Names h u.disk ino (.data bno) (Fsck.getblkno h.swizzling u.disk ino bno) :=
    fun bno less some => ⟨less, (tidy.data bno less some).2, some, rfl⟩
  have lasts : last h ino + 1 < 0 + fuel (.blocks (swizzle32 h.swizzling ino.i_size)) := by
    have rounds := enough (.blocks (swizzle32 h.swizzling ino.i_size)) (Nat.not_le.mpr short)
    have size : last h ino + 2 ≤ fuel (.blocks (swizzle32 h.swizzling ino.i_size)) := rounds
    omega
  have reach : last h ino + 1 < 65536 := by omega
  refine wp_mono (wp_up (I := fun i ino' v => ino' = ino ∧
    Quiet h u (fun x => M x ∨ ∃ bno < i, Names h u.disk ino (.data bno) x) v) reach lasts (Nat.zero_le _)
    ⟨rfl, quiet.congr fun x _ => ?_⟩ ?_) fun _ v post => post.2.congr fun x _ => ?_
  · simp
  · rintro i ino' v less ⟨same, quiet⟩
    rw [same]
    have within : i < last h ino + 1 := less
    have fresh : ∀ some : Fsck.getblkno h.swizzling u.disk ino i ≠ 0,
        ¬ (M (Fsck.getblkno h.swizzling u.disk ino i) ∨
          ∃ bno < i, Names h u.disk ino (.data bno) (Fsck.getblkno h.swizzling u.disk ino i)) := by
      rintro some (old | ⟨bno, before, named⟩)
      · exact new i _ (data i (by omega) some) old
      · have both := once i bno _ (data i (by omega) some) named
        omega
    refine wp_mono (quiet_block3 room framed tidy (by omega) fresh quiet) ?_
    rintro ino'' w ⟨same', quiet⟩
    refine ⟨same', quiet.congr fun x _ => ?_⟩
    constructor
    · rintro ((old | ⟨bno, before, named⟩) | ⟨some, rfl⟩)
      · exact .inl old
      · exact .inr ⟨bno, by omega, named⟩
      · exact .inr ⟨i, by omega, data i (by omega) some⟩
    · rintro (old | ⟨bno, before, named⟩)
      · exact .inl (.inl old)
      · by_cases here : bno = i
        · subst here
          exact .inr named.2.2
        · exact .inl (.inr ⟨bno, by omega, named⟩)
  · constructor
    · rintro (old | ⟨bno, _, named⟩)
      · exact .inl old
      · exact .inr ⟨bno, named⟩
    · rintro (old | ⟨bno, named⟩)
      · exact .inl old
      · exact .inr ⟨bno, Nat.lt_succ_of_le named.1, named⟩

/-- A file of which no block was seen yet. -/
theorem quiet_file3 {fuel : Loop → Nat} (enough : Enough h (u.isize h) fuel) (room : 2 ≤ u.isize h)
    (framed : Framed h u ino) (tidy : Tidy h u ino)
    (new : ∀ r b, Names h u.disk ino r b → ¬ M b)
    (once : ∀ r r' b, Names h u.disk ino r b → Names h u.disk ino r' b → r = r') (quiet : Quiet h u M t) :
    wp (Short h u) (file3 h fuel n ino) (fun _ v => Quiet h u (fun x => M x ∨ ∃ r, r.seen ∧
      Names h u.disk ino r x) v) t := by
  have index : ∀ k, k = 18 ∨ k = 19 → ino.i_addr k ≠ 0 → Names h u.disk ino (.index k) (swap h (ino.i_addr k)) :=
    fun k which some => ⟨which, some, rfl⟩
  have apart : ∀ some : ino.i_addr 19 ≠ 0, ¬ (M (swap h (ino.i_addr 19)) ∨
      ino.i_addr 18 ≠ 0 ∧ swap h (ino.i_addr 19) = swap h (ino.i_addr 18)) := by
    rintro some (old | ⟨first, same⟩)
    · exact new (.index 19) _ (index 19 (.inr rfl) some) old
    · have here := index 18 (.inl rfl) first
      rw [← same] at here
      have both := once (.index 19) (.index 18) _ (index 19 (.inr rfl) some) here
      cases both
  unfold file3
  rw [wp_bind]
  refine wp_mono (quiet_single3 18 (framed 18 (.inl rfl)) (fun some => new (.index 18) _ (index 18 (.inl rfl) some))
    quiet) ?_
  rintro ino₁ v ⟨same₁, quiet⟩
  rw [same₁, wp_bind]
  refine wp_mono (quiet_single3 19 (framed 19 (.inr rfl)) apart quiet) ?_
  rintro ino₂ v ⟨same₂, quiet⟩
  rw [same₂, wp_discard]
  have fresh : ∀ bno b, Names h u.disk ino (.data bno) b → ¬ ((M b ∨ ino.i_addr 18 ≠ 0 ∧ b = swap h (ino.i_addr 18)) ∨
      ino.i_addr 19 ≠ 0 ∧ b = swap h (ino.i_addr 19)) := by
    rintro bno b named ((old | ⟨some, rfl⟩) | ⟨some, rfl⟩)
    · exact new (.data bno) _ named old
    · have both := once (.data bno) (.index 18) _ named (index 18 (.inl rfl) some)
      cases both
    · have both := once (.data bno) (.index 19) _ named (index 19 (.inr rfl) some)
      cases both
  have single : ∀ bno bno' b, Names h u.disk ino (.data bno) b → Names h u.disk ino (.data bno') b → bno = bno' := by
    intro bno bno' b named named'
    have both := once (.data bno) (.data bno') b named named'
    injection both
  refine wp_mono (quiet_blocks enough room framed tidy fresh single quiet) fun _ w quiet => quiet.congr fun x _ => ?_
  constructor
  · rintro (((old | some) | some) | ⟨bno, named⟩)
    · exact .inl old
    · exact .inr ⟨.index 18, trivial, .inl rfl, some⟩
    · exact .inr ⟨.index 19, trivial, .inr rfl, some⟩
    · exact .inr ⟨.data bno, trivial, named⟩
  · rintro (old | ⟨r, seen, named⟩)
    · exact .inl (.inl (.inl old))
    · cases r with
      | index k =>
        obtain ⟨rfl | rfl, some⟩ := named
        · exact .inl (.inl (.inr some))
        · exact .inl (.inr some)
      | second k => exact absurd seen id
      | data bno => exact .inr ⟨bno, named⟩

/-- The blocks that are seen in the inodes below `n`. -/
def SeenBelow (h : Host) (u : State) (n b : Nat) : Prop := ∃ m < n, ∃ r, r.seen ∧ Points h u u.disk m r b

theorem quiet_inode3 {fuel : Loop → Nat} (enough : Enough h (u.isize h) fuel) (checked : Checked h u)
    (single : Single h u u.disk) (listed : Listed h u n) (quiet : Quiet h u (SeenBelow h u n) t) :
    wp (Short h u) (inode3 h fuel n) (fun _ v => Quiet h u (SeenBelow h u (n + 1)) v) t := by
  have below : n / 8 + 2 < u.isize h := by
    have inside := listed.2
    have room := checked.room
    unfold State.inodes at inside
    cases width : h.width with
    | int16 =>
      rw [width] at inside
      dsimp only at inside
      omega
    | int32 =>
      rw [width] at inside
      dsimp only at inside
      omega
  have next : ∀ b, SeenBelow h u n b ∨ (∃ r, r.seen ∧ Points h u u.disk n r b) ↔ SeenBelow h u (n + 1) b := by
    intro b
    constructor
    · rintro (⟨m, less, seen⟩ | here)
      · exact ⟨m, by omega, seen⟩
      · exact ⟨n, by omega, here⟩
    · rintro ⟨m, less, seen⟩
      by_cases same : m = n
      · subst same
        exact .inr seen
      · exact .inl ⟨m, by omega, seen⟩
  unfold inode3 iread
  simp only [wp_bind, wp_pure]
  refine quiet_daread (.inl below) quiet ?_
  show wp _ (if fmt (swap h (Dinode.i_mode (inode u.disk n))) = F_REG ∨
    fmt (swap h (Dinode.i_mode (inode u.disk n))) = F_DIR then file3 h fuel n (inode u.disk n) else return ()) _ t
  by_cases filed : Filed h (inode u.disk n)
  · have case : fmt (swap h (Dinode.i_mode (inode u.disk n))) = F_REG ∨
        fmt (swap h (Dinode.i_mode (inode u.disk n))) = F_DIR := filed
    obtain ⟨framed, tidy⟩ := checked.files n listed filed
    have new : ∀ r b, Names h u.disk (inode u.disk n) r b → ¬ SeenBelow h u n b := by
      rintro r b named ⟨m, less, r', _, points⟩
      have same := (single n m r r' b ⟨listed, filed, named⟩ points).1
      omega
    have once : ∀ r r' b, Names h u.disk (inode u.disk n) r b → Names h u.disk (inode u.disk n) r' b → r = r' :=
      fun r r' b named named' => (single n n r r' b ⟨listed, filed, named⟩ ⟨listed, filed, named'⟩).2
    rw [if_pos case]
    refine wp_mono (quiet_file3 enough checked.room framed tidy new once quiet) fun _ v quiet =>
      quiet.congr fun x _ => ?_
    rw [← next]
    constructor
    · rintro (old | ⟨r, seen, named⟩)
      · exact .inl old
      · exact .inr ⟨r, seen, listed, filed, named⟩
    · rintro (old | ⟨r, seen, points⟩)
      · exact .inl old
      · exact .inr ⟨r, seen, points.2.2⟩
  · have case : ¬ (fmt (swap h (Dinode.i_mode (inode u.disk n))) = F_REG ∨
        fmt (swap h (Dinode.i_mode (inode u.disk n))) = F_DIR) := filed
    rw [if_neg case]
    refine quiet.congr fun x _ => ?_
    rw [← next]
    constructor
    · exact .inl
    · rintro (old | ⟨_, _, _, no, _⟩)
      · exact old
      · exact absurd no filed

/-- Where no block is named twice pass 3 changes only the bitmap. -/
theorem quiet_pass3 {fuel : Loop → Nat} (enough : Enough h (u.isize h) fuel) (checked : Checked h u)
    (single : Single h u u.disk) :
    wp (Short h u) (pass3 h fuel) (fun _ v => v.disk = u.disk ∧ v.sb = u.sb ∧ v.allocs = u.allocs) u := by
  have start : Quiet h u (fun b => Bits.test u.bitmap 0 b = true) u := ⟨rfl, rfl, rfl, rfl, fun _ _ => Iff.rfl⟩
  have cleared : wp (Short h u) (clearFrom h (u.isize h) (u.fsize h - u.isize h))
      (fun _ v => Quiet h u (fun _ => False) v) u := by
    by_cases some : u.isize h ≤ u.fsize h
    · refine wp_mono (quiet_clearFrom (Nat.le_refl _) (by omega) start) fun _ v quiet =>
        quiet.congr fun x inside => ?_
      have low := inside.1
      have high := inside.2
      constructor
      · rintro ⟨_, away⟩
        omega
      · exact False.elim
    · rw [Nat.sub_eq_zero_of_le (by omega)]
      refine start.congr fun x inside => ?_
      have low := inside.1
      have high := inside.2
      omega
  unfold pass3
  rw [wp_bind, wp_get, wp_bind]
  refine wp_mono cleared fun _ v quiet => ?_
  have same : v.inodes h = u.inodes h := by
    unfold State.inodes State.isize
    rw [quiet.sb]
  have bound := checked.count
  have lasts : u.inodes h < fuel .inodes := enough .inodes (Nat.not_le.mpr bound)
  rw [← same] at bound lasts
  refine wp_mono (wp_inodesLoop (I := fun n w => Quiet h u (SeenBelow h u n) w) bound lasts ?_ ?_) ?_
  · refine quiet.congr fun x _ => ?_
    constructor
    · exact False.elim
    · rintro ⟨m, less, _, _, listed, _⟩
      have low := listed.1
      omega
  · intro n w listed quiet
    exact quiet_inode3 enough checked single ⟨listed.1, same ▸ listed.2⟩ quiet
  · exact fun _ w quiet => ⟨quiet.disk, quiet.sb, quiet.allocs⟩

theorem quiet_resolved (checked : Checked h u) (single : Single h u u.disk) (disk : t.disk = u.disk) (sb : t.sb = u.sb)
    (allocs : t.allocs = u.allocs) : Resolved h u t := by
  constructor
  · exact disk.symm ▸ single
  · rw [disk, sb]
    exact checked.list
  · intro n listed filed
    rw [disk]
    exact ⟨filed, rfl, fun _ _ => rfl⟩
  · exact ⟨[], allocs, fun a no => by cases no⟩

end

/-- Passes 1 and 2. -/
def twoPasses (h : Host) (fuel : Loop → Nat) : F Unit := do
  pass1 h fuel
  pass2 h fuel

/-- With all repairs accepted, passes 1 and 2 of a clear image leave pointers in range and a free list
without blocks of files. Whatever they leave, and however many blocks are free, pass 3 does not end as it should
if a block is named twice. If none is, it does, or stops at a block behind the end of the image. -/
theorem pass3_resolves (h : Host) (all : Accepts h) (disk : Disk) (extent : Nat) (fuel : Loop → Nat)
    (enough : Enough h ((start disk extent).isize h) fuel) (u : State)
    (run : twoPasses h fuel (start disk extent) = .ok ((), u)) :
    (Clear h (start disk extent) → 2 ≤ (start disk extent).isize h → Checked h u) ∧
    (2 ≤ u.isize h → ∀ t, pass3 h fuel u = .ok ((), t) → Resolved h u t → Single h u u.disk) ∧
    (Checked h u → Single h u u.disk → (∀ e, pass3 h fuel u = .error e → e = .exit ∧ ¬ Whole h u) ∧
      ∀ t, pass3 h fuel u = .ok ((), t) → Resolved h u t) := by
  have ends : Ends h ((start disk extent).isize h) (twoPasses h fuel) :=
    Ends.bind (pass1_ends enough) fun _ => pass2_ends enough
  have isize : u.isize h = (start disk extent).isize h := by
    have kept := wp_ok (ends (start disk extent) rfl) run
    exact kept
  refine ⟨?_, ?_, ?_⟩
  · intro clear room
    have both : wp (fun _ => True) (twoPasses h fuel) (fun _ u => Checked h u) (start disk extent) := by
      have first := wp_stop_mono (wp_pass1 all clear enough (start_fresh h disk extent)) fun _ _ => trivial
      unfold twoPasses
      rw [wp_bind]
      refine wp_mono first fun _ t first => ?_
      have same : t.isize h = (start disk extent).isize h := congrArg (swap h) first.isize
      rw [← same] at enough room
      exact wp_mono (wp_pass2 all enough room) fun _ v second => checked clear (same ▸ room) first second
    have checked := wp_ok both run
    exact checked
  · intro room t ended resolved
    exact (wp_ok (pass3_honest room fuel) ended).single resolved
  · intro checked single
    rw [← isize] at enough
    have quiet := quiet_pass3 enough checked single
    constructor
    · intro e stop
      have short : Short h u e := wp_error quiet stop
      exact short
    · intro t ended
      obtain ⟨same, sb, allocs⟩ := wp_ok quiet ended
      exact quiet_resolved checked single same sb allocs

/-- What a run leaves, if it returns. -/
def leaves (r : Except Exit (Unit × State)) (p : State → Bool) : Bool :=
  match r with
  | .ok (_, t) => p t
  | .error _ => false

theorem leaves_ok {r : Except Exit (Unit × State)} {p : State → Bool} (left : leaves r p = true) :
    ∃ t, r = .ok ((), t) ∧ p t = true := by
  cases r with
  | error e => cases left
  | ok q =>
    obtain ⟨_, t⟩ := q
    exact ⟨t, rfl, left⟩

/-- A file of one block has one pointer. -/
theorem names_first {h : Host} {disk : Disk} {ino : Dinode} {r : Ref} {b : Nat} (single : ino.i_addr 18 = 0)
    (double : ino.i_addr 19 = 0) (short : last h ino = 0) (named : Names h disk ino r b) : r = .data 0 := by
  cases r with
  | index k =>
    obtain ⟨rfl | rfl, some, _⟩ := named
    · exact absurd single some
    · exact absurd double some
  | second k => exact absurd double named.2.1
  | data bno =>
    have less := named.1
    rw [short] at less
    rw [Nat.le_zero.mp less]

/-- The root directory has block 5, and no other block is used. -/
theorem pass3_resolves_root : ∃ u t, twoPasses yesHost (rounds yesHost 3) (start (rootAt 5) 8) = .ok ((), u) ∧
    pass3 yesHost (rounds yesHost 3) u = .ok ((), t) ∧ Resolved yesHost u t := by
  have left : leaves (twoPasses yesHost (rounds yesHost 3) (start (rootAt 5) 8)) (fun u =>
      decide (u.inodes yesHost = 8 ∧ Whole yesHost u ∧ Dinode.i_addr (inode u.disk 1) 18 = 0 ∧
        Dinode.i_addr (inode u.disk 1) 19 = 0 ∧ last yesHost (inode u.disk 1) = 0) &&
      (List.range 8).all fun n => n = 1 || !decide (Filed yesHost (inode u.disk n))) = true := by decide +kernel
  obtain ⟨u, run, facts⟩ := leaves_ok left
  obtain ⟨facts, each⟩ := Bool.and_eq_true_iff.mp facts
  obtain ⟨count, whole, single, double, short⟩ := of_decide_eq_true facts
  have only : ∀ n < 8, Filed yesHost (inode u.disk n) → n = 1 := by
    intro n less filed
    have one := List.all_eq_true.mp each n (List.mem_range.mpr less)
    simpa [filed] using one
  have right := pass3_resolves yesHost (fun _ => rfl) (rootAt 5) 8 (rounds yesHost 3) (root_enough 5) u run
  have checked := right.1 root_clear (by decide)
  have one : ∀ n r b, Points yesHost u u.disk n r b → n = 1 ∧ r = .data 0 := by
    rintro n r b ⟨listed, filed, named⟩
    have root : n = 1 := only n (count ▸ listed.2) filed
    subst root
    exact ⟨rfl, names_first single double short named⟩
  have alone : Single yesHost u u.disk := by
    intro n n' r r' b points points'
    obtain ⟨rfl, rfl⟩ := one n r b points
    obtain ⟨rfl, rfl⟩ := one n' r' b points'
    exact ⟨rfl, rfl⟩
  obtain ⟨stops, ends⟩ := right.2.2 checked alone
  cases result : pass3 yesHost (rounds yesHost 3) u with
  | error e => exact absurd whole (stops e result).2
  | ok q =>
    obtain ⟨_, t⟩ := q
    exact ⟨u, t, run, result, ends t result⟩

/-- The same with a file that has block 5 as well. -/
def shared : Disk := put₂ (put₂ (put₂ (rootAt 5) 2 64 33188) 2 65 1) 2 76 5

/-- There are as many free blocks as pointers. -/
def Plenty (h : Host) (u : State) : Prop := ∃ free, FreeList h u u.sb u.disk free ∧ ∀ ps : List (Nat × Ref),
  ps.Nodup → (∀ p ∈ ps, ∃ b, Points h u u.disk p.1 p.2 b) → ps.length ≤ free.length

/-- Four blocks are free, and block 5 has two owners. The copy goes to block 4, while block 3 is taken off
the free list with it and lost. -/
theorem shared_lost : ¬ ∀ (h : Host) (_ : Accepts h) (disk : Disk) (extent : Nat) (fuel : Loop → Nat)
    (_ : Enough h ((start disk extent).isize h) fuel) (u : State)
    (_ : twoPasses h fuel (start disk extent) = .ok ((), u)) (_ : Plenty h u) (t : State),
    pass3 h fuel u = .ok ((), t) → Resolved h u t := by
  intro claim
  have left : leaves (twoPasses yesHost (rounds yesHost 3) (start shared 8)) (fun u =>
      decide (u.isize yesHost = 3 ∧ u.fsize yesHost = 8) &&
      decide ((u.sb.top false).count = 5 ∧ (List.range 5).map (u.sb.top false).entry = [0, 7, 6, 4, 3]) &&
      ((List.range 8).all fun n => n = 1 || n = 2 || !decide (Filed yesHost (inode u.disk n))) &&
      ([1, 2].all fun n => decide (Filed yesHost (inode u.disk n)) && decide (last yesHost (inode u.disk n) = 0 ∧
        Dinode.i_addr (inode u.disk n) 18 = 0 ∧ Dinode.i_addr (inode u.disk n) 19 = 0 ∧
        Fsck.getblkno false u.disk (inode u.disk n) 0 = 5)) &&
      leaves (pass3 yesHost (rounds yesHost 3) u) fun _ => true) = true := by decide +kernel
  obtain ⟨u, run, facts⟩ := leaves_ok left
  simp only [Bool.and_eq_true, decide_eq_true_eq] at facts
  obtain ⟨⟨⟨⟨⟨isize, fsize⟩, count, words⟩, others⟩, both⟩, ends⟩ := facts
  obtain ⟨t, done, _⟩ := leaves_ok ends
  have listed : ∀ n, Listed yesHost u n ↔ 1 ≤ n ∧ n < 8 := by
    intro n
    unfold Listed State.inodes
    rw [isize]
    exact Iff.rfl
  have only : ∀ n r b, Points yesHost u u.disk n r b → (n, r) ∈ [(1, Ref.data 0), (2, Ref.data 0)] := by
    rintro n r b ⟨inside, filed, named⟩
    have one := List.all_eq_true.mp others n (List.mem_range.mpr ((listed n).mp inside).2)
    have which : n = 1 ∨ n = 2 := by simpa [filed] using one
    have member : n ∈ [1, 2] := by simpa using which
    have file := List.all_eq_true.mp both n member
    simp only [Bool.and_eq_true, decide_eq_true_eq] at file
    have first := names_first file.2.2.1 file.2.2.2.1 file.2.1 named
    rcases which with rfl | rfl <;> simp [first]
  have points : ∀ n ∈ [1, 2], Points yesHost u u.disk n (.data 0) 5 := by
    intro n member
    have file := List.all_eq_true.mp both n member
    simp only [Bool.and_eq_true, decide_eq_true_eq] at file
    obtain ⟨filed, short, _, _, found⟩ := file
    have inside : 1 ≤ n ∧ n < 8 := by
      simp only [List.mem_cons, List.not_mem_nil, or_false] at member
      omega
    have found : Fsck.getblkno yesHost.swizzling u.disk (inode u.disk n) 0 = 5 := found
    refine ⟨(listed n).mpr inside, filed, Nat.zero_le _, ⟨fun no => absurd no (by decide), fun no => absurd no (by decide)⟩, ?_, ?_⟩
    · rw [found]
      decide
    · rw [found]
  have plenty : Plenty yesHost u := by
    have chain : ∀ (link : Nat → Batch Nat) (l : Batch Nat), l.count = 5 → (List.range 5).map l.entry = [0, 7, 6, 4, 3] →
        Yields FILESYS_TABSIZE 0 link l [3, 4, 6, 7] := by
      rintro link ⟨count, entry⟩ (rfl : count = 5) words
      simp only [List.range, List.range.loop, List.map, List.cons.injEq] at words
      obtain ⟨zero, one, two, three, four, _⟩ := words
      have none : Yields FILESYS_TABSIZE 0 link ⟨1, entry⟩ [] := .done Nat.one_pos (by show 1 ≤ 50; decide) zero
      exact .above (by decide) four (by decide) (.above (by decide) three (by decide) (.above (by decide) two (by decide)
        (.above (by decide) one (by decide) none)))
    refine ⟨[3, 4, 6, 7], ⟨chain _ _ count words, by decide, ?_⟩, ?_⟩
    · intro b member
      unfold Inside
      rw [isize, fsize]
      revert b
      decide
    · intro ps distinct all
      have subset : ps ⊆ [(1, Ref.data 0), (2, Ref.data 0)] := by
        rintro ⟨n, r⟩ member
        obtain ⟨b, pointer⟩ := all (n, r) member
        exact only n r b pointer
      have few := (List.subperm_of_subset distinct subset).length_le
      exact Nat.le_trans few (by decide)
  have resolved := claim yesHost (fun _ => rfl) shared 8 (rounds yesHost 3) (fun _ _ => Nat.le_refl _) u run plenty t done
  have room : 2 ≤ u.isize yesHost := by
    rw [isize]
    decide
  have alone := (wp_ok (pass3_honest room _) done).single resolved
  have same := (alone 1 2 _ _ 5 (points 1 (by decide)) (points 2 (by decide))).1
  cases same

end Passes
