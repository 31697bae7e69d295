import Fuzix.Passes

/-!
# Which loops of fsck end

Every loop over a bound that its counter can reach ends within 65537 rounds, and `ckdir` is
never called more than `MAXDEPTH` deep. What is left are the loops whose bound lies beyond
their counter.
-/

namespace Passes

open Table Image Wp Counter
open Devio (IntWidth)
open Fsck (Dinode Direct MAXDEPTH)

section
variable (h : Host)

/-- `8 * (isize - 2)` -/
def limit (isize : Nat) : Nat :=
  match h.width with
  | .int16 => 8 * (isize + 65534) % 65536
  | .int32 => 8 * (isize - 2)

/-- The counter of the loop cannot get past its bound. -/
def Wide (isize : Nat) : Loop → Prop
  | .inodes => 65536 ≤ limit h isize
  | .blocks size => 65535 ≤ size / 512
  | .freelist => isize = 0
  | .entries size => 65536 ≤ nentries h size
  | .slots size => 65536 ≤ size / 32
  | .nesting => False

/-- The tests of a loop that is not wide, at most, and the calls of `ckdir` within each other. -/
def rounds (isize : Nat) : Loop → Nat
  | .inodes => limit h isize + 1
  | .blocks size => size / 512 + 2
  | .freelist => 65537
  | .entries size => nentries h size + 1
  | .slots size => size / 32 + 1
  | .nesting => MAXDEPTH

/-- Fuel that lasts for every loop that is not wide. -/
def Enough (isize : Nat) (fuel : Loop → Nat) : Prop := ∀ l, ¬ Wide h isize l → rounds h isize l ≤ fuel l

/-- A run that stops does not stop in a loop that is not wide. -/
def Ended (isize : Nat) (e : Exit) : Prop := ∀ l, e = .hang l → Wide h isize l

/-- From every state with so many inode blocks the program ends, but for its wide loops. -/
def Ends {α : Type} (isize : Nat) (m : F α) : Prop :=
  ∀ s : State, s.isize h = isize → wp (Ended h isize) m (fun _ t => t.isize h = isize) s

end

section
variable {h : Host} {isize : Nat} {α β : Type}

/-! ## How programs are put together -/

theorem Ends.pure (a : α) : Ends h isize (pure a) := fun _ same => same

theorem Ends.bind {m : F α} {f : α → F β} (first : Ends h isize m) (rest : ∀ a, Ends h isize (f a)) :
    Ends h isize (m >>= f) := by
  intro s same
  rw [wp_bind]
  exact wp_mono (first s same) (fun a t kept => rest a t kept)

theorem Ends.get {f : State → F β} (rest : ∀ s, s.isize h = isize → Ends h isize (f s)) :
    Ends h isize (get >>= f) := by
  intro s same
  rw [wp_bind, wp_get]
  exact rest s same s same

theorem Ends.modify {f : State → State} (kept : ∀ s, (f s).sb.s_isize = s.sb.s_isize) :
    Ends h isize (modify f) := by
  intro s same
  rw [wp_modify]
  unfold State.isize at same ⊢
  rw [kept, same]

theorem Ends.set {t : State} (same : t.isize h = isize) : Ends h isize (set t : F PUnit) := by
  intro s _
  rw [wp_set]
  exact same

theorem Ends.throw {e : Exit} (ended : Ended h isize e) : Ends h isize (throw e : F α) :=
  fun _ _ => ended

theorem Ends.ite {c : Prop} [Decidable c] {m n : F α} (yes : Ends h isize m) (no : Ends h isize n) :
    Ends h isize (if c then m else n) := by
  by_cases hc : c
  · rw [if_pos hc]
    exact yes
  · rw [if_neg hc]
    exact no

theorem Ends.discard {m : F α} (ends : Ends h isize m) : Ends h isize (discard m) := by
  intro s same
  rw [wp_discard]
  exact ends s same

theorem ended_exit : Ended h isize .exit := fun _ no => by cases no

theorem ended_panic : Ended h isize .panic := fun _ no => by cases no

theorem ended_stray : Ended h isize .stray := fun _ no => by cases no

/-- A loop up to a bound ends, unless its counter cannot reach the bound. -/
theorem Ends.count {l : Loop} {bound fuel : Nat} {body : Nat → α → F α} {a : α} {i : Nat}
    (wide : 65536 ≤ bound → Wide h isize l) (enough : bound < 65536 → bound < fuel)
    (round : ∀ i a, Ends h isize (body i a)) (low : i < 65536) :
    Ends h isize (Counter.count (.hang l) (fun i => decide (i < bound)) (up 65536) body fuel i a) := by
  intro s same
  by_cases reach : bound < 65536
  · have some := enough reach
    by_cases inside : i ≤ bound
    · have lasts : bound < i + fuel := by omega
      exact wp_up (I := fun _ _ t => t.isize h = isize) reach lasts inside same
        (fun i a t _ kept => round i a t kept)
    · obtain ⟨more, rfl⟩ : ∃ more, fuel = more + 1 := ⟨fuel - 1, by omega⟩
      have past : ¬ i < bound := by omega
      unfold Counter.count
      rw [if_neg (by simpa using past)]
      exact same
  · have spent : Ended h isize (.hang l) := by
      intro l' same
      injection same with same
      exact same ▸ wide (by omega)
    exact wp_count (I := fun _ t => t.isize h = isize) spent same fun i a t kept => round i a t kept

/-! ## Memory and disk -/

theorem daread_ends (b : Nat) : Ends h isize (daread b) :=
  Ends.get fun _ _ => Ends.ite (Ends.pure _) (Ends.throw ended_exit)

theorem dwrite_ends (b : Nat) (words : Nat → Nat) : Ends h isize (dwrite h b words) :=
  Ends.get fun _ same => Ends.ite (Ends.set same) (Ends.throw ended_exit)

theorem iread_ends (n : Nat) : Ends h isize (iread n) := Ends.bind (daread_ends _) fun _ => Ends.pure _

theorem iwrite_ends (n : Nat) (ino : Dinode) : Ends h isize (iwrite h n ino) :=
  Ends.bind (daread_ends _) fun _ => dwrite_ends _ _

theorem yes_ends : Ends h isize (yes h) :=
  Ends.get fun _ same => Ends.bind (Ends.set same) fun _ => Ends.pure _

theorem yes_noerror_ends : Ends h isize (yes_noerror h) :=
  Ends.get fun _ same => Ends.bind (Ends.set same) fun _ => Ends.pure _

theorem bitset_ends (b : Nat) : Ends h isize (bitset h b) :=
  Ends.get fun _ same => Ends.ite (Ends.set same) (Ends.throw ended_stray)

theorem bitclear_ends (b : Nat) : Ends h isize (bitclear h b) :=
  Ends.get fun _ same => Ends.ite (Ends.set same) (Ends.throw ended_stray)

theorem bittest_ends (b : Nat) : Ends h isize (bittest h b) :=
  Ends.get fun _ _ => Ends.ite (Ends.pure _) (Ends.throw ended_stray)

theorem linkOf_ends (n : Nat) : Ends h isize (linkOf h n) :=
  Ends.get fun _ _ => Ends.ite (Ends.pure _) (Ends.throw ended_stray)

theorem setLink_ends (n : Nat) (v : Int) : Ends h isize (setLink h n v) :=
  Ends.get fun _ same => Ends.ite (Ends.set same) (Ends.throw ended_stray)

theorem swizzle_ends (v : Nat) : Ends h isize (swizzle h v) := by
  unfold swizzle
  cases swizzle16 h.width h.swizzling v with
  | none => exact Ends.throw ended_exit
  | some w => exact Ends.pure w

theorem writeSuper_ends : Ends h isize (writeSuper h) := Ends.get fun _ _ => dwrite_ends _ _

theorem readAll_ends (bs : List Nat) : Ends h isize (readAll bs) := by
  induction bs with
  | nil => exact Ends.pure _
  | cons b bs ih => exact Ends.bind (Ends.discard (daread_ends b)) fun _ => ih

theorem writeAll_ends (disk : Disk) (bs : List Nat) : Ends h isize (writeAll h disk bs) := by
  induction bs with
  | nil => exact Ends.pure _
  | cons b bs ih => exact Ends.bind (dwrite_ends b _) fun _ => ih

theorem getblkno_ends (ino : Dinode) (num : Nat) : Ends h isize (getblkno h ino num) :=
  Ends.get fun _ _ => Ends.bind (readAll_ends _) fun _ => Ends.pure _

theorem putblkno_ends (ino : Dinode) (num dnum : Nat) : Ends h isize (putblkno h ino num dnum) := by
  apply Ends.get
  intro s same
  cases Fsck.setblkno h.swizzling s.disk ino num dnum with
  | error e => exact Ends.throw ended_panic
  | ok u => exact Ends.bind (readAll_ends _) fun _ => Ends.bind (writeAll_ends _ _) fun _ => Ends.pure _

/-! ## Passes 1 to 3 -/

theorem zapAddr_ends (n b : Nat) (bad : Prop) [Decidable bad] (ino : Dinode) :
    Ends h isize (zapAddr h n b bad ino) :=
  Ends.ite (Ends.bind yes_ends fun _ =>
    Ends.ite (Ends.bind (iwrite_ends n _) fun _ => Ends.pure _) (Ends.pure _)) (Ends.pure _)

theorem markIf_ends (test : Prop) [Decidable test] (b : Nat) : Ends h isize (markIf h test b) :=
  Ends.ite (bitset_ends b) (Ends.pure _)

theorem single_ends (n b : Nat) (ino : Dinode) : Ends h isize (single h n b ino) :=
  Ends.get fun _ _ => Ends.bind (zapAddr_ends n b _ ino) fun _ => Ends.bind (zapAddr_ends n b _ _) fun _ =>
    Ends.bind (markIf_ends _ _) fun _ => Ends.pure _

theorem zapEntry_ends (b : Nat) (bad : Prop) [Decidable bad] (buf : Nat → Nat) :
    Ends h isize (zapEntry h b bad buf) :=
  Ends.ite (Ends.bind yes_ends fun _ =>
    Ends.ite (Ends.bind (dwrite_ends b _) fun _ => Ends.pure _) (Ends.pure _)) (Ends.pure _)

theorem double_ends (b : Nat) (buf : Nat → Nat) : Ends h isize (double h b buf) :=
  Ends.get fun _ _ => Ends.bind (zapEntry_ends b _ buf) fun _ => Ends.bind (markIf_ends _ _) fun _ => Ends.pure _

theorem doubles_ends (n : Nat) (buf : Nat → Nat) : Ends h isize (doubles h n buf) := by
  induction n with
  | zero => exact Ends.pure _
  | succ n ih => exact Ends.bind ih fun _ => double_ends n _

theorem zapBlock_ends (n bno : Nat) (bad : Prop) [Decidable bad] (ino : Dinode) :
    Ends h isize (zapBlock h n bno bad ino) :=
  Ends.ite (Ends.bind yes_ends fun _ => Ends.ite (Ends.bind (putblkno_ends ino bno 0) fun _ =>
    Ends.bind (iwrite_ends n _) fun _ => Ends.pure _) (Ends.pure _)) (Ends.pure _)

theorem block1_ends (n bno : Nat) (ino : Dinode) : Ends h isize (block1 h n bno ino) :=
  Ends.bind (getblkno_ends ino bno) fun _ => Ends.get fun _ _ =>
    Ends.bind (zapBlock_ends n bno _ ino) fun _ => Ends.bind (markIf_ends _ _) fun _ => Ends.pure _

theorem blocks_ends {fuel : Loop → Nat} (enough : Enough h isize fuel) (size : Nat) {body : Nat → Dinode → F Dinode}
    (round : ∀ bno ino, Ends h isize (body bno ino)) (ino : Dinode) : Ends h isize (blocks fuel size body ino) :=
  Ends.count (l := .blocks size) (fun wide => Nat.le_of_succ_le_succ wide)
    (fun small => Nat.lt_of_succ_le (enough (.blocks size) (by show ¬ 65535 ≤ size / 512; omega))) round (by decide)

theorem inodesLoop_ends {fuel : Loop → Nat} (enough : Enough h isize fuel) {body : Nat → F Unit}
    (round : ∀ n, Ends h isize (body n)) : Ends h isize (inodesLoop h fuel body) := by
  apply Ends.get
  intro s same
  have bound : s.inodes h = limit h isize := congrArg (limit h) same
  rw [bound]
  exact Ends.count id (fun small => enough .inodes (Nat.not_le.mpr small)) (fun n _ => round n) (by decide)

theorem doubleIndirect_ends (ino : Dinode) : Ends h isize (doubleIndirect h ino) := by
  unfold doubleIndirect
  refine Ends.ite (Ends.bind (daread_ends _) ?_) (Ends.pure _)
  intro buf
  generalize 256 = k
  exact Ends.discard (doubles_ends k buf)

theorem inode1_ends {fuel : Loop → Nat} (enough : Enough h isize fuel) (n : Nat) : Ends h isize (inode1 h fuel n) := by
  have file : ∀ ino, Ends h isize (file1 h fuel n ino) := fun ino =>
    Ends.bind (single_ends n 18 ino) fun _ => Ends.bind (single_ends n 19 _) fun _ =>
      Ends.bind (doubleIndirect_ends _) fun _ => Ends.discard (blocks_ends enough _ (block1_ends n) _)
  have used : ∀ mode ino, Ends h isize (used1 h fuel n mode ino) := fun mode ino =>
    Ends.bind (setLink_ends n 0) fun _ => Ends.bind (Ends.modify fun _ => rfl) fun _ =>
      Ends.ite (file ino) (Ends.pure _)
  exact Ends.bind (iread_ends n) fun ino => Ends.bind (setLink_ends n (-1)) fun _ => Ends.ite (Ends.pure _)
    (Ends.ite (used _ ino) (Ends.bind yes_ends fun _ => Ends.ite (iwrite_ends n _) (used _ ino)))

theorem pass1_ends {fuel : Loop → Nat} (enough : Enough h isize fuel) : Ends h isize (pass1 h fuel) := by
  have count : Ends h isize (fixInodes h) := by
    refine Ends.get fun _ _ => Ends.ite (Ends.bind yes_ends fun _ => Ends.ite ?_ (Ends.pure _)) (Ends.pure _)
    exact Ends.bind (swizzle_ends _) fun _ => Ends.bind (Ends.modify fun _ => rfl) fun _ => writeSuper_ends
  exact Ends.bind (Ends.modify fun _ => rfl) fun _ =>
    Ends.bind (inodesLoop_ends enough (inode1_ends enough)) fun _ => count

theorem free2_ends (j : Nat) : Ends h isize (free2 h j) := by
  have full : Ends h isize (spill h j) := Ends.get fun _ _ =>
    Ends.ite (Ends.bind (dwrite_ends j _) fun _ => Ends.modify fun _ => rfl) (Ends.pure _)
  exact Ends.bind (bittest_ends j) fun _ => Ends.ite (Ends.pure _) (Ends.bind full fun _ =>
    Ends.get fun _ _ => Ends.bind (swizzle_ends _) fun _ => Ends.modify fun _ => rfl)

/-- The loop of pass 2 ends unless every number is at least `isize`. -/
theorem freelist_ends {fuel : Loop → Nat} (enough : Enough h isize fuel) : Ends h isize (freelist h fuel) := by
  apply Ends.get
  intro s same t kept
  rw [same]
  have first : less16 (s.fsize h) < 65536 := Nat.mod_lt _ (by decide)
  generalize less16 (s.fsize h) = j at first
  by_cases zero : isize = 0
  · have spent : Ended h isize (.hang .freelist) := by
      intro l same
      injection same with same
      exact same ▸ zero
    exact wp_count (I := fun _ u => u.isize h = isize) spent kept fun j _ u same => free2_ends j u same
  · have positive : 0 < isize := by omega
    have some : 65537 ≤ fuel .freelist := enough .freelist zero
    have lasts : j + 1 < isize + fuel .freelist := by omega
    refine wp_mono (wp_down (I := fun _ _ u => u.isize h = isize) positive first lasts (by omega) kept
      (fun j _ u _ _ same => free2_ends j u same)) ?_
    rintro _ u ⟨_, _, same⟩
    exact same

theorem pass2_ends {fuel : Loop → Nat} (enough : Enough h isize fuel) : Ends h isize (pass2 h fuel) := by
  refine Ends.bind yes_noerror_ends fun _ => Ends.ite (Ends.bind (Ends.modify fun _ => rfl) fun _ => ?_) (Ends.pure _)
  exact Ends.bind (freelist_ends enough) fun _ => writeSuper_ends

theorem take_ends (newno index : Nat) : Ends h isize (take h newno index) := by
  have refilled : Ends h isize (refill newno index) :=
    Ends.ite (Ends.bind (daread_ends newno) fun _ => Ends.modify fun _ => rfl) (Ends.pure _)
  have counted : ∀ v, Ends h isize (swizzle h v) := swizzle_ends
  refine Ends.bind (Ends.modify fun _ => rfl) fun _ => Ends.bind refilled fun _ => Ends.get fun s _ => ?_
  generalize less32 (swap h s.sb.s_tfree) = v
  refine Ends.bind (counted v) fun _ => Ends.bind (Ends.modify fun _ => rfl) fun _ => ?_
  exact Ends.ite (Ends.pure _) (Ends.bind writeSuper_ends fun _ => Ends.pure _)

theorem alloc_ends : Ends h isize (alloc h) := by
  have empty : ∀ index, Ends h isize (exhausted h index) := fun _ =>
    Ends.bind (swizzle_ends _) fun _ => Ends.bind (Ends.modify fun _ => rfl) fun _ => Ends.pure _
  apply Ends.get
  intro s same
  generalize less32 (swap h s.sb.s_nfree) = v
  refine Ends.bind (swizzle_ends v) fun nfree => ?_
  generalize less16 nfree = index
  exact Ends.ite (Ends.throw ended_stray) (Ends.ite (empty index) (take_ends _ index))

theorem blk_alloc0_ends : Ends h isize (blk_alloc0 h) :=
  Ends.get fun _ _ => Ends.bind alloc_ends fun _ => Ends.bind (Ends.modify fun _ => rfl) fun _ => Ends.pure _

theorem unfix_ends : Ends h isize unfix := Ends.modify fun _ => rfl

theorem single3_ends (n b : Nat) (ino : Dinode) : Ends h isize (single3 h n b ino) := by
  refine Ends.ite (Ends.pure _) (Ends.bind (bittest_ends _) fun dup => Ends.ite ?_ ?_)
  · refine Ends.bind yes_ends fun _ => Ends.ite (Ends.bind blk_alloc0_ends fun newno => Ends.ite ?_ ?_) (Ends.pure _)
    · exact Ends.bind unfix_ends fun _ => Ends.pure _
    · exact Ends.bind (daread_ends _) fun _ => Ends.bind (dwrite_ends _ _) fun _ =>
        Ends.bind (iwrite_ends n _) fun _ => Ends.pure _
  · exact Ends.bind (bitset_ends _) fun _ => Ends.pure _

theorem block3_ends (n bno : Nat) (ino : Dinode) : Ends h isize (block3 h n bno ino) := by
  refine Ends.bind (getblkno_ends ino bno) fun b => Ends.ite (Ends.pure _) ?_
  refine Ends.bind (bittest_ends b) fun dup => Ends.ite ?_ ?_
  · refine Ends.bind yes_ends fun _ => Ends.ite (Ends.bind blk_alloc0_ends fun newno => Ends.ite ?_ ?_) (Ends.pure _)
    · exact Ends.bind unfix_ends fun _ => Ends.pure _
    · exact Ends.bind (daread_ends _) fun _ => Ends.bind (dwrite_ends _ _) fun _ =>
        Ends.bind (putblkno_ends ino bno _) fun _ => Ends.bind (iwrite_ends n _) fun _ => Ends.pure _
  · exact Ends.bind (bitset_ends b) fun _ => Ends.pure _

theorem clearFrom_ends (b k : Nat) : Ends h isize (clearFrom h b k) := by
  induction k generalizing b with
  | zero => exact Ends.pure _
  | succ k ih => exact Ends.bind (bitclear_ends b) fun _ => ih (b + 1)

theorem pass3_ends {fuel : Loop → Nat} (enough : Enough h isize fuel) : Ends h isize (pass3 h fuel) := by
  have file : ∀ n ino, Ends h isize (file3 h fuel n ino) := fun n ino =>
    Ends.bind (single3_ends n 18 ino) fun _ => Ends.bind (single3_ends n 19 _) fun _ =>
      Ends.discard (blocks_ends enough _ (block3_ends n) _)
  have one : ∀ n, Ends h isize (inode3 h fuel n) := fun n =>
    Ends.bind (iread_ends n) fun ino => Ends.ite (file n ino) (Ends.pure _)
  exact Ends.get fun _ _ => Ends.bind (clearFrom_ends _ _) fun _ => inodesLoop_ends enough one

/-! ## Passes 4 and 5 -/

theorem dirread_ends (ino : Dinode) (j : Nat) : Ends h isize (dirread h ino j) :=
  Ends.bind (getblkno_ends ino _) fun _ => Ends.ite (Ends.throw ended_panic)
    (Ends.bind (daread_ends _) fun _ => Ends.pure _)

theorem dirwrite_ends (ino : Dinode) (j : Nat) (e : Direct) : Ends h isize (dirwrite h ino j e) :=
  Ends.bind (getblkno_ends ino _) fun _ => Ends.ite (Ends.throw ended_panic)
    (Ends.bind (daread_ends _) fun _ => dwrite_ends _ _)

theorem zap_ends (bad : Prop) [Decidable bad] (ino : Dinode) (j : Nat) (e : Direct) :
    Ends h isize (zap h bad ino j e) :=
  Ends.ite (Ends.bind yes_ends fun _ =>
    Ends.ite (Ends.bind (dirwrite_ends ino j _) fun _ => Ends.pure _) (Ends.pure _)) (Ends.pure _)

theorem point_ends (wrong : Prop) [Decidable wrong] (target : Nat) (ino : Dinode) (j : Nat) (e : Direct) :
    Ends h isize (point h wrong target ino j e) :=
  Ends.ite (Ends.bind yes_ends fun _ =>
    Ends.ite (Ends.bind (dirwrite_ends ino j _) fun _ => Ends.pure _) (Ends.pure _)) (Ends.pure _)

theorem slashes_ends (ino : Dinode) (j n c : Nat) (e : Direct) : Ends h isize (slashes h ino j n c e) := by
  induction n generalizing c e with
  | zero => exact Ends.pure _
  | succ n ih =>
    refine Ends.ite (Ends.pure _) (Ends.ite (Ends.bind yes_ends fun _ => Ends.ite ?_ (ih _ _)) (ih _ _))
    exact Ends.bind (dirwrite_ends ino j _) fun _ => ih _ _

/-- An entry ends if the walk down does. -/
theorem ckentry_ends {down : Option (Nat → F Unit)}
    (below : ∀ walk, down = some walk → ∀ child, Ends h isize (walk child)) (inum pnum : Nat) (ino : Dinode)
    (j : Nat) : Ends h isize (ckentry h down inum pnum ino j) := by
  have kept : ∀ e links, Ends h isize (keep h down inum pnum ino j e links) := by
    intro e links
    refine Ends.bind (setLink_ends _ _) fun _ => Ends.bind (slashes_ends ino j 30 0 e) fun _ =>
      Ends.bind (point_ends _ _ ino j _) fun _ => Ends.bind (point_ends _ _ ino j _) fun e => ?_
    cases down with
    | none => exact Ends.pure _
    | some walk => exact Ends.ite (below walk rfl _) (Ends.pure _)
  refine Ends.bind (dirread_ends ino j) fun _ => Ends.bind (dirwrite_ends ino j _) fun _ =>
    Ends.ite (Ends.pure _) (Ends.get fun _ _ => Ends.bind (zap_ends _ ino j _) fun _ => Ends.ite (Ends.pure _) ?_)
  exact Ends.bind (linkOf_ends _) fun links => Ends.bind (zap_ends _ ino j _) fun _ =>
    Ends.ite (Ends.pure _) (kept _ links)

theorem fixSize_ends (inum : Nat) (ino : Dinode) : Ends h isize (fixSize h inum ino) :=
  Ends.ite (Ends.bind yes_ends fun _ =>
    Ends.ite (Ends.bind (iwrite_ends inum _) fun _ => Ends.pure _) (Ends.pure _)) (Ends.pure _)

/-- `ckdir` calls itself at most `MAXDEPTH` deep. -/
theorem ckdir_ends {fuel : Loop → Nat} (enough : Enough h isize fuel) {calls depth : Nat}
    (deep : MAXDEPTH ≤ depth + calls)
    (some : 0 < calls) (inum pnum : Nat) : Ends h isize (ckdir h fuel calls depth inum pnum) := by
  induction calls generalizing depth inum pnum with
  | zero => omega
  | succ calls ih =>
    refine Ends.bind (iread_ends inum) fun ino => Ends.ite (Ends.pure _) (Ends.bind (fixSize_ends inum ino) fun ino => ?_)
    refine Ends.count id (fun small => enough (.entries _) (Nat.not_le.mpr small)) (fun j _ => ?_) (by decide)
    refine ckentry_ends ?_ inum pnum ino j
    intro walk found child
    by_cases more : depth + 1 < MAXDEPTH
    · rw [if_pos more] at found
      injection found with same
      subst same
      exact ih (by omega) (by omega) child inum
    · rw [if_neg more] at found
      cases found

theorem pass4_ends {fuel : Loop → Nat} (enough : Enough h isize fuel) : Ends h isize (pass4 h fuel) := by
  have deep : MAXDEPTH ≤ fuel .nesting := enough .nesting id
  have positive : 0 < MAXDEPTH := by decide
  exact Ends.bind (setLink_ends _ _) fun _ => ckdir_ends enough (by omega) (by omega) _ _

theorem slots_ends {fuel : Nat} (inum size : Nat) (rootino : Dinode) (d : Nat)
    (enough : size / 32 < 65536 → size / 32 < d + fuel) (less : d ≤ size / 32) : Ends h isize (slots h inum size rootino fuel d) := by
  by_cases wide : 65536 ≤ size / 32
  · have spent : Ended h isize (.hang (.slots size)) := by
      intro l same
      injection same with same
      exact same ▸ wide
    have any : ∀ fuel d, Ends h isize (slots h inum size rootino fuel d) := by
      intro fuel
      induction fuel with
      | zero => exact fun _ => Ends.throw spent
      | succ fuel ih =>
        intro d
        exact Ends.ite (Ends.bind (dirread_ends rootino d) fun _ =>
          Ends.ite (dirwrite_ends rootino d _) (ih _)) unfix_ends
    exact any fuel d
  · induction fuel generalizing d with
    | zero => omega
    | succ fuel ih =>
      unfold slots
      by_cases more : d < size / 32
      · have next : up 65536 d = d + 1 := Nat.mod_eq_of_lt (by omega)
        rw [if_pos more, next]
        exact Ends.bind (dirread_ends rootino d) fun _ =>
          Ends.ite (dirwrite_ends rootino d _) (ih (d + 1) (by omega) (by omega))
      · rw [if_neg more]
        exact unfix_ends

theorem pass5_ends {fuel : Loop → Nat} (enough : Enough h isize fuel) : Ends h isize (pass5 h fuel) := by
  have entry : ∀ n, Ends h isize (mkentry h fuel n) := fun n =>
    Ends.bind (iread_ends _) fun rootino => slots_ends n _ rootino 0
      (fun small => Nat.lt_of_lt_of_le (enough (.slots _) (Nat.not_le.mpr small)) (by omega)) (Nat.zero_le _)
  have clear : ∀ n ino, Ends h isize (clearInode h n ino) := fun n ino =>
    Ends.bind (iwrite_ends n _) fun _ => Ends.get fun _ _ => Ends.bind (swizzle_ends _) fun _ =>
      Ends.bind (Ends.modify fun _ => rfl) fun _ => writeSuper_ends
  have links : ∀ n l ino, Ends h isize (fixLinks h n l ino) := fun n l ino =>
    Ends.ite (Ends.bind yes_ends fun _ => Ends.ite (iwrite_ends n _) (Ends.pure _)) (Ends.pure _)
  have lost : ∀ n ino, Ends h isize (detached h fuel n ino) := fun n ino =>
    Ends.bind yes_ends fun _ => Ends.ite (Ends.ite (clear n ino)
      (Ends.bind (iwrite_ends n _) fun _ => entry n)) (Ends.pure _)
  refine inodesLoop_ends enough fun n => Ends.bind (iread_ends n) fun ino => Ends.bind (linkOf_ends n) fun l => ?_
  refine Ends.ite (Ends.ite (Ends.throw ended_panic) (Ends.pure _)) (Ends.ite (Ends.throw ended_panic) ?_)
  exact Ends.bind (links n l ino) fun _ => Ends.ite (lost n ino) (Ends.pure _)

theorem fsck_ends {fuel : Loop → Nat} (enough : Enough h isize fuel) : Ends h isize (fsck h fuel) :=
  Ends.bind (pass1_ends enough) fun _ => Ends.bind (pass2_ends enough) fun _ =>
    Ends.bind (pass3_ends enough) fun _ => Ends.bind (pass4_ends enough) fun _ => pass5_ends enough

end

end Passes
