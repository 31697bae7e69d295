import Fuzix.PassesEnd

/-!
# The runs of fsck

A run does not depend on its fuel once no loop has used it up. So an image is checked to the end
unless a loop is started that is wide, which then does not leave through its test.
-/

namespace Passes

open Table Image Wp Counter
open Fuzix (ROOTINODE)
open Fsck (Dinode MAXDEPTH)

/-- Stopped for want of fuel. -/
def Hung (e : Exit) : Prop := ∃ l, e = .hang l

section
variable {h : Host} {fuel more : Loop → Nat}

/-! ## More fuel -/

theorem blocks_settles (less : ∀ l, fuel l ≤ more l) (size : Nat) {body : Nat → Dinode → F Dinode} (ino : Dinode) :
    Settles Hung (blocks fuel size body ino) (blocks more size body ino) :=
  Settles.count ⟨_, rfl⟩ (less _) (fun _ _ => Settles.refl _) _ ino

theorem inodesLoop_settles (less : ∀ l, fuel l ≤ more l) {body body' : Nat → F Unit}
    (round : ∀ n, Settles Hung (body n) (body' n)) : Settles Hung (inodesLoop h fuel body) (inodesLoop h more body') :=
  Settles.bind (Settles.refl _) fun _ => Settles.count ⟨_, rfl⟩ (less _) (fun n _ => round n) _ ()

theorem inode1_settles (less : ∀ l, fuel l ≤ more l) (n : Nat) :
    Settles Hung (inode1 h fuel n) (inode1 h more n) := by
  have file : ∀ ino, Settles Hung (file1 h fuel n ino) (file1 h more n ino) := fun ino =>
    Settles.bind (Settles.refl _) fun _ => Settles.bind (Settles.refl _) fun _ =>
      Settles.bind (Settles.refl _) fun _ => Settles.discard (blocks_settles less _ _)
  have used : ∀ mode ino, Settles Hung (used1 h fuel n mode ino) (used1 h more n mode ino) := fun mode ino =>
    Settles.bind (Settles.refl _) fun _ => Settles.bind (Settles.refl _) fun _ =>
      Settles.ite (file ino) (Settles.refl _)
  exact Settles.bind (Settles.refl _) fun ino => Settles.bind (Settles.refl _) fun _ =>
    Settles.ite (Settles.refl _) (Settles.ite (used _ ino) (Settles.bind (Settles.refl _) fun _ =>
      Settles.ite (Settles.refl _) (used _ ino)))

theorem pass1_settles (less : ∀ l, fuel l ≤ more l) : Settles Hung (pass1 h fuel) (pass1 h more) :=
  Settles.bind (Settles.refl _) fun _ =>
    Settles.bind (inodesLoop_settles less (inode1_settles less)) fun _ => Settles.refl _

theorem pass2_settles (less : ∀ l, fuel l ≤ more l) : Settles Hung (pass2 h fuel) (pass2 h more) := by
  have list : Settles Hung (freelist h fuel) (freelist h more) := Settles.bind (Settles.refl _) fun _ =>
    Settles.count ⟨_, rfl⟩ (less _) (fun _ _ => Settles.refl _) _ ()
  exact Settles.bind (Settles.refl _) fun _ => Settles.ite (Settles.bind (Settles.refl _) fun _ =>
    Settles.bind list fun _ => Settles.refl _) (Settles.refl _)

theorem pass3_settles (less : ∀ l, fuel l ≤ more l) : Settles Hung (pass3 h fuel) (pass3 h more) := by
  have file : ∀ n ino, Settles Hung (file3 h fuel n ino) (file3 h more n ino) := fun n ino =>
    Settles.bind (Settles.refl _) fun _ => Settles.bind (Settles.refl _) fun _ =>
      Settles.discard (blocks_settles less _ _)
  have one : ∀ n, Settles Hung (inode3 h fuel n) (inode3 h more n) := fun n =>
    Settles.bind (Settles.refl _) fun ino => Settles.ite (file n ino) (Settles.refl _)
  exact Settles.bind (Settles.refl _) fun _ => Settles.bind (Settles.refl _) fun _ => inodesLoop_settles less one

theorem ckentry_settles {walk walk' : Nat → F Unit} (below : ∀ child, Settles Hung (walk child) (walk' child))
    (inum pnum : Nat) (ino : Dinode) (j : Nat) :
    Settles Hung (ckentry h (some walk) inum pnum ino j) (ckentry h (some walk') inum pnum ino j) := by
  have kept : ∀ e links, Settles Hung (keep h (some walk) inum pnum ino j e links)
      (keep h (some walk') inum pnum ino j e links) := fun e links =>
    Settles.bind (Settles.refl _) fun _ => Settles.bind (Settles.refl _) fun _ =>
      Settles.bind (Settles.refl _) fun _ => Settles.bind (Settles.refl _) fun e =>
        Settles.ite (below _) (Settles.refl _)
  refine Settles.bind (Settles.refl _) fun _ => Settles.bind (Settles.refl _) fun _ =>
    Settles.ite (Settles.refl _) (Settles.bind (Settles.refl _) fun _ => Settles.bind (Settles.refl _) fun _ => ?_)
  exact Settles.ite (Settles.refl _) (Settles.bind (Settles.refl _) fun links =>
    Settles.bind (Settles.refl _) fun _ => Settles.ite (Settles.refl _) (kept _ links))

theorem ckdir_settles (less : ∀ l, fuel l ≤ more l) {calls calls' : Nat} (deep : calls ≤ calls')
    (depth inum pnum : Nat) :
    Settles Hung (ckdir h fuel calls depth inum pnum) (ckdir h more calls' depth inum pnum) := by
  induction calls generalizing calls' depth inum pnum with
  | zero => exact Settles.throw ⟨_, rfl⟩ _
  | succ calls ih =>
    obtain ⟨rest, rfl⟩ : ∃ rest, calls' = rest + 1 := ⟨calls' - 1, by omega⟩
    refine Settles.bind (Settles.refl _) fun ino => Settles.ite (Settles.refl _)
      (Settles.bind (Settles.refl _) fun ino => Settles.count ⟨_, rfl⟩ (less _) ?_ _ ())
    intro j _
    by_cases further : depth + 1 < MAXDEPTH
    · rw [if_pos further, if_pos further]
      exact ckentry_settles (fun child => ih (by omega) (depth + 1) child inum) inum pnum ino j
    · rw [if_neg further, if_neg further]
      exact Settles.refl _

theorem slots_settles (inum size : Nat) (rootino : Dinode) {fuel more : Nat} (less : fuel ≤ more) (d : Nat) :
    Settles Hung (slots h inum size rootino fuel d) (slots h inum size rootino more d) := by
  induction fuel generalizing more d with
  | zero => exact Settles.throw ⟨_, rfl⟩ _
  | succ fuel ih =>
    obtain ⟨rest, rfl⟩ : ∃ rest, more = rest + 1 := ⟨more - 1, by omega⟩
    exact Settles.ite (Settles.bind (Settles.refl _) fun e =>
      Settles.ite (Settles.refl _) (ih (by omega) _)) (Settles.refl _)

theorem pass5_settles (less : ∀ l, fuel l ≤ more l) : Settles Hung (pass5 h fuel) (pass5 h more) := by
  have entry : ∀ n, Settles Hung (mkentry h fuel n) (mkentry h more n) := fun n =>
    Settles.bind (Settles.refl _) fun rootino => slots_settles n _ rootino (less _) 0
  have lost : ∀ n ino, Settles Hung (detached h fuel n ino) (detached h more n ino) := fun n ino =>
    Settles.bind (Settles.refl _) fun _ => Settles.ite (Settles.ite (Settles.refl _)
      (Settles.bind (Settles.refl _) fun _ => entry n)) (Settles.refl _)
  refine inodesLoop_settles less fun n => Settles.bind (Settles.refl _) fun ino =>
    Settles.bind (Settles.refl _) fun links => ?_
  exact Settles.ite (Settles.refl _) (Settles.ite (Settles.refl _) (Settles.bind (Settles.refl _) fun _ =>
    Settles.ite (lost n ino) (Settles.refl _)))

theorem fsck_settles (less : ∀ l, fuel l ≤ more l) : Settles Hung (fsck h fuel) (fsck h more) :=
  Settles.bind (pass1_settles less) fun _ => Settles.bind (pass2_settles less) fun _ =>
    Settles.bind (pass3_settles less) fun _ => Settles.bind (Settles.bind (Settles.refl _) fun _ =>
      ckdir_settles less (less _) _ _ _) fun _ => pass5_settles less

end

/-! ## Wide loops -/

section
variable (h : Host)

instance (isize : Nat) (l : Loop) : Decidable (Wide h isize l) := by
  cases l <;> unfold Wide <;> infer_instance

/-- The test of a loop at a value of its counter. -/
def goes (isize : Nat) : Loop → Nat → Bool
  | .inodes, n => decide (n < limit h isize)
  | .blocks size, bno => decide (bno < size / 512 + 1)
  | .freelist, j => decide (isize ≤ j)
  | .entries size, j => decide (j < nentries h size)
  | .slots size, d => decide (d < size / 32)
  | .nesting, _ => false

/-- The fuel that a run needs without wide loops: these get none. -/
def narrow (isize : Nat) (l : Loop) : Nat := if Wide h isize l then 0 else rounds h isize l

/-- No wide loop is ever started. -/
def Spared (s : State) : Prop :=
  ∀ l, Wide h (s.isize h) l → fsck h (narrow h (s.isize h)) s ≠ .error (.hang l)

end

section
variable {h : Host} {isize : Nat} {σ α : Type}

/-- A loop is wide if no value of its counter fails its test. -/
theorem wide_iff (l : Loop) : Wide h isize l ↔ ∀ i < 65536, goes h isize l i = true := by
  cases l <;> simp only [Wide, goes, decide_eq_true_eq]
  case nesting => simpa using ⟨0, by decide⟩
  case freelist =>
    constructor
    · intro zero i _
      omega
    · intro every
      have first := every 0 (by decide)
      omega
  all_goals
    constructor
    · intro wide i inside
      omega
    · intro every
      have last := every 65535 (by decide)
      omega

/-- So it does not return, whatever its body does. -/
theorem wide_stays {l : Loop} (wide : Wide h isize l) {next : Nat → Nat} (stays : ∀ i < 65536, next i < 65536)
    {spent : Exit} {body : Nat → α → StateT σ (Except Exit) α} {fuel i : Nat} (inside : i < 65536) (a : α) (s : σ) :
    wp (fun _ => True) (count spent (goes h isize l) next body fuel i a) (fun _ _ => False) s :=
  wp_endless stays ((wide_iff l).mp wide) inside

theorem narrow_enough : Enough h isize (narrow h isize) := by
  intro l few
  exact Nat.le_of_eq (if_neg few).symm

theorem narrow_least {fuel : Loop → Nat} (enough : Enough h isize fuel) (l : Loop) : narrow h isize l ≤ fuel l := by
  unfold narrow
  by_cases wide : Wide h isize l
  · rw [if_pos wide]
    exact Nat.zero_le _
  · rw [if_neg wide]
    exact enough l wide

/-- A run that starts no wide loop is the same with all fuel that lasts for the others. -/
theorem spared_ends {s : State} (spared : Spared h s) :
    ∃ r, (∀ l, r ≠ .error (.hang l)) ∧ ∀ fuel, Enough h (s.isize h) fuel → fsck h fuel s = r := by
  have ended : ∀ l, fsck h (narrow h (s.isize h)) s ≠ .error (.hang l) := by
    intro l hung
    have wide : Wide h (s.isize h) l := wp_error (fsck_ends narrow_enough s rfl) hung l rfl
    exact spared l wide hung
  refine ⟨_, ended, ?_⟩
  intro fuel enough
  apply fsck_settles (narrow_least enough) s
  rintro e stopped ⟨l, rfl⟩
  exact ended l stopped

end

/-! ## Images -/

/-- Every image that starts no wide loop is checked to the end. -/
theorem fsck_terminates (h : Host) (disk : Disk) (extent : Nat) (spared : Spared h (start disk extent)) :
    ∃ r, (∀ l, r ≠ .error (.hang l)) ∧
      ∀ fuel, Enough h ((start disk extent).isize h) fuel → fsck h fuel (start disk extent) = r :=
  spared_ends spared

/-- An empty root directory is checked with all answers yes. -/
theorem fsck_terminates_empty :
    let h : Host := ⟨.int32, false, fun _ => true, false⟩
    let disk : Disk := put₂ (put₂ (put₂ (put₂ (put₂ (fun _ _ => 0) 1 0 12742) 1 1 3) 1 2 8) 2 32 16877) 2 33 1
    ∃ r, (∀ l, r ≠ .error (.hang l)) ∧
      ∀ fuel, Enough h ((start disk 8).isize h) fuel → fsck h fuel (start disk 8) = r := by
  intro h disk
  apply fsck_terminates
  intro l _ stopped
  have returns : (fsck h (narrow h 3) (start disk 8)).toOption.isSome = true := by decide +kernel
  have isize : (start disk 8).isize h = 3 := by decide
  rw [isize] at stopped
  rw [stopped] at returns
  cases returns

/-- With 8194 inode blocks every number of an inode is less than 65536, so pass 1 goes round
the inodes for good, all of them unused. -/
theorem counter_wraps : ¬ ∀ (h : Host) (disk : Disk) (extent : Nat),
    ∃ fuel, ∀ l, fsck h fuel (start disk extent) ≠ .error (.hang l) := by
  intro claim
  let h : Host := ⟨.int32, false, fun _ => true, false⟩
  let disk : Disk := put₂ (put₂ (put₂ (fun _ _ => 0) 1 0 12742) 1 1 8194) 1 2 65535
  obtain ⟨fuel, ends⟩ := claim h disk 65535
  have empty : ∀ b k, 2 ≤ b → disk b k = 0 := by
    intro b k behind
    have other : b ≠ 1 := by omega
    simp [disk, put₂_apply, other]
  have unused : ∀ n s, n < 65536 ∧ s.disk = disk ∧ s.extent = 65535 ∧ s.isize h = 8194 →
      wp (fun _ => False) (inode1 h fuel n)
        (fun _ t => up 65536 n < 65536 ∧ t.disk = disk ∧ t.extent = 65535 ∧ t.isize h = 8194) s := by
    rintro n s ⟨inside, image, behind, isize⟩
    have block : n / 8 + 2 < 65535 := by omega
    have mode : disk (n / 8 + 2) (32 * (n % 8) + 0) = 0 := empty _ _ (by omega)
    have linked : inLinkmap h s n := by
      unfold inLinkmap
      rw [isize]
      show n < 65552
      omega
    have next : up 65536 n < 65536 := Nat.mod_lt _ (by decide)
    unfold inode1 iread daread setLink
    simp only [wp_bind, wp_get, wp_ite, wp_pure, wp_set, wp_throw, Dinode.i_mode, image, behind, mode]
    exact ⟨fun _ => ⟨fun _ => ⟨fun _ => ⟨next, True.intro, True.intro, isize⟩, fun no => (no True.intro).elim⟩,
      fun no => no linked⟩, fun no => no block⟩
  have hung : inodesLoop h fuel (inode1 h fuel) { start disk 65535 with icount := 0 } = .error (.hang .inodes) := by
    have bound : ({ start disk 65535 with icount := 0 } : State).inodes h = 65536 := by decide
    unfold inodesLoop
    rw [bind_run rfl, bound]
    refine endless_spent (I := fun n _ s => n < 65536 ∧ s.disk = disk ∧ s.extent = 65535 ∧ s.isize h = 8194)
      (fun n _ s start => decide_eq_true start.1) ⟨by decide, rfl, rfl, by decide⟩ ?_
    exact fun n _ s start => unused n s start
  have first : pass1 h fuel (start disk 65535) = .error (.hang .inodes) := by
    unfold pass1
    rw [bind_run rfl]
    exact bind_stop hung
  exact ends .inodes (bind_stop first)

end Passes
