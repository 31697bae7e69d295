import Fuzix.Lib.Run
import Fuzix.VmmuMoves

/-!
# The lists of blocks

Every block of the pool is on the list of its owner, and the lists are sorted. `moveblks` with
one block takes it from its list and puts it into another one at its place.
-/

namespace Vmmu

open Table Fuel Dll

variable [Machine] {B : Type} {s t : Map B} {n : Node} {l : List Nat} {L : Nat → List Nat} {b k d fuel : Nat}

structure Lists (s : Map B) (L : Nat → List Nat) : Prop where
  links : ∀ k, Links .blk s.next s.prev (.head k) (L k)
  sorted : ∀ k, (L k).Pairwise (· < ·)
  home : ∀ b k, b ∈ L k ↔ b < nblks ∧ s.home b = k

omit [Machine] in
theorem sorted_insert (sorted : l.Pairwise (· < ·)) (fresh : b ∉ l) :
    (l.orderedInsert (· ≤ ·) b).Pairwise (· < ·) := by
  induction l with
  | nil => exact List.pairwise_singleton _ _
  | cons c l ih =>
    obtain ⟨above, later⟩ := List.pairwise_cons.mp sorted
    have other : b ≠ c := fun same => fresh (same ▸ List.mem_cons_self)
    by_cases less : b ≤ c
    · rw [List.orderedInsert_cons_of_le _ _ less]
      refine List.pairwise_cons.mpr ⟨fun e member => ?_, sorted⟩
      rcases List.mem_cons.mp member with same | inside
      · omega
      · have gap := above e inside
        omega
    · rw [List.orderedInsert_of_not_le _ _ less]
      refine List.pairwise_cons.mpr ⟨fun e member => ?_, ih later fun no => fresh (List.mem_cons_of_mem c no)⟩
      rcases (List.mem_orderedInsert _).mp member with same | inside
      · omega
      · exact above e inside

/-- The lists after a block of `k` has gone to `d`. -/
def moved (L : Nat → List Nat) (k d b : Nat) : Nat → List Nat :=
  put (put L k ((L k).erase b)) d ((L d).orderedInsert (· ≤ ·) b)

theorem Lists.apart (lists : Lists s L) {j : Nat} (other : j ≠ k) (member : b ∈ L k) : b ∉ L j := by
  intro inside
  have left := ((lists.home b k).mp member).2
  have right := ((lists.home b j).mp inside).2
  omega

theorem Lists.nodup (lists : Lists s L) (k : Nat) : (L k).Nodup :=
  (lists.sorted k).imp fun less => Nat.ne_of_lt less

omit [Machine] in
/-- A sorted list that has gained a block. -/
theorem insert_unique {m : List Nat} (sorted : l.Pairwise (· < ·)) (fresh : b ∉ l) (sortedM : m.Pairwise (· < ·))
    (perm : m.Perm (l ++ [b])) : m = l.orderedInsert (· ≤ ·) b := by
  have same : m.Perm (l.orderedInsert (· ≤ ·) b) :=
    perm.trans (List.perm_append_comm.trans (List.perm_orderedInsert (· ≤ ·) b l).symm)
  refine same.eq_of_pairwise (fun a c _ _ less more => ?_) sortedM (sorted_insert sorted fresh)
  omega

theorem moveblks_one (lists : Lists s L) (member : b ∈ L k) (other : k ≠ d) :
    ∃ t, (∀ fuel, (L d).length + 1 < fuel → moveblks fuel k d b 1 s = some t) ∧ Lists t (moved L k d b) ∧
      t.vaddr = s.vaddr ∧ t.data = s.data ∧ t.home = put s.home b d := by
  obtain ⟨xs, ys, whole⟩ := List.append_of_mem member
  have links := lists.links k
  have sorted := lists.sorted k
  have nodup := lists.nodup k
  rw [whole] at links sorted nodup
  have fresh : b ∉ xs := fun no => (List.nodup_append.mp nodup).2.2 b no b List.mem_cons_self rfl
  have absent : b ∉ L d := lists.apart (Ne.symm other) member
  obtain ⟨t, m, done, spliced⟩ := @moveblks_run _ _ s xs ys (L d) [] k d b links (lists.links d) sorted (lists.sorted d)
    (fun c inside => lists.apart (Ne.symm other) (whole ▸ inside)) other
  have merged := insert_unique (lists.sorted d) absent spliced.sorted spliced.perm
  have left : (L k).erase b = xs ++ ys := by
    rw [whole, List.erase_append_right _ fresh, List.erase_cons_head]
  have homes : t.home = put s.home b d := by
    funext c
    rw [spliced.home]
    unfold put
    simp
  have movedK : moved L k d b k = (L k).erase b := by
    unfold moved
    rw [put_ne _ _ other, put_same]
  have movedD : moved L k d b d = (L d).orderedInsert (· ≤ ·) b := put_same _ _ _
  have movedJ : ∀ j, j ≠ k → j ≠ d → moved L k d b j = L j := by
    intro j notK notD
    unfold moved
    rw [put_ne _ _ notD, put_ne _ _ notK]
  have touched : ∀ c ∈ xs ++ [b] ++ ys ++ L d, c ∈ L k ∨ c ∈ L d := by
    intro c inside
    rcases List.mem_append.mp inside with source | dest
    · left
      rw [whole]
      simpa using source
    · exact Or.inr dest
  refine ⟨t, done, ⟨fun j => ?_, fun j => ?_, fun c j => ?_⟩, spliced.vaddr, spliced.data, homes⟩
  · by_cases toD : j = d
    · subst toD
      rw [movedD, ← merged]
      exact spliced.dest
    · by_cases fromK : j = k
      · subst fromK
        rw [movedK, left]
        exact spliced.source
      · rw [movedJ j fromK toD]
        have away : ∀ c ∈ L j, c ∉ xs ++ [b] ++ ys ++ L d := by
          intro c inside no
          rcases touched c no with source | dest
          · exact lists.apart fromK source inside
          · exact lists.apart toD dest inside
        refine (lists.links j).frame ?_ fun c inside => ⟨?_, ?_⟩
        · exact spliced.next _ (fun no => by injection no with no; exact fromK no)
            (fun no => by injection no with no; exact toD no) fun c _ no => by cases no
        · exact spliced.next _ (fun no => by cases no) (fun no => by cases no)
            fun e no same => away c inside (blk_injective same ▸ no)
        · exact spliced.prev c (away c inside)
  · by_cases toD : j = d
    · subst toD
      rw [movedD]
      exact sorted_insert (lists.sorted j) absent
    · by_cases fromK : j = k
      · subst fromK
        rw [movedK]
        exact (lists.sorted j).sublist List.erase_sublist
      · rw [movedJ j fromK toD]
        exact lists.sorted j
  · have old := lists.home c j
    have inPool := ((lists.home b k).mp member)
    rw [homes]
    by_cases toD : j = d
    · subst toD
      rw [movedD, List.mem_orderedInsert, old]
      by_cases same : c = b
      · subst same
        rw [put_same]
        simp [inPool.1]
      · rw [put_ne _ _ same]
        simp [same]
    · by_cases same : c = b
      · subst same
        rw [put_same]
        have gone : c ∉ moved L k d c j := by
          by_cases fromK : j = k
          · rw [fromK, movedK]
            exact (lists.nodup k).not_mem_erase
          · rw [movedJ j fromK toD]
            exact lists.apart fromK member
        constructor
        · exact fun inside => absurd inside gone
        · exact fun no => absurd no.2.symm toD
      · rw [put_ne _ _ same, ← old]
        by_cases fromK : j = k
        · rw [fromK, movedK, (lists.nodup k).mem_erase_iff]
          simp [same]
        · rw [movedJ j fromK toD]

/-- The list of an owner has its blocks in their order. -/
theorem Lists.owned (lists : Lists s L) (j : Nat) : L j = (List.range nblks).filter fun c => s.home c = j := by
  refine List.Perm.eq_of_pairwise (fun a c _ _ less more => ?_) (lists.sorted j) (List.pairwise_lt_range.filter _) ?_
  · omega
  · refine (List.perm_ext_iff_of_nodup (lists.nodup j) (List.nodup_range.filter _)).mpr fun c => ?_
    simp [lists.home]

/-- A block goes from its owner to another one. -/
def Gives (s : Map B) (m : Nat × Nat) (t : Map B) : Prop :=
  m.1 < nblks ∧ s.home m.1 ≠ m.2 ∧ Returns (fun fuel => moveblks fuel (s.home m.1) m.2 m.1 1 s) t

/-- Whatever blocks are given away, the lists are those that the owners alone determine. -/
theorem gives_refines {ms : List (Nat × Nat)} (lists : Lists s L) (run : Run.Steps Gives s ms t) :
    Lists t (fun j => (List.range nblks).filter fun c => t.home c = j) ∧
      t.home = ms.foldl (fun home m => put home m.1 m.2) s.home ∧ t.data = s.data ∧ t.vaddr = s.vaddr := by
  induction run with
  | nil => exact ⟨funext lists.owned ▸ lists, rfl, rfl, rfl⟩
  | snoc _ last ih =>
    obtain ⟨before, owners, data, vaddr⟩ := ih
    obtain ⟨small, other, done⟩ := last
    obtain ⟨u, returns, after, vaddr', data', home⟩ :=
      moveblks_one before ((before.home _ _).mpr ⟨small, rfl⟩) other
    have same := done.unique ⟨_, fun fuel enough => returns fuel enough⟩
    subst same
    exact ⟨funext after.owned ▸ after, by rw [List.foldl_append, ← owners, home]; rfl, data'.trans data,
      vaddr'.trans vaddr⟩

/-- A free block. -/
def single : Map Nat := { six with
  next := fun n => if n = .head 0 then some 0 else none
  prev := fun _ => .head 0
  home := fun _ => 0 }

omit [Machine] in
theorem gives_refines_single : ∃ (_ : Machine) (t : Map Nat), Run.Steps Gives single [(0, 1)] t ∧ t.home 0 = 1 := by
  let machine : Machine := { membase := 65536, MMU_BLKSIZE := 8192, nblks := 1, whole := by decide }
  have lists : Lists single fun k => if k = 0 then [0] else [] := by
    constructor
    · rintro (_ | k)
      · exact ⟨rfl, rfl, rfl⟩
      · rfl
    · rintro (_ | k) <;> simp
    · rintro b (_ | k) <;> simp [single, machine, nblks]
  obtain ⟨t, done, _⟩ := moveblks_one (d := 1) lists List.mem_cons_self Nat.zero_ne_one
  have run : Run.Steps Gives single [(0, 1)] t := .snoc (.nil _) ⟨Nat.one_pos, Nat.zero_ne_one, _, done⟩
  exact ⟨machine, t, run, by rw [(gives_refines lists run).2.1]; rfl⟩

end Vmmu
