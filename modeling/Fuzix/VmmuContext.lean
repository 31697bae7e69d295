import Fuzix.VmmuLists

/-!
# The context switch of the flat memory manager

`vmmu_setcontext` puts each block of a list at its virtual address. The blocks at those places
go to where the others came from, with the virtual address that a block had there before.
-/

set_option linter.unusedSectionVars false

namespace Vmmu

open Table Fuel Dll

variable [Machine] {B : Type} {s t : Map B} {l xs ys : List Nat} {L L' : Nat → List Nat} {a b k list here o fuel : Nat}

/-- What a process finds at its virtual addresses. -/
def View (s : Map B) (l : List Nat) (va : Nat) (c : B) : Prop := ∃ b ∈ l, s.vaddr b = va ∧ s.data (blktoadd b) = c

/-- Every block of the list is at its virtual address, every process sees what it saw before,
the lists are as long as before, and each block is on the list of its owner. -/
structure Restored (s t : Map B) (L : Nat → List Nat) (list : Nat) (L' : Nat → List Nat) : Prop where
  lists : Lists t L'
  mapped : ∀ b ∈ L' list, mapped t b
  view : ∀ k va c, View t (L' k) va c ↔ View s (L k) va c
  length : ∀ k, (L' k).length = (L k).length

/-- The virtual addresses of a list are distinct addresses of the pool. -/
structure Addressed (s : Map B) (l : List Nat) : Prop where
  pool : ∀ b ∈ l, ∃ o < nblks, s.vaddr b = blktoadd o
  distinct : ∀ a ∈ l, ∀ b ∈ l, s.vaddr a = s.vaddr b → a = b

/-- The block at the virtual address of a block has that address as its own. -/
def Settled (s : Map B) (l : List Nat) : Prop := ∀ b ∈ l, ¬ mapped s b → mapped s (addtoblk (s.vaddr b))

theorem addtoblk_blktoadd (m : Nat) : addtoblk (blktoadd m) = m := by
  unfold addtoblk blktoadd
  rw [Nat.add_sub_cancel_left, Nat.mul_div_cancel _ Machine.whole]

theorem blktoadd_injective (same : blktoadd a = blktoadd b) : a = b := by
  rw [← addtoblk_blktoadd a, same, addtoblk_blktoadd]

/-! ## The virtual addresses stay -/

theorem assign_vaddr (k d n : Nat) (first : Option Nat) (s : Map B) : (assign k d n first s).2.vaddr = s.vaddr := by
  induction n generalizing first s with
  | zero => cases first <;> rfl
  | succ n ih =>
    cases first with
    | none => rfl
    | some b => exact ih _ _

theorem place_vaddr {n : Node} {first num : Nat} (done : place fuel n first num s = some t) : t.vaddr = s.vaddr := by
  induction fuel generalizing n first num s with
  | zero => cases done
  | succ fuel ih =>
    rw [place] at done
    cases next : s.next n with
    | none =>
      rw [next] at done
      injection done with same
      rw [← same]
      rfl
    | some nlink =>
      rw [next] at done
      dsimp only at done
      split at done
      · exact ih done
      · split at done
        · obtain ⟨out, _, rest⟩ := Option.bind_eq_some_iff.mp done
          split at rest
          · injection rest with same
            rw [← same]
            rfl
          · obtain ⟨_, _, last⟩ := Option.bind_eq_some_iff.mp rest
            exact (ih last).trans rfl
        · cases done

theorem moveblks_vaddr {d first num : Nat} (done : moveblks fuel k d first num s = some t) : t.vaddr = s.vaddr := by
  unfold moveblks at done
  split at done
  · injection done with same
    rw [same]
  · rw [place_vaddr done, (detach_fields _ _ _).1, assign_vaddr]

theorem walk_vaddr {place : Option Nat} (done : walk list fuel place s = some t) : t.vaddr = s.vaddr := by
  induction fuel generalizing place s with
  | zero =>
    cases place with
    | none =>
      injection done with same
      rw [same]
    | some b => cases done
  | succ fuel ih =>
    cases place with
    | none =>
      injection done with same
      rw [same]
    | some b =>
      rw [walk] at done
      split at done
      · exact ih done
      · obtain ⟨u, swapped, rest⟩ := Option.bind_eq_some_iff.mp done
        obtain ⟨v, first, second⟩ := Option.bind_eq_some_iff.mp swapped
        rw [ih rest, moveblks_vaddr second, moveblks_vaddr first]
        rfl

/-- What is restored has been settled before. -/
theorem Restored.settled (restored : Restored s t L list L') (kept : t.vaddr = s.vaddr) : Settled s (L list) := by
  intro b member _
  obtain ⟨x, inside, place, _⟩ := (restored.view list _ _).mpr ⟨b, member, rfl, rfl⟩
  have own : t.vaddr x = blktoadd x := restored.mapped x inside
  have here : addtoblk (s.vaddr b) = x := by rw [← place, own, addtoblk_blktoadd]
  show s.vaddr (addtoblk (s.vaddr b)) = blktoadd (addtoblk (s.vaddr b))
  rw [here, ← kept, own]

/-! ## One exchange -/

/-- What the exchange of two blocks of different owners leaves. -/
structure Exchanged (s t : Map B) (here o : Nat) : Prop where
  vaddr : t.vaddr = s.vaddr
  first : t.data (blktoadd here) = s.data (blktoadd o)
  second : t.data (blktoadd o) = s.data (blktoadd here)
  data : ∀ b, b ≠ here → b ≠ o → t.data (blktoadd b) = s.data (blktoadd b)

/-- The lists after the exchange. -/
def swapped (L : Nat → List Nat) (list h here o : Nat) : Nat → List Nat := moved (moved L list h here) h list o

theorem swapped_list (other : list ≠ k) : swapped L list k here o list = ((L list).erase here).orderedInsert (· ≤ ·) o := by
  unfold swapped moved
  rw [put_same, put_ne _ _ other, put_same]

theorem swapped_owner (other : list ≠ k) : swapped L list k here o k = ((L k).orderedInsert (· ≤ ·) here).erase o := by
  unfold swapped moved
  rw [put_ne _ _ (Ne.symm other), put_same, put_same]

theorem swapped_others {j : Nat} (notList : j ≠ list) (notOwner : j ≠ k) : swapped L list k here o j = L j := by
  unfold swapped moved
  rw [put_ne _ _ notList, put_ne _ _ notOwner, put_ne _ _ notOwner, put_ne _ _ notList]

/-- The block at the address is another one of another owner. -/
theorem Lists.owner (lists : Lists s L) (addressed : Addressed s (L list)) (member : here ∈ L list) (away : ¬ mapped s here)
    (place : s.vaddr here = blktoadd o) (pool : o < nblks) (settled : mapped s o) :
    list ≠ s.home o ∧ o ∈ L (s.home o) ∧ o ≠ here := by
  have other : o ≠ here := fun same => away (same ▸ settled)
  have owned : o ∈ L (s.home o) := (lists.home o _).mpr ⟨pool, rfl⟩
  refine ⟨fun same => other ?_, owned, other⟩
  have inside : o ∈ L list := same ▸ owned
  exact addressed.distinct o inside here member (settled.trans place.symm)

theorem exchange_returns (lists : Lists s L) (member : here ∈ L list) (place : s.vaddr here = blktoadd o)
    (other : list ≠ s.home o) (owned : o ∈ L (s.home o)) (distinct : o ≠ here) :
    ∃ t, (∀ fuel, (L (s.home o)).length + 1 < fuel → (L list).length < fuel → exchange fuel list here s = some t) ∧
      Lists t (swapped L list (s.home o) here o) ∧ Exchanged s t here o := by
  let u := fast_swap_block (blktoadd here) (s.vaddr here) s
  have listsU : Lists u L := ⟨lists.links, lists.sorted, lists.home⟩
  obtain ⟨v, doneV, listsV, vaddrV, dataV, homeV⟩ := moveblks_one listsU member other
  have ownerV : v.home o = s.home o := by
    rw [homeV, put_ne _ _ distinct]
    rfl
  have ownedV : o ∈ moved L list (s.home o) here (s.home o) := by
    unfold moved
    rw [put_same]
    exact (List.mem_orderedInsert _).mpr (Or.inr owned)
  obtain ⟨t, doneT, listsT, vaddrT, dataT, _⟩ := moveblks_one listsV ownedV (Ne.symm other)
  have swap : t.data = put (put s.data (blktoadd here) (s.data (blktoadd o))) (blktoadd o) (s.data (blktoadd here)) := by
    rw [dataT, dataV]
    show put (put s.data (blktoadd here) (s.data (s.vaddr here))) (s.vaddr here) (s.data (blktoadd here)) = _
    rw [place]
  have apart : blktoadd here ≠ blktoadd o := fun same => distinct (blktoadd_injective same).symm
  refine ⟨t, fun fuel enough enough' => ?_, listsT, ⟨vaddrT.trans vaddrV, ?_, ?_, fun b notHere notO => ?_⟩⟩
  · have nonempty : 0 < (L list).length := List.length_pos_of_mem member
    have shorter : (moved L list (s.home o) here list).length + 1 < fuel := by
      unfold moved
      rw [put_ne _ _ other, put_same, List.length_erase_of_mem member]
      omega
    have first : moveblks fuel list (u.home o) here 1 u = some v := doneV fuel enough
    have second : moveblks fuel (v.home o) list o 1 v = some t := by
      rw [ownerV]
      exact doneT fuel shorter
    show (moveblks fuel list (u.home (addtoblk (u.vaddr here))) here 1 u).bind
      (fun w => moveblks fuel (w.home (addtoblk (u.vaddr here))) list (addtoblk (u.vaddr here)) 1 w) = _
    have block : addtoblk (u.vaddr here) = o := by
      rw [show u.vaddr here = s.vaddr here from rfl, place, addtoblk_blktoadd]
    rw [block, first]
    exact second
  · rw [swap, put_ne _ _ apart, put_same]
  · rw [swap, put_same]
  · have awayO : blktoadd b ≠ blktoadd o := fun same => notO (blktoadd_injective same)
    have awayHere : blktoadd b ≠ blktoadd here := fun same => notHere (blktoadd_injective same)
    rw [swap, put_ne _ _ awayO, put_ne _ _ awayHere]

/-- The list has `b` for `a`, which holds for the same virtual address what `a` held. -/
theorem view_replaced (old : a ∈ xs) (new : b ∉ xs) (members : ∀ c, c ∈ ys ↔ c = b ∨ c ∈ xs ∧ c ≠ a)
    (vaddr : t.vaddr = s.vaddr) (place : s.vaddr b = s.vaddr a) (data : t.data (blktoadd b) = s.data (blktoadd a))
    (others : ∀ c, c ≠ a → c ≠ b → t.data (blktoadd c) = s.data (blktoadd c)) (va : Nat) (c : B) :
    View t ys va c ↔ View s xs va c := by
  constructor
  · rintro ⟨x, inside, here, there⟩
    rw [vaddr] at here
    rcases (members x).mp inside with same | ⟨kept, notA⟩
    · rw [same] at here there
      exact ⟨a, old, place.symm.trans here, data.symm.trans there⟩
    · rw [others x notA fun same => new (same ▸ kept)] at there
      exact ⟨x, kept, here, there⟩
  · rintro ⟨x, inside, here, there⟩
    by_cases same : x = a
    · rw [same] at here there
      refine ⟨b, (members b).mpr (Or.inl rfl), ?_, data.trans there⟩
      rw [vaddr]
      exact place.trans here
    · refine ⟨x, (members x).mpr (Or.inr ⟨inside, same⟩), ?_, ?_⟩
      · rw [vaddr]
        exact here
      · rw [others x same fun isNew => new (isNew ▸ inside)]
        exact there

section Step
variable (lists : Lists s L) (member : here ∈ L list) (other : list ≠ k) (owned : o ∈ L k)
include lists member other owned

theorem mem_swapped_list (c : Nat) : c ∈ swapped L list k here o list ↔ c = o ∨ c ∈ L list ∧ c ≠ here := by
  rw [swapped_list other, List.mem_orderedInsert, (lists.nodup list).mem_erase_iff]
  tauto

theorem mem_swapped_owner (c : Nat) : c ∈ swapped L list k here o k ↔ c = here ∨ c ∈ L k ∧ c ≠ o := by
  have absent : here ∉ L k := lists.apart (Ne.symm other) member
  have distinct : here ≠ o := fun same => absent (same ▸ owned)
  have nodup : ((L k).orderedInsert (· ≤ ·) here).Nodup :=
    (sorted_insert (lists.sorted k) absent).imp fun less => Nat.ne_of_lt less
  rw [swapped_owner other, nodup.mem_erase_iff, List.mem_orderedInsert]
  constructor
  · rintro ⟨notO, isHere | old⟩
    · exact Or.inl isHere
    · exact Or.inr ⟨old, notO⟩
  · rintro (isHere | ⟨old, notO⟩)
    · exact ⟨isHere ▸ distinct, Or.inl isHere⟩
    · exact ⟨notO, Or.inr old⟩

theorem swapped_length (j : Nat) : (swapped L list k here o j).length = (L j).length := by
  by_cases isList : j = list
  · rw [isList, swapped_list other, List.orderedInsert_length, List.length_erase_of_mem member]
    have nonempty := List.length_pos_of_mem member
    omega
  · by_cases isOwner : j = k
    · rw [isOwner, swapped_owner other, List.length_erase_of_mem ((List.mem_orderedInsert _).mpr (Or.inr owned)),
        List.orderedInsert_length]
      rfl
    · rw [swapped_others isList isOwner]

/-- Every process sees what it saw before. -/
theorem exchange_view (exchanged : Exchanged s t here o) (place : s.vaddr here = blktoadd o) (settled : mapped s o)
    (va : Nat) (c : B) (j : Nat) : View t (swapped L list k here o j) va c ↔ View s (L j) va c := by
  have own : s.vaddr o = s.vaddr here := Eq.trans settled place.symm
  have absentO : o ∉ L list := lists.apart other owned
  have absentHere : here ∉ L k := lists.apart (Ne.symm other) member
  by_cases isList : j = list
  · rw [isList]
    exact view_replaced member absentO (mem_swapped_list lists member other owned) exchanged.vaddr own
      exchanged.second exchanged.data va c
  · by_cases isOwner : j = k
    · rw [isOwner]
      exact view_replaced owned absentHere (mem_swapped_owner lists member other owned) exchanged.vaddr own.symm
        exchanged.first (fun c notO notHere => exchanged.data c notHere notO) va c
    · rw [swapped_others isList isOwner]
      have kept : ∀ b ∈ L j, t.data (blktoadd b) = s.data (blktoadd b) := by
        intro b inside
        refine exchanged.data b (fun same => ?_) fun same => ?_
        · exact lists.apart isList member (same ▸ inside)
        · exact lists.apart isOwner owned (same ▸ inside)
      constructor
      · rintro ⟨b, inside, here', there⟩
        exact ⟨b, inside, exchanged.vaddr ▸ here', kept b inside ▸ there⟩
      · rintro ⟨b, inside, here', there⟩
        exact ⟨b, inside, exchanged.vaddr ▸ here', (kept b inside).trans there⟩

end Step

/-! ## The walk -/

/-- A block put into a list comes before or behind the place where the walk goes on. -/
theorem insert_split (sorted : (xs ++ ys).Pairwise (· < ·)) (p : Nat → Bool) (no : p o = false) :
    ∃ xs' ys', (xs ++ ys).orderedInsert (· ≤ ·) o = xs' ++ ys' ∧ ys'.head? = ys.head? ∧
      (∀ b ∈ xs', b = o ∨ b ∈ xs) ∧ ys'.length ≤ ys.length + 1 ∧ ys'.countP p = ys.countP p := by
  cases ys with
  | nil =>
    refine ⟨xs.orderedInsert (· ≤ ·) o, [], ?_, rfl, fun b => (List.mem_orderedInsert _).mp, by simp, rfl⟩
    rw [List.append_nil, List.append_nil]
  | cons c ys =>
    by_cases less : o ≤ c
    · refine ⟨xs.orderedInsert (· ≤ ·) o, c :: ys, ?_, rfl, fun b => (List.mem_orderedInsert _).mp, by simp, rfl⟩
      induction xs with
      | nil => simp [less]
      | cons a xs ih =>
        have rest := ih (List.pairwise_cons.mp sorted).2
        by_cases first : o ≤ a
        · simp [first]
        · rw [List.cons_append, List.orderedInsert_of_not_le _ _ first, rest, List.orderedInsert_of_not_le _ _ first]
          rfl
    · refine ⟨xs, c :: ys.orderedInsert (· ≤ ·) o, ?_, rfl, fun b => Or.inr, ?_, ?_⟩
      · induction xs with
        | nil => simp [less]
        | cons a xs ih =>
          obtain ⟨above, later⟩ := List.pairwise_cons.mp sorted
          have gap := above c (by simp)
          rw [List.cons_append, List.orderedInsert_of_not_le _ _ (by omega), ih later]
          rfl
      · simp [List.orderedInsert_length]
      · rw [List.countP_cons, List.countP_cons, (List.perm_orderedInsert _ o ys).countP_eq, List.countP_cons, no]
        rfl

theorem Lists.length_le (lists : Lists s L) (k : Nat) : (L k).length ≤ nblks := by
  have inside : L k ⊆ List.range nblks := by
    intro b member
    exact List.mem_range.mpr ((lists.home b k).mp member).1
  have short := (List.subperm_of_subset (lists.nodup k) inside).length_le
  rwa [List.length_range] at short

/-- The exchange leaves a list of which the same can be said. -/
theorem Exchanged.kept (exchanged : Exchanged s t here o) (addressed : Addressed s xs) (settled : Settled s xs)
    (member : here ∈ xs) (place : s.vaddr here = blktoadd o) (pool : o < nblks) (own : mapped s o)
    (members : ∀ c ∈ ys, c = o ∨ c ∈ xs ∧ c ≠ here) : Addressed t ys ∧ Settled t ys := by
  have same : s.vaddr o = s.vaddr here := Eq.trans own place.symm
  have apart : ∀ b ∈ xs, b ≠ here → s.vaddr b ≠ s.vaddr o := by
    intro b inside notHere equal
    exact notHere (addressed.distinct b inside here member (equal.trans same))
  refine ⟨⟨fun b inside => ?_, fun a insideA b insideB equal => ?_⟩, fun b inside away => ?_⟩
  · rw [exchanged.vaddr]
    rcases members b inside with isNew | ⟨old, _⟩
    · exact ⟨o, pool, isNew ▸ own⟩
    · exact addressed.pool b old
  · rw [exchanged.vaddr] at equal
    rcases members a insideA with newA | ⟨oldA, otherA⟩
    · rcases members b insideB with newB | ⟨oldB, otherB⟩
      · exact newA.trans newB.symm
      · rw [newA] at equal
        exact absurd equal.symm (apart b oldB otherB)
    · rcases members b insideB with newB | ⟨oldB, otherB⟩
      · rw [newB] at equal
        exact absurd equal (apart a oldA otherA)
      · exact addressed.distinct a oldA b oldB equal
  · unfold mapped at away ⊢
    rw [exchanged.vaddr] at away ⊢
    rcases members b inside with isNew | ⟨old, _⟩
    · exact absurd (isNew ▸ own) away
    · exact settled b old away

/-- What is still to do: a block that is not in its place may bring another one. -/
def work (s : Map B) (l : List Nat) : Nat := l.length + l.countP fun b => decide (¬ mapped s b)

theorem walk_done (list fuel : Nat) (s : Map B) : walk list fuel none s = some s := by
  cases fuel <;> rfl

theorem restored_done (lists : Lists s L) (whole : L list = xs ++ []) (behind : ∀ b ∈ xs, mapped s b) :
    Restored s s L list L := by
  refine ⟨lists, fun b member => behind b ?_, fun _ _ _ => Iff.rfl, fun _ => rfl⟩
  rw [whole, List.append_nil] at member
  exact member

theorem work_cons (s : Map B) (b : Nat) (l : List Nat) :
    work s (b :: l) = work s l + 1 + if mapped s b then 0 else 1 := by
  unfold work
  rw [List.length_cons, List.countP_cons]
  by_cases home : mapped s b
  · simp [home]
    omega
  · simp [home]
    omega

/-- The walk over `ys`, the blocks before being in their places. -/
theorem walk_restores (n : Nat) (lists : Lists s L) (whole : L list = xs ++ ys) (behind : ∀ b ∈ xs, mapped s b)
    (addressed : Addressed s (L list)) (settled : Settled s (L list)) (enough : work s ys ≤ n) :
    ∃ t L', (∀ fuel, n + nblks + 1 < fuel → walk list fuel ys.head? s = some t) ∧ Restored s t L list L' := by
  induction n generalizing s L xs ys with
  | zero =>
    have nothing : ys = [] := by
      apply List.eq_nil_of_length_eq_zero
      unfold work at enough
      omega
    rw [nothing] at whole ⊢
    exact ⟨s, L, fun fuel _ => walk_done list fuel s, restored_done lists whole behind⟩
  | succ n ih =>
    cases ys with
    | nil => exact ⟨s, L, fun fuel _ => walk_done list fuel s, restored_done lists whole behind⟩
    | cons here post =>
      have links := lists.links list
      rw [whole] at links
      have next : s.next (.blk here) = post.head? := links.behind.head
      rw [work_cons] at enough
      by_cases home : mapped s here
      · rw [if_pos home] at enough
        have longer : ∀ b ∈ xs ++ [here], mapped s b := by
          intro b member
          rcases List.mem_append.mp member with before | last
          · exact behind b before
          · exact List.mem_singleton.mp last ▸ home
        have split : L list = (xs ++ [here]) ++ post := by
          rw [whole, List.append_assoc]
          rfl
        obtain ⟨t, L', done, restored⟩ := ih lists split longer addressed settled (by omega)
        refine ⟨t, L', fun fuel big => ?_, restored⟩
        obtain ⟨fuel, rfl⟩ := Nat.exists_eq_succ_of_ne_zero (Nat.ne_of_gt (Nat.zero_lt_of_lt big))
        rw [List.head?_cons, walk, if_pos home, next]
        exact done fuel (by omega)
      · rw [if_neg home] at enough
        have member : here ∈ L list := by
          rw [whole]
          exact List.mem_append_right _ List.mem_cons_self
        obtain ⟨o, pool, place⟩ := addressed.pool here member
        have own : mapped s o := by
          have block := settled here member home
          rwa [place, addtoblk_blktoadd] at block
        obtain ⟨other, owned, distinct⟩ := lists.owner addressed member home place pool own
        obtain ⟨t₁, exchanges, lists₁, exchanged⟩ := exchange_returns lists member place other owned distinct
        have sorted : (xs ++ post).Pairwise (· < ·) := by
          have all := lists.sorted list
          rw [whole] at all
          exact all.sublist ((List.sublist_cons_self here post).append_left xs)
        have unmapped : decide (¬ mapped s o) = false := decide_eq_false fun away => away own
        obtain ⟨xs', ys', split, head, members, short, count⟩ := insert_split (o := o) sorted (fun b => decide (¬ mapped s b)) unmapped
        have vaddr : ∀ b, mapped t₁ b ↔ mapped s b := by
          intro b
          unfold mapped
          rw [exchanged.vaddr]
        have fresh : here ∉ xs := fun inside => home (behind here inside)
        have list₁ : swapped L list (s.home o) here o list = xs' ++ ys' := by
          rw [swapped_list other, whole, List.erase_append_right _ fresh, List.erase_cons_head, split]
        have placed : ∀ b ∈ xs', mapped t₁ b := by
          intro b inside
          rcases members b inside with isNew | old
          · exact (vaddr b).mpr (isNew ▸ own)
          · exact (vaddr b).mpr (behind b old)
        obtain ⟨addressed₁, settled₁⟩ := exchanged.kept addressed settled member place pool own
          fun c => (mem_swapped_list lists member other owned c).mp
        have less : work t₁ ys' ≤ n := by
          have same : (fun b => decide (¬ mapped t₁ b)) = fun b => decide (¬ mapped s b) := by
            funext b
            rw [decide_eq_decide, vaddr]
          unfold work at enough ⊢
          rw [same, count]
          omega
        obtain ⟨t, L', done, restored⟩ := ih lists₁ list₁ placed addressed₁ settled₁ less
        refine ⟨t, L', fun fuel big => ?_, restored.lists, restored.mapped, fun j va c => ?_, fun j => ?_⟩
        · obtain ⟨fuel, rfl⟩ := Nat.exists_eq_succ_of_ne_zero (Nat.ne_of_gt (Nat.zero_lt_of_lt big))
          have ownerShort := lists.length_le (s.home o)
          have listShort := lists.length_le list
          rw [List.head?_cons, walk, if_neg home, next, exchanges fuel (by omega) (by omega), ← head]
          exact done fuel (by omega)
        · exact (restored.view j va c).trans
            (exchange_view lists member other owned exchanged place own va c j)
        · exact (restored.length j).trans (swapped_length lists member other owned j)

/-- `vmmu_setcontext` restores the mapping if and only if each block that has to move goes to
a place whose block has that place as its virtual address. -/
theorem setcontext_restores (lists : Lists s L) (addressed : Addressed s (L list)) :
    (∃ t L', Returns (fun fuel => vmmu_setcontext fuel list s) t ∧ Restored s t L list L') ↔ Settled s (L list) := by
  constructor
  · rintro ⟨t, L', ⟨least, returns⟩, restored⟩
    have kept : t.vaddr = s.vaddr := walk_vaddr (returns least (Nat.le_refl least))
    exact restored.settled kept
  · intro settled
    have whole : L list = [] ++ L list := rfl
    obtain ⟨t, L', done, restored⟩ := walk_restores (work s (L list)) lists whole (fun b no => by cases no)
      addressed settled (Nat.le_refl _)
    refine ⟨t, L', ⟨work s (L list) + nblks + 2, fun fuel enough => ?_⟩, restored⟩
    show walk list fuel (s.next (.head list)) s = some t
    rw [(lists.links list).head]
    exact done fuel (by omega)

/-! ## Three blocks -/

omit [Machine] in
theorem three_blocks (va : Nat → Nat) (distinct : ∀ b < 3, va b < 3) : ∃ (_ : Machine) (s : Map Nat) (L : Nat → List Nat),
    Lists s L ∧ L 0 = [2] ∧ L 1 = [1] ∧ L 2 = [0] ∧ (∀ k, Addressed s (L k)) ∧ ∀ b, s.vaddr b = blktoadd (va b) := by
  let machine : Machine := { membase := 65536, MMU_BLKSIZE := 8192, nblks := 3, whole := by decide }
  let L : Nat → List Nat := fun k => if k < 3 then [2 - k] else []
  let s : Map Nat :=
    { next := fun n => n.casesOn (fun k => (L k).head?) (fun _ => none)
      prev := fun b => .head (2 - b)
      vaddr := fun b => blktoadd (va b)
      home := fun b => 2 - b
      gap := fun _ => 0
      freemem := 8192
      data := fun p => p }
  have members : ∀ b k, b ∈ L k ↔ k < 3 ∧ b = 2 - k := by
    intro b k
    by_cases small : k < 3
    · simp [L, small]
    · simp [L, small]
  refine ⟨machine, s, L, ⟨fun k => ?_, fun k => ?_, fun b k => ?_⟩, rfl, rfl, rfl, fun k => ⟨fun b member => ?_, ?_⟩,
    fun _ => rfl⟩
  · by_cases small : k < 3
    · have one : L k = [2 - k] := if_pos small
      rw [one]
      refine ⟨congrArg List.head? one, ?_, rfl⟩
      show Node.head (2 - (2 - k)) = Node.head k
      congr 1
      omega
    · have none : L k = [] := if_neg small
      rw [none]
      exact congrArg List.head? none
  · by_cases small : k < 3
    · have one : L k = [2 - k] := if_pos small
      rw [one]
      exact List.pairwise_singleton _ _
    · have none : L k = [] := if_neg small
      rw [none]
      exact List.Pairwise.nil
  · rw [members]
    show _ ↔ b < 3 ∧ 2 - b = k
    omega
  · have small := (members b k).mp member
    exact ⟨va b, distinct b (by omega), rfl⟩
  · intro a ha b hb _
    rw [((members a k).mp ha).2, ((members b k).mp hb).2]

omit [Machine] in
/-- The block 1 goes to its place, where the block 0 was, which belongs there as well. -/
theorem setcontext_restores_copy : ∃ (_ : Machine) (s : Map Nat) (L : Nat → List Nat), ¬ mapped s 1 ∧
    ∃ t L', Returns (fun fuel => vmmu_setcontext fuel 1 s) t ∧ Restored s t L 1 L' := by
  obtain ⟨machine, s, L, lists, _, list, _, addressed, vaddr⟩ :=
    three_blocks (fun b => if b = 1 then 0 else b) (by decide)
  have settled : Settled s (L 1) := by
    intro b member _
    rw [list] at member
    rw [List.mem_singleton.mp member, vaddr 1, addtoblk_blktoadd]
    exact vaddr 0
  refine ⟨machine, s, L, fun here => ?_, (setcontext_restores lists (addressed 1)).mpr settled⟩
  have same := blktoadd_injective ((vaddr 1).symm.trans here)
  cases same

omit [Machine] in
/-- The block 1 has to go where the block 0 is, which has the place of the block 2 as its address. -/
theorem setcontext_mixes : ∃ (_ : Machine) (s : Map Nat) (L : Nat → List Nat), Lists s L ∧ (∀ k, Addressed s (L k)) ∧
    ¬ ∃ t L', Returns (fun fuel => vmmu_setcontext fuel 1 s) t ∧ Restored s t L 1 L' := by
  obtain ⟨machine, s, L, lists, _, list, _, addressed, vaddr⟩ :=
    three_blocks (fun b => if b = 1 then 0 else 2) (by decide)
  refine ⟨machine, s, L, lists, addressed, ?_⟩
  rintro ⟨t, L', ⟨least, returns⟩, restored⟩
  have kept : t.vaddr = s.vaddr := walk_vaddr (returns least (Nat.le_refl least))
  have member : 1 ∈ L 1 := by
    rw [list]
    exact List.mem_singleton.mpr rfl
  have away : ¬ mapped s 1 := by
    intro here
    have same := blktoadd_injective ((vaddr 1).symm.trans here)
    cases same
  have own := restored.settled kept 1 member away
  rw [vaddr 1, addtoblk_blktoadd] at own
  have same := blktoadd_injective ((vaddr 0).symm.trans own)
  cases same

end Vmmu
