import Fuzix.BankKept

/-!
# What moves pages between processes

A process that is made or comes back from swap takes pages from the stack, one that exits
gives them back, and `exec` changes their number. None of it disturbs what another process
has stored.
-/

set_option linter.unusedSectionVars false

namespace Bank16k

open Table Wp

section Machine
variable [Machine]

section Moves
variable {stop : Panic → Prop} {pool hand lost lost' : List Nat} {s t : State} {p n c : Nat} {q : Proc}

/-! ## Taking pages -/

theorem count_pop (enough : n ≤ s.pfptr) (x : Nat) :
    (freeList s).count x = (freeList (s.pop n)).count x + ((List.range n).map s.free).count x := by
  induction n with
  | zero => rfl
  | succ n ih =>
    have before := ih (by omega)
    have ptr : s.pfptr - n = s.pfptr - (n + 1) + 1 := by omega
    have last : freeList (s.pop n) = freeList (s.pop (n + 1)) ++ [s.free n] := by
      show (List.range (s.pfptr - n)).map s.pfree = _
      have place : s.pfptr - (n + 1) = s.pfptr - 1 - n := by omega
      rw [ptr, List.range_succ, List.map_append, place]
      show _ ++ [s.pfree (s.pfptr - 1 - n)] = (List.range (s.pfptr - (n + 1))).map s.pfree ++ _
      rw [place]
      rfl
    rw [last, List.count_append] at before
    rw [List.range_succ, List.map_append, List.count_append]
    show _ = _ + (_ + [s.free n].count x)
    omega

theorem free_mem (h : n < s.pfptr) : s.free n ∈ freeList s :=
  List.mem_map.mpr ⟨s.pfptr - 1 - n, List.mem_range.mpr (by omega), rfl⟩

theorem Kept.pop (kept : Kept pool hand lost s) (enough : 0 < s.pfptr) :
    Kept pool (s.free 0 :: hand) lost (s.pop 1) where
  unique := kept.unique
  size := kept.size
  proper := kept.proper
  pages := by
    intro x
    have before := kept.pages x
    have popped := count_pop (n := 1) enough x
    have one : ((List.range 1).map s.free).count x = [s.free 0].count x := rfl
    have two : (s.free 0 :: hand).count x = [s.free 0].count x + hand.count x := by
      show ([s.free 0] ++ hand).count x = _
      exact List.count_append
    show (freeList (s.pop 1)).count x + (s.free 0 :: hand).count x +
      total PTABSIZE (fun p => (held (s.ptab p)).count x) = _
    omega
  slots := kept.slots
  laid := kept.laid
  folded := kept.folded

/-- The hand when there is a common page `c` already. -/
def handOf (c : Nat) : List Nat := if c = 0 then [] else [c]

theorem held_mapFor {u : Proc} (map : u.page = s.mapFor p n c) (alive : u.resident)
    (need : mapsNeeded u.top = n + (handOf c).length) :
    held u = (List.range n).map s.free ++ handOf c := by
  have low : (List.range n).map (s.mapFor p n c) = (List.range n).map s.free := by
    apply List.map_congr_left
    intro i hi
    exact if_pos (List.mem_range.mp hi)
  have range := mapsNeeded_range u.top
  rw [held_resident alive, map, need]
  by_cases none : c = 0
  · have empty : handOf c = [] := if_pos none
    rw [empty, List.length_nil, Nat.add_zero, low, List.append_nil]
  · have one : handOf c = [c] := if_neg none
    rw [one, List.length_singleton] at need ⊢
    rw [List.range_succ, List.map_append, low]
    have last : s.mapFor p n c n = c := by
      unfold State.mapFor
      rw [if_neg (by omega), if_pos (by omega), if_neg none]
    rw [List.map_singleton, last]

/-- A process that has no pages gets a map. -/
theorem Kept.place (kept : Kept pool (handOf c) lost s) (hp : p < PTABSIZE)
    (enough : n ≤ s.pfptr) (out : ¬ (s.ptab p).resident) (alive : ¬ q.dead)
    (map : q.page = s.mapFor p n c) (need : mapsNeeded q.top = n + (handOf c).length)
    (entry : t.ptab = put s.ptab p q) (free : freeList t = freeList (s.pop n))
    (slots : slotList t = slotList s) (disk : t.swapdev = s.swapdev)
    (passed : ∀ x, lost'.count x ≤ lost.count x + (slotOf (s.ptab p)).count x) :
    Kept pool [] lost' t ∧ q.resident := by
  have range := mapsNeeded_range q.top
  have first : q.page 0 ∈ pool := by
    rw [map]
    unfold State.mapFor
    by_cases some : 0 < n
    · rw [if_pos some]
      exact kept.mem_pool (Or.inl (free_mem (by omega)))
    · have nonzero : c ≠ 0 := by
        intro zero
        have empty : handOf c = [] := if_pos zero
        rw [empty, List.length_nil] at need
        omega
      rw [if_neg some, if_pos (by decide), if_neg nonzero]
      refine kept.mem_pool (Or.inr (Or.inl ?_))
      unfold handOf
      rw [if_neg nonzero]
      exact List.mem_singleton_self c
  have there : ¬ q.noPage := by
    intro noPage
    have positive := (kept.proper _ first).1
    have zero := noPage.1
    omega
  have resident : q.resident := ⟨alive, there⟩
  refine ⟨?_, resident⟩
  refine kept.change hp entry ?_ ?_ ?_ (fun away => absurd away.2 there) ?_
  · intro x
    have popped := count_pop enough x
    rw [held_none out, free, held_mapFor map resident need, List.count_append, List.count_nil]
    omega
  · intro x
    have moved := passed x
    rw [slots, slotOf_none fun away => there away.2, List.count_nil]
    omega
  · intro _ i low high
    have more : ¬ i < n := by omega
    rw [map]
    unfold State.mapFor
    rw [if_neg more, if_pos high]
    by_cases zero : c = 0
    · have empty : handOf c = [] := if_pos zero
      rw [empty, List.length_nil] at need
      rw [if_pos zero, if_pos (by omega), need]
      rfl
    · have one : handOf c = [c] := if_neg zero
      rw [one, List.length_singleton] at need
      have last : ¬ mapsNeeded q.top - 1 < n := by omega
      rw [if_neg zero, if_neg last, if_pos (by omega)]
  · intro r _ _ _ x _
    unfold diskByte
    rw [disk]

/-! ## Giving pages back -/

/-- `pagemap_free` and a status that says so. -/
theorem Kept.release (kept : Kept pool [] lost s) (hp : p < PTABSIZE) (there : (s.ptab p).resident)
    (dead : q.dead) (entry : t.ptab = put s.ptab p q)
    (free : freeList t = freeList s ++ held (s.ptab p))
    (slots : slotList t = slotList s) (disk : t.swapdev = s.swapdev) : Kept pool [] lost t := by
  refine kept.change hp entry ?_ ?_ (fun r => absurd dead r.1) (fun a => absurd dead a.1) ?_
  · intro x
    rw [free, held_dead dead, List.count_append, List.count_nil]
    omega
  · intro x
    rw [slots, slotOf_dead dead, slotOf_none fun a => there.2 a.2]
  · intro r _ _ _ x _
    unfold diskByte
    rw [disk]

theorem wp_release (kept : Kept pool [] lost s) (hp : p < PTABSIZE) (there : (s.ptab p).resident)
    (Q : Unit → State → Prop) :
    wp stop (pagemapFree p) Q s ↔ Q () (s.push (held (s.ptab p))) := by
  have room := kept.room hp
  have same := kept.pagesOf_held hp there
  have small : s.pfptr + (freed (s.ptab p).page 4 0 NO_PAGE).length < 256 := by
    show s.pfptr + (s.pagesOf p).length < 256
    rw [same]
    omega
  rw [wp_pagemapFree Q small]
  show Q () (s.push (s.pagesOf p)) ↔ _
  rw [same]

/-! ## What others have stored -/

theorem page_lt {x : Nat} (h : swapped x) : x / PAGESIZE < 4 := by
  have below := swapped_lt h
  unfold PAGESIZE
  omega

/-- The image of a process whose map and slot are not written. -/
theorem image_same {x : Nat} (hx : swapped x)
    (disk : q.noPage → diskByte t q.page2 x = diskByte s q.page2 x)
    (mem : ¬ q.noPage → ∀ i, i < 4 → t.mem (q.page i) = s.mem (q.page i)) :
    image t q x = image s q x := by
  unfold image
  by_cases noPage : q.noPage
  · rw [if_pos noPage, if_pos noPage]
    exact disk noPage
  · rw [if_neg noPage, if_neg noPage, mem noPage _ (page_lt hx)]

/-- The image of a resident process does not change when only other pages are written. -/
theorem Kept.image_kept (kept : Kept pool hand lost s) (hp : p < PTABSIZE)
    (alive : ¬ (s.ptab p).dead) {x : Nat} (hx : swapped x) (disk : t.swapdev = s.swapdev)
    (mem : ∀ y, y ∈ held (s.ptab p) → t.mem y = s.mem y) :
    image t (s.ptab p) x = image s (s.ptab p) x := by
  refine image_same hx (fun _ => ?_) (fun there i hi => ?_)
  · unfold diskByte
    rw [disk]
  · exact mem _ (page_held ⟨alive, there⟩ (kept.laid p hp ⟨alive, there⟩) hi)

/-! ## Coming back from swap -/

/-- A process has come back, and others may have gone. -/
structure Arrived (p : Nat) (s t : State) : Prop where
  cur : t.cur = s.cur
  there : ¬ (t.ptab p).noPage
  status : ∀ r, (t.ptab r).status = (s.ptab r).status
  stay : ∀ r, r ≠ p → (s.ptab r).noPage → t.ptab r = s.ptab r
  image : ∀ r, r < PTABSIZE → ¬ (s.ptab r).dead → ∀ x, swapped x →
    image t (t.ptab r) x = image s (s.ptab r) x
  blocks : ∀ b o, t.swapdev b o ≠ s.swapdev b o → ∃ r, r < PTABSIZE ∧ (s.ptab r).resident ∧
    (t.ptab r).away ∧ (t.ptab r).page2 * SWAP_SIZE ≤ b ∧
    b < (t.ptab r).page2 * SWAP_SIZE + SWAP_SIZE

theorem Kept.mapFor_once (kept : Kept pool hand lost s) (hp : p < PTABSIZE)
    (there : (s.ptab p).resident) {i j : Nat} (hi : i < 4) (hj : j < 4)
    (same : (s.ptab p).page i = (s.ptab p).page j) :
    i = j ∨ mapsNeeded (s.ptab p).top - 1 ≤ i ∧ mapsNeeded (s.ptab p).top - 1 ≤ j := by
  have range := mapsNeeded_range (s.ptab p).top
  have laid := kept.laid p hp there
  have once := kept.held_once hp
  rw [held_resident there] at once
  have inj := List.inj_on_of_nodup_map once
  -- the place of a page among those that are held
  have place : ∀ k, k < 4 → ∃ m, m < mapsNeeded (s.ptab p).top ∧
      (s.ptab p).page k = (s.ptab p).page m ∧
      (m = k ∨ m = mapsNeeded (s.ptab p).top - 1 ∧ mapsNeeded (s.ptab p).top ≤ k) := by
    intro k hk
    by_cases low : k < mapsNeeded (s.ptab p).top
    · exact ⟨k, low, rfl, Or.inl rfl⟩
    · exact ⟨mapsNeeded (s.ptab p).top - 1, by omega, laid k (by omega) hk,
        Or.inr ⟨rfl, by omega⟩⟩
  obtain ⟨m, hm, left, mk⟩ := place i hi
  obtain ⟨m', hm', right, mk'⟩ := place j hj
  rw [left, right] at same
  have equal := inj (List.mem_range.mpr hm) (List.mem_range.mpr hm') same
  omega

/-- The banks that are read into a map give the image back. -/
theorem Kept.readBanks_image (kept : Kept pool hand lost s) (hp : p < PTABSIZE)
    (there : (s.ptab p).resident) {m x : Nat} (hx : swapped x)
    (folded : Folded (diskByte s m) (mapsNeeded (s.ptab p).top)) :
    s.readBanks (s.ptab p).page m ((s.ptab p).page (x / PAGESIZE)) (x % PAGESIZE) =
      diskByte s m x := by
  have split : x / PAGESIZE * PAGESIZE + x % PAGESIZE = x := by
    unfold PAGESIZE
    omega
  have offset : x % PAGESIZE < PAGESIZE := Nat.mod_lt _ (by decide)
  have inside : swapped (x / PAGESIZE * PAGESIZE + x % PAGESIZE) := by
    rw [split]
    exact hx
  obtain ⟨j, hj, same, inside', value⟩ :=
    readBanks_in (s := s) (s.ptab p).page m (page_lt hx) offset inside
  rw [value]
  rcases kept.mapFor_once hp there hj (page_lt hx) same with equal | ⟨low, low'⟩
  · rw [equal, split]
  · have fold := folded j (x / PAGESIZE) (x % PAGESIZE) low hj low' (page_lt hx) offset inside' inside
    rw [split] at fold
    exact fold

/-- `swapmap_add` when there is room for the slot. -/
def State.pushSlot (s : State) (m : Nat) : State :=
  { s with swapmap := put s.swapmap s.swapptr m, swapptr := s.swapptr + 1 }

theorem slotList_pushSlot (s : State) (m : Nat) : slotList (s.pushSlot m) = slotList s ++ [m] := by
  have below : (List.range s.swapptr).map (put s.swapmap s.swapptr m) = slotList s := by
    apply List.map_congr_left
    intro k hk
    have less := List.mem_range.mp hk
    exact put_ne _ _ (by omega)
  show (List.range (s.swapptr + 1)).map (put s.swapmap s.swapptr m) = _
  rw [List.range_succ, List.map_append, below, List.map_singleton, put_same]

theorem Kept.pushSlot {m : Nat} (kept : Kept pool hand (m :: lost) s) :
    Kept pool hand lost (s.pushSlot m) where
  unique := kept.unique
  size := kept.size
  proper := kept.proper
  pages := kept.pages
  slots := by
    intro x
    have before := kept.slots x
    have one : (m :: lost).count x = [m].count x + lost.count x := by
      show ([m] ++ lost).count x = _
      exact List.count_append
    rw [slotList_pushSlot, List.count_append]
    show _ + _ + total PTABSIZE (fun p => (slotOf (s.ptab p)).count x) ≤ 1
    omega
  laid := kept.laid
  folded := kept.folded

/-- Memory is nobody's business but its owner's. -/
theorem Kept.withMem (kept : Kept pool hand lost s) (mem : Nat → Nat → UInt8) :
    Kept pool hand lost { s with mem := mem } where
  unique := kept.unique
  size := kept.size
  proper := kept.proper
  pages := kept.pages
  slots := kept.slots
  laid := kept.laid
  folded := kept.folded

theorem wp_swapper2 {m : Nat} (there : ¬ (s.ptab p).noPage) {Q : Unit → State → Prop}
    (post : Q () (State.pushSlot { s with mem := s.readBanks (s.ptab p).page m } m)) :
    wp (fun _ => True) (swapper2 p m) Q s := by
  have read : ∀ R : Unit → State → Prop, wp (fun _ => True) (swapin p m) R s ↔
      R () { s with mem := s.readBanks (s.ptab p).page m } := by
    intro R
    simp only [swapin, wp_bind, wp_get, wp_ite, there, false_implies, true_and, not_false_eq_true,
      true_implies]
    exact wp_readBanks _ _ _
  have run : swapper2 p m = (swapin p m >>= fun _ => swapmapAdd m) := rfl
  rw [run, wp_bind, read]
  simp only [swapmapAdd, wp_bind, wp_get, wp_ite, wp_throw, wp_modify]
  exact ⟨fun _ => trivial, fun _ => post⟩

theorem pagesWanted_hand (q : Proc) (c : Nat) :
    mapsNeeded q.top = pagesWanted q c + (handOf c).length := by
  have range := mapsNeeded_range q.top
  unfold pagesWanted handOf
  by_cases zero : c = 0
  · simp [zero]
  · simp [zero]
    omega

/-- `pagemap_alloc2` and `swapper2` for a process that is swapped out, when room is found. -/
theorem wp_comeBack (kept : Kept pool (handOf c) [] s) (hp : p < PTABSIZE)
    (away : (s.ptab p).away) (room : roomy p (pagesWanted (s.ptab p) c) (slotsLeft s) s) :
    wp (fun _ => True) (pagemapAlloc2 p c >>= fun _ => swapper2 p (s.ptab p).page2)
      (fun _ t => Kept pool [] [] t ∧ Arrived p s t) s := by
  rw [wp_bind]
  apply wp_pagemapAlloc2
  refine wp_mono (wp_findRoom kept (roomy_spares room)) ?_
  intro found t post
  obtain ⟨keeps, moved, enough, finds⟩ := post
  have yes := finds room
  refine ⟨fun _ => ⟨enough yes, keeps.small, ?_⟩, fun no => by rw [yes] at no; cases no⟩
  have same : t.ptab p = s.ptab p := moved.stay p (Or.inl away.2)
  have still : (t.ptab p).away := by rw [same]; exact away
  have folded := keeps.folded p hp still
  rw [same] at folded
  generalize hm : (s.ptab p).page2 = m at *
  have need := pagesWanted_hand (s.ptab p) c
  generalize hn : pagesWanted (s.ptab p) c = n at *
  have passed : ∀ x, [m].count x ≤ ([] : List Nat).count x + (slotOf (t.ptab p)).count x := by
    intro x
    rw [slotOf_away still, same, hm]
    omega
  have placed := keeps.place (t := t.fill p n c) (q := { t.ptab p with page := t.mapFor p n c })
    hp (enough yes) (fun r => r.2 still.2) still.1 rfl (by rw [same]; exact need) rfl rfl rfl rfl
    passed
  have entry : (t.fill p n c).ptab p = { t.ptab p with page := t.mapFor p n c } := put_same _ _ _
  have other : ∀ r, r ≠ p → (t.fill p n c).ptab r = t.ptab r := fun r hr => put_ne _ _ hr
  have top : ((t.fill p n c).ptab p).top = (s.ptab p).top := by rw [entry, ← same]
  obtain ⟨filled, resident⟩ := placed
  rw [← entry] at resident
  have disk : (t.fill p n c).swapdev = t.swapdev := rfl
  have mem : (t.fill p n c).mem = t.mem := rfl
  have cur : (t.fill p n c).cur = t.cur := rfl
  have image' : ∀ q x, image (t.fill p n c) q x = image t q x := fun _ _ => rfl
  have status : ∀ r, ((t.fill p n c).ptab r).status = (t.ptab r).status := by
    intro r
    by_cases here : r = p
    · subst here
      rw [entry]
    · rw [other r here]
  generalize t.fill p n c = u at *
  apply wp_swapper2 resident.2
  refine ⟨(filled.withMem _).pushSlot, cur.trans moved.cur, resident.2, ?_, ?_, ?_, ?_⟩
  · exact fun r => (status r).trans (moved.status r)
  · exact fun r here gone => (other r here).trans (moved.stay r (Or.inl gone))
  · intro r hr alive x hx
    have before := moved.image r hr alive x hx
    rw [← before]
    by_cases here : r = p
    · subst here
      have after : image (State.pushSlot { u with mem := u.readBanks (u.ptab r).page m } m)
          (u.ptab r) x =
          u.readBanks (u.ptab r).page m ((u.ptab r).page (x / PAGESIZE)) (x % PAGESIZE) :=
        if_neg resident.2
      have first : image t (t.ptab r) x = diskByte t (t.ptab r).page2 x := if_pos still.2
      have fold : Folded (diskByte u m) (mapsNeeded (u.ptab r).top) := by
        unfold diskByte
        rw [disk, top]
        exact folded
      show image _ (u.ptab r) x = _
      rw [after, first, filled.readBanks_image hr resident hx fold, same, hm]
      unfold diskByte
      rw [disk]
    · have alive' : ¬ (u.ptab r).dead := by
        rw [dead_congr ((status r).trans (moved.status r))]
        exact alive
      show image _ (u.ptab r) x = _
      rw [filled.image_kept (t := State.pushSlot { u with mem := u.readBanks (u.ptab p).page m } m)
        hr alive' hx rfl ?_, image', other r here]
      intro y owned
      funext z
      refine readBanks_other ?_ m z
      intro i hi equal
      have mine := page_held resident (filled.laid p hp resident) hi
      rw [equal] at mine
      exact filled.held_apart hp hr (Ne.symm here) mine owned
  · intro b o changed
    have changed' : t.swapdev b o ≠ s.swapdev b o := by
      rw [← disk]
      exact changed
    obtain ⟨r, hr, before, gone, range⟩ := moved.blocks b o changed'
    have here : r ≠ p := by
      intro equal
      subst equal
      exact before.2 away.2
    rw [← other r here] at gone range
    exact ⟨r, hr, before, gone, range⟩

/-! ## A common page -/

theorem Evicted.pop (s : State) (n : Nat) : Evicted s (s.pop n) := Evicted.same rfl rfl rfl rfl

/-- The common page is copied to `page`. -/
def State.copied (s : State) (page : Nat) : State :=
  { s with mem := put s.mem page (fun x => if Machine.inCommon x then s.mem s.common x
      else s.mem page x) }

theorem Kept.copied (kept : Kept pool hand lost s) {page : Nat} (mine : page ∈ hand) :
    Kept pool hand lost (s.copied page) ∧ Evicted s (s.copied page) := by
  refine ⟨kept.withMem _, rfl, fun _ => rfl, fun _ => rfl, fun _ _ => rfl, ?_, ?_⟩
  · intro r hr alive x hx
    refine kept.image_kept hr alive hx rfl ?_
    intro y owned
    refine put_ne _ _ ?_
    intro same
    subst same
    exact (kept.held_taken hr owned).2 mine
  · exact fun _ _ changed => absurd rfl changed

/-- `get_common` has a page to return. -/
def commonRoom (s : State) : Prop :=
  s.me.dead ∨ s.pfptr ≠ 0 ∨ s.swapptr ≠ 0 ∧ s.slot ≠ 0 ∧
    ∀ n ∈ swapvictim s none false, ¬ (s.ptab n).dead

instance (s : State) : Decidable (commonRoom s) := by unfold commonRoom; infer_instance

/-- The state behind `get_common`. -/
def afterCommon (s : State) : State :=
  if s.me.dead then s.pop 1
  else if s.pfptr ≠ 0 then (s.pop 1).copied (s.free 0)
  else match swapvictim s none false with
    | some n => (s.evict n).pop 1
    | none => s

theorem Kept.handOf_page {page : Nat} (kept : Kept pool [page] lost s) :
    page ≠ 0 ∧ Kept pool (handOf page) lost s := by
  have positive := (kept.proper page (kept.mem_pool (Or.inr (Or.inl List.mem_cons_self)))).1
  have nonzero : page ≠ 0 := by omega
  have hand : handOf page = [page] := if_neg nonzero
  rw [hand]
  exact ⟨nonzero, kept⟩

theorem wp_getCommon (kept : Kept pool [] [] s) (cur : s.cur < PTABSIZE)
    (idle : s.me.status ≠ .running) (tail : s.me.dead → 0 < s.pfptr) (room : commonRoom s) :
    wp (fun _ => True) getCommon (fun page t =>
      t = afterCommon s ∧ (page ≠ 0 ∧ Kept pool (handOf page) [] t) ∧ Evicted s t) s := by
  have small := kept.small
  have run : getCommon = (do
      let s ← get
      if s.me.dead then popPage
      else if s.pfptr ≠ 0 then
        let page ← popPage
        copyCommon page
        return page
      else
        let _ ← swapneeded none false
        popPage) := rfl
  rw [run, wp_bind, wp_get]
  unfold afterCommon
  by_cases dead : s.me.dead
  · rw [if_pos dead, if_pos dead, wp_popPage _ (tail dead) small]
    have popped := kept.pop (tail dead)
    exact ⟨rfl, popped.handOf_page, Evicted.pop s 1⟩
  rw [if_neg dead, if_neg dead]
  by_cases some : s.pfptr ≠ 0
  · rw [if_pos some, if_pos some, wp_bind, wp_popPage _ (by omega) small]
    have popped := kept.pop (Nat.pos_of_ne_zero some)
    obtain ⟨keeps, same⟩ := popped.copied List.mem_cons_self
    exact ⟨rfl, keeps.handOf_page, (Evicted.pop s 1).trans same⟩
  rw [if_neg some, if_neg some]
  obtain ⟨positive, nonzero, alive⟩ := (room.resolve_left dead).resolve_left some
  rw [wp_bind]
  cases victim : swapvictim s none false with
  | none =>
    unfold swapvictim at victim
    simp only [Bool.false_eq_true, if_false] at victim
    split at victim <;> cases victim
  | some n =>
    have can : n < PTABSIZE ∧ (s.ptab n).status ≠ .running := by
      rcases victim_or_self victim with can | self
      · exact ⟨can.1, can.2.2.1⟩
      · rw [self]
        exact ⟨cur, idle⟩
    by_cases noPage : (s.ptab n).noPage
    · rw [wp_swapneeded_some victim]
      simp only [swapout, wp_bind, wp_get, wp_ite, noPage, true_implies, not_true_eq_false,
        false_implies, and_true, wp_throw]
    · have there : (s.ptab n).resident := ⟨alive n victim, noPage⟩
      rw [wp_swapneeded kept victim can.1 there, if_neg positive, if_neg nonzero]
      have keeps := kept.evict can.1 there positive
      have moved := kept.evicted can.1 there can.2 positive
      have more : 0 < (s.evict n).pfptr := by
        have range := mapsNeeded_range (s.ptab n).top
        have pages := kept.pagesOf_held can.1 there
        show 0 < s.pfptr + (s.pagesOf n).length
        rw [pages, held_resident there, List.length_map, List.length_range]
        omega
      rw [wp_popPage _ more keeps.small]
      have popped := keeps.pop more
      exact ⟨rfl, popped.handOf_page, moved.trans (Evicted.pop _ 1)⟩

theorem Evicted.arrived {u : State} (h : Evicted s t) (gone : (s.ptab p).noPage)
    (k : Arrived p t u) : Arrived p s u where
  cur := k.cur.trans h.cur
  there := k.there
  status := fun r => (k.status r).trans (h.status r)
  stay := by
    intro r other noPage
    have first := h.stay r (Or.inl noPage)
    rw [← first] at noPage
    exact (k.stay r other noPage).trans first
  image := by
    intro r hr alive x hx
    have alive' : ¬ (t.ptab r).dead := fun dead => alive ((dead_congr (h.status r)).mp dead)
    exact (k.image r hr alive' x hx).trans (h.image r hr alive x hx)
  blocks := by
    intro b o changed
    by_cases later : u.swapdev b o = t.swapdev b o
    · rw [later] at changed
      obtain ⟨r, hr, before, after, range⟩ := h.blocks b o changed
      have other : r ≠ p := by
        intro same
        subst same
        exact before.2 gone
      have same := k.stay r other after.2
      rw [← same] at after range
      exact ⟨r, hr, before, after, range⟩
    · obtain ⟨r, hr, before, after, range⟩ := k.blocks b o later
      refine ⟨r, hr, ⟨?_, ?_⟩, after, range⟩
      · exact fun dead => before.1 ((dead_congr (h.status r)).mpr dead)
      · intro noPage
        apply before.2
        rw [h.stay r (Or.inl noPage)]
        exact noPage

/-- A process that is swapped out can be brought back. -/
def canReturn (s : State) (p : Nat) : Prop :=
  if Machine.ownCommon then
    commonRoom s ∧ roomy p (mapsNeeded (s.ptab p).top - 1) (slotsLeft (afterCommon s)) (afterCommon s)
  else roomy p (mapsNeeded (s.ptab p).top) (slotsLeft s) s

instance (s : State) (p : Nat) : Decidable (canReturn s p) := by unfold canReturn; infer_instance

theorem wp_swapFinish (Q : Unit → State → Prop) : wp stop (swapFinish c p) Q s ↔
    wp stop (pagemapAlloc2 p c >>= fun _ => swapper2 p (s.ptab p).page2) Q s := Iff.rfl

theorem wp_swapper (Q : Unit → State → Prop) : wp stop (swapper p) Q s ↔
    wp stop (pagemapAlloc2 p 0 >>= fun _ => swapper2 p (s.ptab p).page2) Q s := Iff.rfl

theorem wp_bringIn (kept : Kept pool [] [] s) (cur : s.cur < PTABSIZE)
    (idle : s.me.status ≠ .running) (tail : s.me.dead → 0 < s.pfptr) (hp : p < PTABSIZE)
    (away : (s.ptab p).away) (sound : canReturn s p) :
    wp (fun _ => True) (bringIn p) (fun _ t => Kept pool [] [] t ∧ Arrived p s t) s := by
  unfold bringIn
  unfold canReturn at sound
  by_cases own : Machine.ownCommon = true
  · rw [if_pos own] at sound ⊢
    rw [wp_bind]
    refine wp_mono (wp_getCommon kept cur idle tail sound.1) ?_
    intro page t post
    obtain ⟨state, ⟨nonzero, keeps⟩, moved⟩ := post
    have same := moved.stay p (Or.inl away.2)
    have still : (t.ptab p).away := by rw [same]; exact away
    have wanted : pagesWanted (t.ptab p) page = mapsNeeded (s.ptab p).top - 1 := by
      unfold pagesWanted
      rw [if_pos nonzero, same]
    have room := sound.2
    rw [← state, ← wanted] at room
    rw [wp_swapFinish]
    refine wp_mono (wp_comeBack keeps hp still room) ?_
    intro _ u post
    exact ⟨post.1, moved.arrived away.2 post.2⟩
  · rw [if_neg own] at sound ⊢
    have room : roomy p (pagesWanted (s.ptab p) 0) (slotsLeft s) s := sound
    rw [wp_swapper]
    exact wp_comeBack kept hp away room

/-! ## Changing the size -/

/-- `n` pages of the map are pushed, from the one at `i` on, and the common page fills their
places. -/
def State.shrunk (s : State) (p n i : Nat) : State :=
  { s.push ((List.range n).map (fun k => (s.ptab p).page (i + k))) with
    ptab := put s.ptab p { s.ptab p with
      page := fun k => if i ≤ k ∧ k < i + n then (s.ptab p).page 3 else (s.ptab p).page k } }

theorem wp_shrinkMaps (n i : Nat) (Q : Unit → State → Prop) (short : i + n ≤ 3)
    (small : s.pfptr + n < 256) :
    wp stop (shrinkMaps p n (i + 1)) Q s ↔ Q () (s.shrunk p n i) := by
  induction n generalizing i s with
  | zero =>
    have page : (fun k => if i ≤ k ∧ k < i + 0 then (s.ptab p).page 3 else (s.ptab p).page k) =
        (s.ptab p).page := by
      funext k
      exact if_neg (by omega)
    have state : s.shrunk p 0 i = s := by
      unfold State.shrunk
      rw [page]
      show { s.push [] with ptab := put s.ptab p (s.ptab p) } = s
      rw [put_self, push_nil]
    rw [state]
    exact Iff.rfl
  | succ n ih =>
    have step : shrinkMaps p (n + 1) (i + 1) = (do
        let s ← get
        pushPage ((s.ptab p).page (i + 1 - 1))
        setPage p (i + 1 - 1) ((s.ptab p).page 3)
        shrinkMaps p n (i + 1 + 1)) := rfl
    rw [step, wp_bind, wp_get, wp_bind, wp_pushPage _ _ (by omega), wp_bind, Nat.add_sub_cancel]
    have set : ∀ R : Unit → State → Prop, wp stop (setPage p i ((s.ptab p).page 3)) R
        (s.push [(s.ptab p).page i]) ↔ R () { s.push [(s.ptab p).page i] with
          ptab := put s.ptab p { s.ptab p with
            page := put (s.ptab p).page i ((s.ptab p).page 3) } } := fun _ => Iff.rfl
    rw [set, ih (i + 1) (by omega) (by show s.pfptr + 1 + n < 256; omega)]
    have common : put (s.ptab p).page i ((s.ptab p).page 3) 3 = (s.ptab p).page 3 :=
      put_ne _ _ (by omega)
    have list : (s.ptab p).page i :: (List.range n).map (fun k =>
        put (s.ptab p).page i ((s.ptab p).page 3) (i + 1 + k)) =
        (List.range (n + 1)).map (fun k => (s.ptab p).page (i + k)) := by
      have rest : (List.range n).map (fun k =>
          put (s.ptab p).page i ((s.ptab p).page 3) (i + 1 + k)) =
          (List.range n).map ((fun k => (s.ptab p).page (i + k)) ∘ Nat.succ) := by
        apply List.map_congr_left
        intro k _
        rw [put_ne _ _ (by omega)]
        show _ = (s.ptab p).page (i + (k + 1))
        rw [show i + 1 + k = i + (k + 1) by omega]
      rw [rest, List.range_succ_eq_map, List.map_cons, List.map_map]
      rfl
    have page : (fun k => if i + 1 ≤ k ∧ k < i + 1 + n then (s.ptab p).page 3
        else put (s.ptab p).page i ((s.ptab p).page 3) k) =
        fun k => if i ≤ k ∧ k < i + (n + 1) then (s.ptab p).page 3 else (s.ptab p).page k := by
      funext k
      by_cases here : k = i
      · subst here
        rw [put_same, ite_self, if_pos (by omega)]
      · rw [put_ne _ _ here]
        by_cases later : i + 1 ≤ k ∧ k < i + 1 + n
        · rw [if_pos later, if_pos (by omega)]
        · rw [if_neg later, if_neg (by omega)]
    have state : State.shrunk { s.push [(s.ptab p).page i] with
        ptab := put s.ptab p { s.ptab p with
          page := put (s.ptab p).page i ((s.ptab p).page 3) } } p n (i + 1) =
        s.shrunk p (n + 1) i := by
      unfold State.shrunk
      simp only [put_put, put_same, common, page]
      rw [← list, ← push_push s _ ((List.range n).map _)]
      rfl
    rw [state]

/-- The first `a` pages of a map, the next `b`, and the one behind them. -/
theorem map_three (f : Nat → Nat) (a b : Nat) : (List.range (a + b + 1)).map f =
    (List.range a).map f ++ (List.range b).map (fun k => f (a + k)) ++ [f (a + b)] := by
  rw [List.range_succ, List.map_append, List.range_add, List.map_append, List.map_map,
    List.map_singleton]
  rfl

/-- The process has another map of its own pages and free ones. -/
theorem Kept.remap (kept : Kept pool [] [] s) (hp : p < PTABSIZE) (there : (s.ptab p).resident)
    (alive : ¬ q.dead) (first : q.page 0 ∈ pool) (laid : q.laidOut)
    (entry : t.ptab = put s.ptab p q)
    (pages : ∀ x, (freeList t).count x + ((List.range (mapsNeeded q.top)).map q.page).count x =
      (freeList s).count x + ((List.range (mapsNeeded (s.ptab p).top)).map (s.ptab p).page).count x)
    (slots : slotList t = slotList s) (disk : t.swapdev = s.swapdev) :
    Kept pool [] [] t ∧ q.resident := by
  have positive := (kept.proper _ first).1
  have resident : q.resident := ⟨alive, fun noPage => by have := noPage.1; omega⟩
  refine ⟨kept.change hp entry ?_ ?_ (fun _ => laid) (fun a => absurd a.2 resident.2) ?_, resident⟩
  · intro x
    have moved := pages x
    rw [held_resident resident, held_resident there, List.count_nil]
    omega
  · intro x
    rw [slots, slotOf_none fun a => resident.2 a.2, slotOf_none fun a => there.2 a.2]
  · intro r _ _ _ x _
    unfold diskByte
    rw [disk]

theorem Kept.shrunk (kept : Kept pool [] [] s) (hp : p < PTABSIZE) (there : (s.ptab p).resident)
    {size : Nat} (fewer : mapsNeeded size < mapsNeeded (s.ptab p).top)
    (hq : q = { s.ptab p with
      top := size
      page := ((s.shrunk p (mapsNeeded (s.ptab p).top - mapsNeeded size)
        (mapsNeeded size - 1)).ptab p).page })
    (entry : t.ptab = put s.ptab p q)
    (free : freeList t = freeList (s.shrunk p (mapsNeeded (s.ptab p).top - mapsNeeded size)
      (mapsNeeded size - 1)))
    (slots : slotList t = slotList s) (disk : t.swapdev = s.swapdev) :
    Kept pool [] [] t ∧ q.resident := by
  have range := mapsNeeded_range (s.ptab p).top
  have range' := mapsNeeded_range size
  have laid := kept.laid p hp there
  unfold Proc.laidOut at laid
  generalize hh : mapsNeeded (s.ptab p).top = h at *
  generalize hw : mapsNeeded size = w at *
  have page : ∀ k, q.page k = if w - 1 ≤ k ∧ k < w - 1 + (h - w) then (s.ptab p).page 3
      else (s.ptab p).page k := by
    intro k
    rw [hq]
    show ((put s.ptab p _ p).page k : Nat) = _
    rw [put_same]
  have common : (s.ptab p).page 3 = (s.ptab p).page (h - 1) := by
    by_cases four : h = 4
    · rw [four]
    · exact laid 3 (by omega) (by decide)
  have top : mapsNeeded q.top = w := by
    rw [hq]
    exact hw
  have alive : ¬ q.dead := by
    rw [hq]
    exact there.1
  have last : q.page (w - 1) = (s.ptab p).page (h - 1) := by
    rw [page, if_pos (by omega), common]
  have first : q.page 0 ∈ pool := by
    have own : ∀ i, i < 4 → (s.ptab p).page i ∈ pool := fun i hi =>
      kept.mem_pool (Or.inr (Or.inr ⟨p, hp, page_held there (kept.laid p hp there) hi⟩))
    rw [page]
    split
    · exact own 3 (by decide)
    · exact own 0 (by decide)
  refine kept.remap hp there alive first ?_ entry ?_ slots disk
  · intro k low high
    rw [top] at low ⊢
    rw [last, page]
    split
    · exact common
    · rename_i outside
      by_cases here : k = h - 1
      · rw [here]
      · exact laid k (by omega) high
  · intro x
    have old := map_three (s.ptab p).page (w - 1) (h - w)
    rw [show w - 1 + (h - w) + 1 = h by omega, show w - 1 + (h - w) = h - 1 by omega] at old
    have new : (List.range w).map q.page = (List.range (w - 1)).map (s.ptab p).page ++
        [(s.ptab p).page (h - 1)] := by
      have low : (List.range (w - 1)).map q.page = (List.range (w - 1)).map (s.ptab p).page := by
        apply List.map_congr_left
        intro k hk
        have less := List.mem_range.mp hk
        rw [page, if_neg (by omega)]
      rw [show w = w - 1 + 1 by omega, List.range_succ, List.map_append, Nat.add_sub_cancel,
        List.map_singleton, last, low]
    have pushed : freeList (s.shrunk p (h - w) (w - 1)) =
        freeList s ++ (List.range (h - w)).map (fun k => (s.ptab p).page (w - 1 + k)) :=
      freeList_push s _
    rw [free, hh, top, old, new, pushed]
    simp only [List.count_append]
    omega

theorem Kept.grown (kept : Kept pool [] [] s) (hp : p < PTABSIZE) (there : (s.ptab p).resident)
    {size : Nat} (more : mapsNeeded (s.ptab p).top < mapsNeeded size)
    (enough : mapsNeeded size - mapsNeeded (s.ptab p).top ≤ s.pfptr)
    (hq : q = { s.ptab p with
      top := size
      page := ((s.take p (mapsNeeded size - mapsNeeded (s.ptab p).top)
        (mapsNeeded (s.ptab p).top - 1)).ptab p).page })
    (entry : t.ptab = put s.ptab p q)
    (free : freeList t = freeList (s.pop (mapsNeeded size - mapsNeeded (s.ptab p).top)))
    (slots : slotList t = slotList s) (disk : t.swapdev = s.swapdev) :
    Kept pool [] [] t ∧ q.resident := by
  have range := mapsNeeded_range (s.ptab p).top
  have range' := mapsNeeded_range size
  have laid := kept.laid p hp there
  unfold Proc.laidOut at laid
  generalize hh : mapsNeeded (s.ptab p).top = h at *
  generalize hw : mapsNeeded size = w at *
  have page : ∀ k, q.page k = if h - 1 ≤ k ∧ k < h - 1 + (w - h) then s.free (k - (h - 1))
      else (s.ptab p).page k := by
    intro k
    rw [hq]
    show ((put s.ptab p _ p).page k : Nat) = _
    rw [put_same]
  have top : mapsNeeded q.top = w := by
    rw [hq]
    exact hw
  have alive : ¬ q.dead := by
    rw [hq]
    exact there.1
  have last : q.page (w - 1) = (s.ptab p).page (h - 1) := by
    rw [page, if_neg (by omega), laid (w - 1) (by omega) (by omega)]
  have first : q.page 0 ∈ pool := by
    rw [page]
    split
    · exact kept.mem_pool (Or.inl (free_mem (by omega)))
    · exact kept.mem_pool (Or.inr (Or.inr ⟨p, hp, page_held there (kept.laid p hp there)
        (by decide)⟩))
  refine kept.remap hp there alive first ?_ entry ?_ slots disk
  · intro k low high
    rw [top] at low ⊢
    rw [last, page, if_neg (by omega)]
    exact laid k (by omega) high
  · intro x
    have new := map_three q.page (h - 1) (w - h)
    rw [show h - 1 + (w - h) + 1 = w by omega, show h - 1 + (w - h) = w - 1 by omega, last] at new
    have low : (List.range (h - 1)).map q.page = (List.range (h - 1)).map (s.ptab p).page := by
      apply List.map_congr_left
      intro k hk
      have less := List.mem_range.mp hk
      rw [page, if_neg (by omega)]
    have taken : (List.range (w - h)).map (fun k => q.page (h - 1 + k)) =
        (List.range (w - h)).map s.free := by
      apply List.map_congr_left
      intro k hk
      have less := List.mem_range.mp hk
      rw [page, if_pos (by omega), Nat.add_sub_cancel_left]
    have old : (List.range h).map (s.ptab p).page = (List.range (h - 1)).map (s.ptab p).page ++
        [(s.ptab p).page (h - 1)] := by
      rw [show h = h - 1 + 1 by omega, List.range_succ, List.map_append, Nat.add_sub_cancel,
        List.map_singleton]
    have popped := count_pop enough x
    rw [free, hh, top, new, old, low, taken, popped]
    simp only [List.count_append]
    omega

end Moves

end Machine

end Bank16k
