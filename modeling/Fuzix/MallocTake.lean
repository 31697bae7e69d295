import Fuzix.MallocFree

/-!
# Taking a block

The loop of `malloc` goes round the list once, gets more memory if no block was large enough, and
finds one when it goes round again.
-/

namespace Malloc

open Table Store Cycle Blocks Fuel

section
variable [Machine] {h h' : Heap} {F F' : Finset Nat} {L : Set Nat} {grants : Nat → Bool} {nb prev p x size : Nat}

theorem memh_small : 2 * memh ≤ TOP := by
  have small : ∀ n, 2 * (2 * (n + 1)) ≤ 256 ^ (n + 1) := by
    intro n
    induction n with
    | zero => decide
    | succ n ih =>
      rw [pow_succ]
      omega
  have wide := Machine.wide
  have one := small (width - 1)
  have same : width - 1 + 1 = width := by omega
  rw [same] at one
  exact one

theorem TOP_large : 65536 ≤ TOP := by
  have grows : 256 ^ 2 ≤ 256 ^ width := Nat.pow_le_pow_right (by omega) Machine.wide
  exact le_trans (by norm_num) grows

theorem NULL_ne {a : Nat} (inv : Inv h F L) (ha : a ∈ F) : a ≠ NULL := by
  have rooted := Machine.rooted
  by_cases same : a = root
  · rw [same]
    exact Nat.ne_of_gt rooted
  · have above := inv.lay.above (Or.inl ha) same
    unfold NULL
    omega

/-- The blocks in use have their sizes and their contents. -/
def Same (L : Set Nat) (h h' : Heap) : Prop :=
  ∀ a ∈ L, h'.size a = h.size a ∧ ∀ k, a + memh ≤ k → k < a + h.size a * memh → h'.mem k = h.mem k

theorem Same.trans {g : Heap} (first : Same L g h) (second : Same L h h') : Same L g h' := by
  intro a ha
  obtain ⟨size, bytes⟩ := first a ha
  obtain ⟨size', bytes'⟩ := second a ha
  refine ⟨size'.trans size, ?_⟩
  intro k low high
  rw [bytes' k low (size ▸ high), bytes k low high]

theorem Same.mono {M : Set Nat} (same : Same L h h') (sub : M ⊆ L) : Same M h h' := fun a ha => same a (sub ha)

/-- What only changes headers changes no block in use. -/
theorem Same.of_kept {B : Set Nat} (inv : Inv h F L) (kept : Kept B h h') (sizes : ∀ a ∈ L, h'.size a = h.size a)
    (sub : ∀ b ∈ B, b ∈ blocks F L ∨ h.brk ≤ b ∨ ∃ a ∈ F, a ≤ b ∧ b + memh ≤ a + h.size a * memh) : Same L h h' := by
  intro a ha
  refine ⟨sizes a ha, ?_⟩
  intro k low high
  apply kept k
  intro b hb
  rcases sub b hb with block | beyond | ⟨c, free, under, upTo⟩
  · exact inv.lay.inside (Or.inr ha) block low high
  · have ends := inv.lay.ends (Or.inr ha)
    omega
  · rcases Nat.lt_trichotomy a c with less | same | more
    · have far := inv.lay.apart a c (Or.inr ha) (Or.inl free) less
      omega
    · exact absurd ha (same ▸ inv.lay.exclusive c free)
    · have far := inv.lay.apart c a (Or.inl free) (Or.inr ha) more
      omega

theorem Freed.same (freed : Freed h h' F F' L x) (inv : Inv h F L) : Same (L \ {x}) h h' := by
  intro a ha
  refine ⟨freed.sizes a ha.1 ha.2, ?_⟩
  intro k low high
  exact freed.kept k fun b hb => inv.lay.inside (Or.inr ha.1) hb low high

/-! ## More memory -/

/-- What `brkmore` asks for. -/
def wanted (nb : Nat) : Nat := if nb < BRKSIZE then BRKSIZE else nb

/-- `brk` gives the memory for `nb` units. -/
def more (h : Heap) (grants : Nat → Bool) (nb : Nat) : Prop :=
  h.brk ≠ TOP - 1 ∧ h.brk + wanted nb * memh < TOP ∧ grants (h.brk + wanted nb * memh) = true

theorem wanted_le (nb : Nat) : nb ≤ wanted nb := by
  unfold wanted
  split <;> omega

theorem wanted_small (small : nb * memh < TOP) : wanted nb * memh < TOP := by
  unfold wanted
  split
  · have limit : BRKSIZE * memh ≤ 512 := Nat.div_mul_le_self 512 memh
    have large := TOP_large
    omega
  · exact small

/-- `brkmore` puts the new memory on the list. -/
structure Grown (h h' : Heap) (F' : Finset Nat) (L : Set Nat) (nb : Nat) : Prop where
  inv : Inv h' F' L
  same : Same L h h'
  fit : ∃ b ∈ F', nb ≤ h'.size b

theorem brkmore_fails (inv : Inv h F L) (small : nb * memh < TOP) (less : ¬ more h grants nb) (fuel : Nat) :
    brkmore grants fuel h nb = some (NULL, h) := by
  have limit := wanted_small small
  have top := inv.top
  show (if h.brk = TOP - 1 then _ else if (h.brk + memh * wanted nb) % TOP < h.brk then _
    else if !grants (plus h.brk (wanted nb)) then _ else _) = _
  rw [Nat.mul_comm memh]
  by_cases last : h.brk = TOP - 1
  · rw [if_pos last]
  · rw [if_neg last]
    by_cases wraps : TOP ≤ h.brk + wanted nb * memh
    · rw [if_pos]
      rw [Nat.mod_eq_sub_mod wraps, Nat.mod_eq_of_lt (by omega)]
      omega
    · rw [if_neg]
      · rw [plus_eq (by omega), if_pos]
        by_contra yes
        exact less ⟨last, by omega, by simpa using yes⟩
      · rw [Nat.mod_eq_of_lt (by omega)]
        omega

theorem brkmore_grows (inv : Inv h F L) (some : 0 < nb) (gives : more h grants nb) :
    ∃ F' h', Returns (fun fuel => brkmore grants fuel h nb) (h'.mfreeptr, h') ∧ Grown h h' F' L nb := by
  obtain ⟨notLast, within, granted⟩ := gives
  have large := wanted_le nb
  have at' : plus h.brk (wanted nb) = h.brk + wanted nb * memh := plus_eq within
  have one : memh ≤ wanted nb * memh := Nat.le_mul_of_pos_left memh (by omega)
  have first : plus h.brk 1 = h.brk + memh := by
    rw [plus_eq (by omega), Nat.one_mul]
  obtain ⟨lay, fresh⟩ := inv.lay.grow (put h.size h.brk (wanted nb)) (by omega : 0 < wanted nb)
    (put_same _ _ _) (fun c other => put_ne _ _ other)
  have block : h.brk ∈ blocks F (insert h.brk L) := Or.inr (Set.mem_insert _ _)
  have start : Reads { h with brk := plus h.brk (wanted nb) } (blocks F (insert h.brk L)) h.next h.size :=
    ⟨fun _ _ => rfl, fun _ _ => rfl⟩
  have fits : wanted nb < TOP := by
    have grows : wanted nb ≤ wanted nb * memh := Nat.le_mul_of_pos_right _ memh_pos
    omega
  have sized := start.setSize (spaced_of lay) block fits
  have grown : Inv (Heap.setSize { h with brk := plus h.brk (wanted nb) } h.brk (wanted nb)) F (insert h.brk L) := by
    apply Inv.of_reads h.next (put h.size h.brk (wanted nb))
    · show Layout root Malloc.start memh (plus h.brk (wanted nb)) F (insert h.brk L) _
      rw [at']
      exact lay
    · exact inv.cycle
    · apply inv.clean.congr
      intro a ha
      exact put_ne _ _ fun same => fresh (Or.inl (same ▸ ha))
    · exact inv.free
    · show plus h.brk (wanted nb) < TOP
      omega
    · exact fun b hb => sized.next b (Or.inl hb)
    · exact sized.size
  obtain ⟨F', h', returned, freed⟩ := free_freed grown (Set.mem_insert h.brk L)
  refine ⟨F', h', ?_, ?_⟩
  · obtain ⟨least, enough⟩ := returned
    refine ⟨least, ?_⟩
    intro fuel le
    show (if h.brk = TOP - 1 then _ else if (h.brk + memh * wanted nb) % TOP < h.brk then _
      else if !grants (plus h.brk (wanted nb)) then _
      else (Malloc.free fuel (Heap.setSize { h with brk := plus h.brk (wanted nb) } h.brk (wanted nb))
        (plus h.brk 1)).map _) = _
    have noWrap : ¬ (h.brk + memh * wanted nb) % TOP < h.brk := by
      rw [Nat.mul_comm memh, Nat.mod_eq_of_lt within]
      omega
    have given : ¬ (!grants (plus h.brk (wanted nb))) = true := by
      rw [at', granted]
      decide
    have done : Malloc.free fuel _ (h.brk + memh) = _ := enough fuel le
    rw [if_neg notLast, if_neg noWrap, if_neg given, first, done]
    rfl
  · have unused : h.brk ∉ L := fun used => fresh (Or.inr used)
    have rest : insert h.brk L \ {h.brk} = L := Set.insert_sdiff_self_of_notMem unused
    have other : ∀ a ∈ L, a ≠ h.brk := fun a ha same => unused (same ▸ ha)
    constructor
    · have inv' := freed.inv
      rw [rest] at inv'
      exact inv'
    · apply Same.of_kept inv (((Kept.refl _ _).setSize block).trans freed.kept : Kept _ h h')
      · intro a ha
        rw [freed.sizes a (Set.mem_insert_of_mem _ ha) (other a ha), sized.size a (Or.inr (Set.mem_insert_of_mem _ ha)),
          put_ne _ _ (other a ha)]
      · intro b hb
        rcases hb with free | isNew | used
        · exact Or.inl (Or.inl free)
        · exact Or.inr (Or.inl (le_of_eq isNew.symm))
        · exact Or.inl (Or.inr used)
    · obtain ⟨b, hb, enough⟩ := freed.fit
      refine ⟨b, hb, le_trans ?_ enough⟩
      rw [sized.size h.brk block, put_same]
      exact large

/-! ## The search -/

/-- A block `x` of `nb` units was taken for the pointer `out.1`. -/
structure Taken (h : Heap) (out : Nat × Heap) (F' : Finset Nat) (L : Set Nat) (nb x : Nat) : Prop where
  pointer : out.1 = x + memh
  new : x ∉ L
  inv : Inv out.2 F' (insert x L)
  size : out.2.size x = nb
  same : Same L h out.2

theorem carve_taken (inv : Inv h F L) (hp : prev ∈ F) (link : h.next prev = p) (some : 0 < nb)
    (enough : nb ≤ h.size p) : ∃ F' x, Taken h (carve h prev p nb) F' L nb x := by
  have memP : p ∈ F := link ▸ inv.cycle.mem prev hp
  have notRoot : p ≠ root := by
    intro same
    rw [same, inv.lay.empty] at enough
    omega
  have unused : p ∉ L := inv.lay.exclusive p memP
  have ends := inv.lay.ends (Or.inl memP)
  have top := inv.top
  have one := inv.lay.covers (Or.inl memP) notRoot
  have spaced := spaced_of inv.lay
  by_cases exact : h.size p = nb
  · have other : p ≠ prev := by
      intro same
      rw [← same] at link
      -- a cycle of one element is the root
      obtain ⟨k, reached⟩ := inv.cycle.orbit memP inv.lay.rooted
      exact notRoot ((Function.iterate_fixed link k).symm.trans reached)
    have unlinked := (Reads.refl h (blocks F L)).setNext spaced (Or.inl hp) (h.next_lt p)
    have lay := inv.lay.take memP notRoot
    have old : ∀ b, b ∈ F.erase p ∨ b ∈ insert p L → b ∈ blocks F L := by
      rintro b (free | (isP | used))
      · exact Or.inl (Finset.mem_of_mem_erase free)
      · exact Or.inl (isP ▸ memP)
      · exact Or.inr used
    have result : carve h prev p nb = (plus p 1, { h.setNext prev (h.next p) with mfreeptr := prev }) := if_pos exact
    rw [result]
    refine ⟨F.erase p, p, ?_⟩
    constructor
    · show plus p 1 = _
      rw [plus_eq (by omega), Nat.one_mul]
    · exact unused
    · apply Inv.of_reads (put h.next prev (h.next p)) h.size
      · exact lay
      · apply inv.cycle.erase hp link other
        · rw [put_same]
        · intro a _ notPrev _
          rw [put_ne _ _ notPrev]
      · exact inv.clean.mono (Finset.erase_subset p F)
      · exact Finset.mem_erase.mpr ⟨Ne.symm other, hp⟩
      · exact top
      · exact fun b hb => unlinked.next b (old b (Or.inl hb))
      · exact fun b hb => unlinked.size b (old b hb)
    · exact (unlinked.size p (Or.inl memP)).trans exact
    · apply Same.of_kept inv ((Kept.refl _ h).setNext (Or.inl hp) : Kept (blocks F L) h _)
      · exact fun a ha => unlinked.size a (Or.inr ha)
      · exact fun b hb => Or.inl hb
  · have less : nb < h.size p := by omega
    generalize place : p + (h.size p - nb) * memh = y
    have split : (h.size p - nb) * memh + nb * memh = h.size p * memh := by
      rw [← Nat.add_mul]
      congr 1
      omega
    have tail : memh ≤ nb * memh := Nat.le_mul_of_pos_left memh some
    have part : memh ≤ (h.size p - nb) * memh := Nat.le_mul_of_pos_left memh (by omega)
    have pos := memh_pos
    have notY : p ≠ y := by omega
    obtain ⟨lay, fresh⟩ := inv.lay.split (put (put h.size p (h.size p - nb)) y nb) memP some less place.symm
      (by rw [put_ne _ _ notY, put_same]) (put_same _ _ _)
      (fun c notP notY => by rw [put_ne _ _ notY, put_ne _ _ notP])
    have wide := spaced_of lay
    have blockP : p ∈ blocks F (insert y L) := Or.inl memP
    have blockY : y ∈ blocks F (insert y L) := Or.inr (Set.mem_insert y L)
    have limit := h.size_lt p
    have shrunk := (Reads.refl h (blocks F (insert y L))).setSize wide blockP (by omega : h.size p - nb < TOP)
    have sized := shrunk.setSize wide blockY (by omega : nb < TOP)
    have atP := shrunk.size p blockP
    rw [put_same] at atP
    have atY : plus p (h.size p - nb) = y := by
      rw [plus_eq (by omega), place]
    have result : carve h prev p nb =
        (plus y 1, { (h.setSize p (h.size p - nb)).setSize y nb with mfreeptr := prev }) := by
      unfold carve
      rw [if_neg exact]
      simp only [atP, atY]
    rw [result]
    refine ⟨F, y, ?_⟩
    constructor
    · show plus y 1 = _
      rw [plus_eq (by omega), Nat.one_mul]
    · exact fun used => fresh (Or.inr used)
    · apply Inv.of_reads h.next (put (put h.size p (h.size p - nb)) y nb)
      · exact lay
      · exact inv.cycle
      · intro a ha b hb other
        have notNew : a ≠ y := fun same => fresh (Or.inl (same ▸ ha))
        rw [put_ne _ _ notNew]
        by_cases isP : a = p
        · rw [isP, put_same]
          rw [isP] at other
          rcases Nat.lt_or_gt_of_ne other with up | down
          · have far := inv.lay.apart p b (Or.inl memP) (Or.inl hb) up
            omega
          · omega
        · rw [put_ne _ _ isP]
          exact inv.clean a ha b hb other
      · exact hp
      · exact top
      · exact fun b hb => sized.next b (Or.inl hb)
      · exact sized.size
    · exact (sized.size y blockY).trans (put_same _ _ _)
    · apply Same.of_kept inv (((Kept.refl _ h).setSize blockP).setSize blockY : Kept _ h _)
      · intro a ha
        have notP : a ≠ p := fun same => unused (same ▸ ha)
        have notNew : a ≠ y := fun same => fresh (Or.inr (same ▸ ha))
        refine (sized.size a (Or.inr (Set.mem_insert_of_mem _ ha))).trans ?_
        rw [put_ne _ _ notNew, put_ne _ _ notP]
      · intro b hb
        rcases hb with free | isNew | used
        · exact Or.inl (Or.inl free)
        · have here : b = y := isNew
          exact Or.inr (Or.inr ⟨p, memP, by omega, by omega⟩)
        · exact Or.inl (Or.inr used)

/-- Blocks that are too small are passed by. -/
theorem search_passes {k : Nat}
    (small : ∀ j < k, h.size (h.next^[j] (h.next h.mfreeptr)) < nb ∧ h.next^[j] (h.next h.mfreeptr) ≠ h.mfreeptr)
    (fuel : Nat) : search grants nb (fuel + k) h h.mfreeptr (h.next h.mfreeptr) =
      search grants nb fuel h (h.next^[k] h.mfreeptr) (h.next^[k] (h.next h.mfreeptr)) := by
  induction k generalizing fuel with
  | zero => rfl
  | succ k ih =>
    obtain ⟨less, other⟩ := small k (Nat.lt_succ_self k)
    have before := ih (fun j hj => small j (by omega)) (fuel + 1)
    have shift : fuel + (k + 1) = fuel + 1 + k := by omega
    rw [shift, before, search, if_neg (by omega), if_neg other, Function.iterate_succ_apply,
      Function.iterate_succ_apply' _ k (h.next h.mfreeptr)]

/-- One orbit finds a block or comes back to the start pointer. -/
theorem search_orbit (inv : Inv h F L) (grants : Nat → Bool) (nb : Nat) :
    ∃ k prev p, prev ∈ F ∧ h.next prev = p ∧
      (∀ fuel, search grants nb (fuel + k) h h.mfreeptr (h.next h.mfreeptr) = search grants nb fuel h prev p) ∧
      (nb ≤ h.size p ∨ p = h.mfreeptr ∧ ∀ b ∈ F, h.size b < nb) := by
  have ends : ∃ k, nb ≤ h.size (h.next^[k] (h.next h.mfreeptr)) ∨ h.next^[k] (h.next h.mfreeptr) = h.mfreeptr := by
    obtain ⟨k, reached⟩ := inv.cycle.orbit (inv.cycle.mem _ inv.free) inv.free
    exact ⟨k, Or.inr reached⟩
  classical
  have goes : ∀ j < Nat.find ends,
      h.size (h.next^[j] (h.next h.mfreeptr)) < nb ∧ h.next^[j] (h.next h.mfreeptr) ≠ h.mfreeptr := by
    intro j less
    have not := Nat.find_min ends less
    constructor
    · by_contra large
      exact not (Or.inl (by omega))
    · exact fun same => not (Or.inr same)
  refine ⟨Nat.find ends, _, _, inv.cycle.iterate_mem inv.free (Nat.find ends), ?_, search_passes goes, ?_⟩
  · exact Function.Commute.self_iterate h.next _ h.mfreeptr
  · by_cases fits : nb ≤ h.size (h.next^[Nat.find ends] (h.next h.mfreeptr))
    · exact Or.inl fits
    · right
      have back := (Nat.find_spec ends).resolve_left fits
      refine ⟨back, ?_⟩
      intro b hb
      obtain ⟨j, le, reached⟩ := inv.cycle.covers inv.free back hb
      rw [← reached]
      rcases Nat.lt_or_eq_of_le le with less | same
      · exact (goes j less).1
      · rw [same]
        omega

/-- A block that is large enough is found. -/
theorem search_fits (inv : Inv h F L) (grants : Nat → Bool) (some : 0 < nb) (fit : ∃ b ∈ F, nb ≤ h.size b) :
    ∃ out F' x, Returns (fun fuel => search grants nb fuel h h.mfreeptr (h.next h.mfreeptr)) out ∧
      Taken h out F' L nb x := by
  obtain ⟨k, prev, p, memPrev, link, runs, ends⟩ := search_orbit inv grants nb
  have enough : nb ≤ h.size p := by
    rcases ends with large | ⟨_, none⟩
    · exact large
    · obtain ⟨b, hb, large⟩ := fit
      have small := none b hb
      omega
  obtain ⟨F', x, taken⟩ := carve_taken inv memPrev link some enough
  refine ⟨carve h prev p nb, F', x, ?_, taken⟩
  apply Returns.shift (k + 1)
  refine ⟨0, ?_⟩
  intro fuel _
  have shift : fuel + (k + 1) = fuel + 1 + k := by omega
  show search grants nb (fuel + (k + 1)) h _ _ = _
  rw [shift, runs, search, if_pos enough]

/-- After an orbit in vain there is a call of `brkmore`. -/
theorem search_full (inv : Inv h F L) (grants : Nat → Bool) (none : ¬ ∃ b ∈ F, nb ≤ h.size b) :
    ∃ k, ∀ fuel, search grants nb (fuel + (k + 1)) h h.mfreeptr (h.next h.mfreeptr) =
      (brkmore grants fuel h nb).bind fun out =>
        if out.1 = NULL then some (NULL, out.2) else search grants nb fuel out.2 out.1 (out.2.next out.1) := by
  obtain ⟨k, prev, p, memPrev, link, runs, ends⟩ := search_orbit inv grants nb
  have small : ¬ nb ≤ h.size p := by
    intro large
    exact none ⟨p, link ▸ inv.cycle.mem prev memPrev, large⟩
  obtain ⟨back, _⟩ := ends.resolve_left small
  refine ⟨k, ?_⟩
  intro fuel
  have shift : fuel + (k + 1) = fuel + 1 + k := by omega
  rw [shift, runs, search, if_neg small, if_pos back]

/-! ## malloc -/

/-- The units for `size` bytes and a header. -/
def units (size : Nat) : Nat := (size + memh + memh - 1) / memh

/-- There is a block for `size` bytes: the units can be counted, and a free block is large enough
or `brk` gives one. -/
def room (h : Heap) (grants : Nat → Bool) (size : Nat) : Prop :=
  size + memh + memh - 1 < TOP ∧
    ((∃ k, units size ≤ h.size (h.next^[k] h.mfreeptr)) ∨ more h grants (units size))

theorem units_pos (size : Nat) : 0 < units size := by
  have pos := memh_pos
  exact Nat.div_pos (by omega) pos

theorem units_enough (size : Nat) : size + memh ≤ units size * memh := by
  have parts := Nat.div_add_mod (size + memh + memh - 1) memh
  have small := Nat.mod_lt (size + memh + memh - 1) memh_pos
  have pos := memh_pos
  unfold units
  rw [Nat.mul_comm]
  omega

theorem units_small (size : Nat) : units size * memh ≤ size + memh + memh - 1 := Nat.div_mul_le_self _ _

theorem malloc_counted (less : size + memh + memh - 1 < TOP) (fuel : Nat) :
    malloc grants fuel h size = search grants (units size) fuel h h.mfreeptr (h.next h.mfreeptr) := by
  have pos := memh_pos
  unfold malloc
  rw [Nat.mod_eq_of_lt less]
  exact if_neg (by omega)

theorem malloc_wraps (within : size < TOP) (wraps : TOP ≤ size + memh + memh - 1) (fuel : Nat) :
    malloc grants fuel h size = some (NULL, h) := by
  have small := memh_small
  unfold malloc
  rw [Nat.mod_eq_sub_mod wraps, Nat.mod_eq_of_lt (by omega)]
  exact if_pos (by omega)

theorem malloc_takes (inv : Inv h F L) (fits : room h grants size) :
    ∃ out F' x, Returns (fun fuel => malloc grants fuel h size) out ∧ Taken h out F' L (units size) x := by
  obtain ⟨counted, found⟩ := fits
  have some := units_pos size
  have counts : (fun fuel => malloc grants fuel h size) =
      fun fuel => search grants (units size) fuel h h.mfreeptr (h.next h.mfreeptr) :=
    funext fun fuel => malloc_counted counted fuel
  rw [counts]
  by_cases fit : ∃ b ∈ F, units size ≤ h.size b
  · exact search_fits inv grants some fit
  · have gives : more h grants (units size) := by
      rcases found with ⟨k, large⟩ | gives
      · exact absurd ⟨_, inv.cycle.iterate_mem inv.free k, large⟩ fit
      · exact gives
    obtain ⟨F₁, h₁, returned, grown⟩ := brkmore_grows inv some gives
    obtain ⟨out, F', x, finds, taken⟩ := search_fits grown.inv grants some grown.fit
    obtain ⟨k, runs⟩ := search_full inv grants fit
    refine ⟨out, F', x, ?_, ?_⟩
    · apply Returns.shift (k + 1)
      have same : (fun fuel => search grants (units size) (fuel + (k + 1)) h h.mfreeptr (h.next h.mfreeptr)) =
          fun fuel => (brkmore grants fuel h (units size)).bind fun out =>
            if out.1 = NULL then Option.some (NULL, out.2)
            else search grants (units size) fuel out.2 out.1 (out.2.next out.1) := funext runs
      rw [same]
      apply returned.bind (g := fun out fuel => if out.1 = NULL then Option.some (NULL, out.2)
        else search grants (units size) fuel out.2 out.1 (out.2.next out.1))
      simp only [if_neg (NULL_ne grown.inv grown.inv.free)]
      exact finds
    · exact { taken with same := grown.same.trans taken.same }

theorem malloc_null (inv : Inv h F L) (within : size < TOP) (none : ¬ room h grants size) :
    Returns (fun fuel => malloc grants fuel h size) (NULL, h) := by
  by_cases counted : size + memh + memh - 1 < TOP
  · have counts : (fun fuel => malloc grants fuel h size) =
        fun fuel => search grants (units size) fuel h h.mfreeptr (h.next h.mfreeptr) :=
      funext fun fuel => malloc_counted counted fuel
    rw [counts]
    have full : ¬ ∃ b ∈ F, units size ≤ h.size b := by
      rintro ⟨b, hb, large⟩
      obtain ⟨k, reached⟩ := inv.cycle.orbit inv.free hb
      exact none ⟨counted, Or.inl ⟨k, reached.symm ▸ large⟩⟩
    have less : ¬ more h grants (units size) := fun gives => none ⟨counted, Or.inr gives⟩
    obtain ⟨k, runs⟩ := search_full inv grants full
    apply Returns.shift (k + 1)
    refine ⟨0, ?_⟩
    intro fuel _
    have small := units_small size
    show search grants (units size) (fuel + (k + 1)) h _ _ = _
    rw [runs, brkmore_fails inv (by omega) less]
    rfl
  · refine ⟨0, ?_⟩
    intro fuel _
    exact malloc_wraps within (by omega) fuel

end

end Malloc
