import Fuzix.Lib.Run
import Fuzix.MallocTake

/-!
# Programs that use the heap

Each call returns, and in a run without the failing calls every block is as large as it was asked
for and apart from all others.
-/

namespace Malloc

open Table Store Cycle Blocks Fuel Run

section
variable [Machine] {h h' : Heap} {F F' : Finset Nat} {L : Set Nat} {grants : Nat → Bool} {nb x : Nat}
  {out : Nat × Heap} {w w' : World} {m : Memory} {a : Action}

/-! ## Stores inside a block -/

/-- The headers do not depend on what is inside the blocks in use. -/
theorem Inv.fill (inv : Inv h F L) (hx : x ∈ L)
    (outside : ∀ k, k < x + memh ∨ x + h.size x * memh ≤ k → m k = h.mem k) :
    Inv { h with mem := m } F L ∧ (∀ b ∈ blocks F L, Heap.size { h with mem := m } b = h.size b) ∧
      Same (L \ {x}) h { h with mem := m } := by
  have bytes : ∀ b ∈ blocks F L, ∀ k, b ≤ k → k < b + memh → m k = h.mem k := by
    intro b hb k low high
    apply outside
    by_contra inner
    have apart := inv.lay.inside (Or.inr hx) hb (k := k) (by omega) (by omega)
    omega
  have nexts : ∀ b ∈ blocks F L, Heap.next { h with mem := m } b = h.next b := by
    intro b hb
    apply load_congr
    intro k low high
    exact bytes b hb k low (by unfold memh; omega)
  have sizes : ∀ b ∈ blocks F L, Heap.size { h with mem := m } b = h.size b := by
    intro b hb
    apply load_congr
    intro k low high
    exact bytes b hb k (by omega) (by unfold memh; omega)
  refine ⟨?_, sizes, ?_⟩
  · exact Inv.of_reads (h := { h with mem := m }) h.next h.size inv.lay inv.cycle inv.clean inv.free inv.top
      (fun b hb => nexts b (Or.inl hb)) sizes
  · intro a ha
    refine ⟨sizes a (Or.inr ha.1), ?_⟩
    intro k low high
    apply outside
    rcases Nat.lt_trichotomy a x with less | same | more
    · have far := inv.lay.apart a x (Or.inr ha.1) (Or.inr hx) less
      omega
    · exact absurd same ha.2
    · have far := inv.lay.apart x a (Or.inr hx) (Or.inr ha.1) more
      omega

theorem Taken.fill (taken : Taken h out F' L nb x)
    (outside : ∀ k, k < x + memh ∨ x + nb * memh ≤ k → m k = out.2.mem k) :
    Taken h (out.1, { out.2 with mem := m }) F' L nb x := by
  have used : x ∈ insert x L := Set.mem_insert x L
  obtain ⟨inv, sizes, same⟩ := taken.inv.fill used (m := m) (by rw [taken.size]; exact outside)
  constructor
  · exact taken.pointer
  · exact taken.new
  · exact inv
  · exact (sizes x (Or.inr used)).trans taken.size
  · apply taken.same.trans
    apply same.mono
    intro b hb
    exact ⟨Set.mem_insert_of_mem x hb, fun isX => taken.new (isX ▸ hb)⟩

/-! ## The program's blocks -/

/-- The headers of the blocks handed out. -/
def used (live : Nat → Option Nat) : Set Nat := { a | (live (a + memh)).isSome }

/-- The heap is in order, and each block is large enough. -/
structure Sane (w : World) : Prop where
  inv : ∃ F, Inv w.heap F (used w.live)
  holds : ∀ r n, w.live r = some n → ∃ x, r = x + memh ∧ n + memh ≤ w.heap.size x * memh

theorem used_put (live : Nat → Option Nat) (x n : Nat) :
    used (put live (x + memh) (some n)) = insert x (used live) := by
  ext b
  by_cases same : b = x
  · simp [used, same]
  · have other : b + memh ≠ x + memh := by omega
    simp [used, same]

theorem used_none (live : Nat → Option Nat) (x : Nat) :
    used (put live (x + memh) none) = used live \ {x} := by
  ext b
  by_cases same : b = x
  · simp [used, same]
  · have other : b + memh ≠ x + memh := by omega
    simp [used, same]

theorem Sane.block {r n : Nat} (sane : Sane w) (given : w.live r = some n) :
    ∃ x, r = x + memh ∧ x ∈ used w.live ∧ n + memh ≤ w.heap.size x * memh := by
  obtain ⟨x, at', enough⟩ := sane.holds r n given
  refine ⟨x, at', ?_, enough⟩
  show (w.live (x + memh)).isSome = true
  rw [← at', given]
  rfl

theorem Sane.null (sane : Sane w) : w.live NULL = none := by
  cases given : w.live NULL with
  | none => rfl
  | some n =>
    obtain ⟨x, at', _⟩ := sane.holds NULL n given
    have pos := memh_pos
    unfold NULL at at'
    omega

/-- All blocks but the one at `p` are the program's, with their contents. -/
def spared (p : Nat) (w w' : World) : Prop :=
  ∀ q n, w.live q = some n → q ≠ p →
    w'.live q = some n ∧ ∀ k < n, w'.heap.mem (q + k) = w.heap.mem (q + k)

theorem spared_of {M : Set Nat} {p : Nat} (sane : Sane w) (same : Same M w.heap w'.heap)
    (kept : ∀ q, (w.live q).isSome → q ≠ p → w'.live q = w.live q)
    (sub : ∀ x ∈ used w.live, x + memh ≠ p → x ∈ M) : spared p w w' := by
  intro q n given other
  obtain ⟨x, at', inUse, enough⟩ := sane.block given
  rw [at'] at other
  obtain ⟨_, bytes⟩ := same x (sub x inUse other)
  refine ⟨?_, ?_⟩
  · rw [kept q (by rw [given]; rfl) (at' ▸ other), given]
  · intro k less
    rw [at']
    exact bytes (x + memh + k) (by omega) (by omega)

/-- A block that was taken for `v` bytes holds `n` of them. -/
theorem Taken.sane {n v : Nat} (taken : Taken w.heap out F' (used w.live) (units v) x) (sane : Sane w) (le : n ≤ v) :
    Sane ⟨out.2, put w.live (x + memh) (some n)⟩ := by
  constructor
  · refine ⟨F', ?_⟩
    show Inv out.2 F' (used (put w.live (x + memh) (some n)))
    rw [used_put]
    exact taken.inv
  · intro r k given
    by_cases here : r = x + memh
    · have enough := units_enough v
      rw [here] at given
      have same : some n = some k := (put_same w.live (x + memh) (some n)).symm.trans given
      injection same with same
      refine ⟨x, here, ?_⟩
      show k + memh ≤ out.2.size x * memh
      rw [taken.size]
      omega
    · have old : w.live r = some k := (put_ne w.live (some n) here).symm.trans given
      obtain ⟨b, at', inUse, enough⟩ := sane.block old
      refine ⟨b, at', ?_⟩
      show k + memh ≤ out.2.size b * memh
      rw [(taken.same b inUse).1]
      exact enough

theorem Taken.fresh {v : Nat} (taken : Taken w.heap out F' (used w.live) (units v) x) : w.live (x + memh) = none := by
  cases given : w.live (x + memh) with
  | none => rfl
  | some n =>
    refine absurd ?_ taken.new
    show (w.live (x + memh)).isSome = true
    rw [given]
    rfl

theorem Taken.spares {v n p : Nat} (taken : Taken w.heap out F' (used w.live) (units v) x) (sane : Sane w) :
    spared p w ⟨out.2, put w.live (x + memh) (some n)⟩ := by
  apply spared_of sane taken.same
  · intro q given _
    apply put_ne
    intro same
    rw [same, taken.fresh] at given
    cases given
  · exact fun b inUse _ => inUse

theorem Freed.sane (freed : Freed w.heap h' F F' (used w.live) x) (sane : Sane w) :
    Sane ⟨h', put w.live (x + memh) none⟩ := by
  constructor
  · refine ⟨F', ?_⟩
    show Inv h' F' (used (put w.live (x + memh) none))
    rw [used_none]
    exact freed.inv
  · intro r n given
    by_cases here : r = x + memh
    · rw [here] at given
      have no : (none : Option Nat) = some n := (put_same w.live (x + memh) none).symm.trans given
      cases no
    · have old : w.live r = some n := (put_ne w.live none here).symm.trans given
      obtain ⟨b, at', inUse, enough⟩ := sane.block old
      refine ⟨b, at', ?_⟩
      show n + memh ≤ h'.size b * memh
      rw [freed.sizes b inUse (by omega)]
      exact enough

theorem Freed.spares (freed : Freed w.heap h' F F' (used w.live) x) (inv : Inv w.heap F (used w.live)) (sane : Sane w) :
    spared (x + memh) w ⟨h', put w.live (x + memh) none⟩ := by
  apply spared_of sane (freed.same inv)
  · intro q _ other
    exact put_ne _ _ other
  · intro b inUse other
    refine ⟨inUse, ?_⟩
    intro same
    exact other (congrArg (· + memh) same)

/-! ## What the calls promise -/

/-- The block the call is given. -/
def passes : Action → Nat
  | .realloc _ ptr _ => ptr
  | .free ptr => ptr
  | .write ptr _ _ => ptr
  | _ => NULL

/-- A block at `r` is new, and it is the program's from now on. -/
def fulfils (w : World) (r : Nat) (w' : World) : Action → Prop
  | .malloc _ size => r ≠ NULL → w.live r = none ∧ w'.live r = some size
  | .calloc _ elm sz =>
    r ≠ NULL → w.live r = none ∧ w'.live r = some (elm * sz) ∧ ∀ k < elm * sz, w'.heap.mem (r + k) = 0
  | .realloc _ ptr size =>
    size ≠ 0 →
      (r ≠ NULL → (r = ptr ∨ w.live r = none) ∧ w'.live r = some size ∧
        ∀ n, w.live ptr = some n → ∀ k, k < n → k < size → w'.heap.mem (r + k) = w.heap.mem (ptr + k)) ∧
      (r = NULL → ∀ n, w.live ptr = some n →
        w'.live ptr = some n ∧ ∀ k < n, w'.heap.mem (ptr + k) = w.heap.mem (ptr + k))
  | .free ptr => w'.live ptr = none
  | .write ptr off byte => w'.live = w.live ∧ w'.heap.mem = put w.heap.mem (ptr + off) byte

structure Outcome (w : World) (a : Action) (r : Nat) (w' : World) : Prop where
  sane : Sane w'
  spares : spared (passes a) w w'
  done : fulfils w r w' a

/-- The product of `calloc` does not wrap, or no block is there for what it wraps to; `realloc` can
count the units, and they are in the block already or there is another one. -/
def fair (w : World) : Action → Prop
  | .calloc grants elm sz => elm * sz < TOP ∨ ¬ room w.heap grants (elm * sz % TOP)
  | .realloc grants ptr size =>
    size = 0 ∨ ptr = NULL ∨
      size + memh + memh - 1 < TOP ∧ (units size ≤ w.heap.size (MH ptr) ∨ room w.heap grants size)
  | _ => True

omit [Machine] in
theorem hand_null (live : Nat → Option Nat) (n : Nat) : hand live NULL n = live := if_pos rfl

theorem hand_at (live : Nat → Option Nat) (x n : Nat) : hand live (x + memh) n = put live (x + memh) (some n) := by
  have pos := memh_pos
  apply if_neg
  unfold NULL
  omega

theorem null_of (x : Nat) : x + memh ≠ NULL := by
  have pos := memh_pos
  unfold NULL
  omega

omit [Machine] in
theorem spared_refl (p : Nat) (w : World) : spared p w w := fun _ _ given _ => ⟨given, fun _ _ => rfl⟩

theorem malloc_outcome (sane : Sane w) (grants : Nat → Bool) {size : Nat} (legal : size < TOP) :
    ∃ r w', Returns (fun fuel => (Action.malloc grants size).apply fuel w) (r, w') ∧
      Outcome w (.malloc grants size) r w' := by
  obtain ⟨F, inv⟩ := sane.inv
  by_cases fits : room w.heap grants size
  · obtain ⟨out, F', x, returned, taken⟩ := malloc_takes inv fits
    refine ⟨x + memh, ⟨out.2, put w.live (x + memh) (some size)⟩, ?_, ?_⟩
    · have done := returned.map (h := fun out : Nat × Heap => (out.1, World.mk out.2 (hand w.live out.1 size)))
      rw [taken.pointer, hand_at] at done
      exact done
    · constructor
      · exact taken.sane sane le_rfl
      · exact taken.spares sane
      · intro _
        exact ⟨taken.fresh, put_same _ _ _⟩
  · have returned := malloc_null inv legal fits
    refine ⟨NULL, w, ?_, ?_⟩
    · have done := returned.map (h := fun out : Nat × Heap => (out.1, World.mk out.2 (hand w.live out.1 size)))
      rw [hand_null] at done
      exact done
    · constructor
      · exact sane
      · exact spared_refl _ w
      · intro no
        exact absurd rfl no

theorem MH_at (sane : Sane w) {x : Nat} (inUse : x ∈ used w.live) : MH (x + memh) = x := by
  obtain ⟨F, inv⟩ := sane.inv
  exact MH_eq ((inv.lay.below (Or.inr inUse)).trans inv.top)

theorem calloc_outcome (sane : Sane w) (grants : Nat → Bool) (elm sz : Nat) :
    ∃ r w', Returns (fun fuel => (Action.calloc grants elm sz).apply fuel w) (r, w') ∧
      (fair w (.calloc grants elm sz) → Outcome w (.calloc grants elm sz) r w') := by
  obtain ⟨F, inv⟩ := sane.inv
  have within : elm * sz % TOP < TOP := Nat.mod_lt _ TOP_pos
  by_cases fits : room w.heap grants (elm * sz % TOP)
  · obtain ⟨out, F', x, returned, taken⟩ := malloc_takes inv fits
    have enough := units_enough (elm * sz % TOP)
    have filled : Taken w.heap (out.1, memset out.2 out.1 0 (elm * sz % TOP)) F' (used w.live)
        (units (elm * sz % TOP)) x := by
      apply taken.fill
      intro k outside
      apply if_neg
      rw [taken.pointer]
      omega
    refine ⟨x + memh, ⟨memset out.2 (x + memh) 0 (elm * sz % TOP), put w.live (x + memh) (some (elm * sz))⟩, ?_, ?_⟩
    · have done := (returned.map (h := fun out : Nat × Heap =>
        if out.1 = NULL then out else (out.1, memset out.2 out.1 0 (elm * sz % TOP)))).map
          (h := fun out : Nat × Heap => (out.1, World.mk out.2 (hand w.live out.1 (elm * sz))))
      simp only [taken.pointer, if_neg (null_of x), hand_at] at done
      exact done
    · intro fine
      have whole : elm * sz % TOP = elm * sz := Nat.mod_eq_of_lt (fine.resolve_right fun no => no fits)
      rw [taken.pointer] at filled
      constructor
      · exact filled.sane sane (by omega)
      · exact filled.spares sane
      · intro _
        refine ⟨taken.fresh, put_same _ _ _, ?_⟩
        intro k less
        exact if_pos ⟨by omega, by omega⟩
  · have returned := malloc_null inv within fits
    refine ⟨NULL, w, ?_, ?_⟩
    · have done := (returned.map (h := fun out : Nat × Heap =>
        if out.1 = NULL then out else (out.1, memset out.2 out.1 0 (elm * sz % TOP)))).map
          (h := fun out : Nat × Heap => (out.1, World.mk out.2 (hand w.live out.1 (elm * sz))))
      rw [if_pos rfl, hand_null] at done
      exact done
    · intro _
      constructor
      · exact sane
      · exact spared_refl _ w
      · intro no
        exact absurd rfl no

theorem free_outcome (sane : Sane w) {ptr : Nat} (legal : ptr = NULL ∨ (w.live ptr).isSome) :
    ∃ h', Returns (fun fuel => free fuel w.heap ptr) h' ∧ Sane ⟨h', put w.live ptr none⟩ ∧
      spared ptr w ⟨h', put w.live ptr none⟩ := by
  obtain ⟨F, inv⟩ := sane.inv
  by_cases isNull : ptr = NULL
  · refine ⟨w.heap, ?_, ?_, ?_⟩
    · refine ⟨0, ?_⟩
      intro fuel _
      exact if_pos isNull
    · have same : put w.live ptr none = w.live := by
        rw [isNull, ← sane.null]
        exact put_self w.live NULL
      rw [same]
      exact sane
    · intro q n given other
      exact ⟨(put_ne _ _ other).trans given, fun _ _ => rfl⟩
  · obtain ⟨n, given⟩ := Option.isSome_iff_exists.mp (legal.resolve_left isNull)
    obtain ⟨x, rfl, inUse, _⟩ := sane.block given
    obtain ⟨F', h', returned, freed⟩ := free_freed inv inUse
    exact ⟨h', returned, freed.sane sane, freed.spares inv sane⟩

/-- `realloc` of a block that is large enough. -/
theorem shrink_outcome {n size : Nat} (sane : Sane w) (given : w.live (x + memh) = some n)
    (enough : size + memh ≤ w.heap.size x * memh) :
    Outcome w (.realloc grants (x + memh) size) (x + memh) ⟨w.heap, put w.live (x + memh) (some size)⟩ := by
  constructor
  · constructor
    · obtain ⟨F, inv⟩ := sane.inv
      refine ⟨F, ?_⟩
      have inUse : x ∈ used w.live := by
        show (w.live (x + memh)).isSome = true
        rw [given]
        rfl
      show Inv w.heap F (used (put w.live (x + memh) (some size)))
      rw [used_put, Set.insert_eq_of_mem inUse]
      exact inv
    · intro r k now
      by_cases here : r = x + memh
      · rw [here] at now
        have same : some size = some k := (put_same w.live (x + memh) (some size)).symm.trans now
        injection same with same
        exact ⟨x, here, same ▸ enough⟩
      · exact sane.holds r k ((put_ne w.live (some size) here).symm.trans now)
  · intro q k now other
    exact ⟨(put_ne _ _ other).trans now, fun _ _ => rfl⟩
  · intro _
    refine ⟨?_, ?_⟩
    · intro _
      exact ⟨Or.inl rfl, put_same _ _ _, fun _ _ _ _ _ => rfl⟩
    · intro no
      exact absurd no (null_of x)

/-- The old block is copied to a new one and freed. -/
theorem move_outcome {n size : Nat} (sane : Sane w) (given : w.live (x + memh) = some n)
    (large : w.heap.size x < units size) (fits : room w.heap grants size) :
    ∃ y h', Returns (fun fuel => (malloc grants fuel w.heap size).bind fun out =>
        if out.1 = NULL then some (x + memh, out.2)
        else (free fuel (memcpy out.2 out.1 (x + memh) (out.2.size x * memh % TOP)) (x + memh)).map
          fun h => (out.1, h)) (y + memh, h') ∧
      Outcome w (.realloc grants (x + memh) size) (y + memh)
        ⟨h', put (put w.live (x + memh) none) (y + memh) (some size)⟩ := by
  obtain ⟨F, inv⟩ := sane.inv
  obtain ⟨x', at', inUse, holds⟩ := sane.block given
  have same : x = x' := by omega
  subst same
  obtain ⟨out, F', y, returned, taken⟩ := malloc_takes inv fits
  have sizeX : out.2.size x = w.heap.size x := (taken.same x inUse).1
  have ends := inv.lay.ends (Or.inr inUse)
  have top := inv.top
  have whole : out.2.size x * memh % TOP = w.heap.size x * memh := by
    rw [sizeX]
    exact Nat.mod_eq_of_lt (by omega)
  have step : w.heap.size x * memh + memh ≤ units size * memh := by
    have grows : (w.heap.size x + 1) * memh ≤ units size * memh := Nat.mul_le_mul_right memh large
    rw [Nat.add_mul, Nat.one_mul] at grows
    exact grows
  have enough := units_enough size
  have copied : Taken w.heap (out.1, memcpy out.2 out.1 (x + memh) (w.heap.size x * memh)) F' (used w.live)
      (units size) y := by
    apply taken.fill
    intro k outside
    apply if_neg
    rw [taken.pointer]
    omega
  rw [taken.pointer] at copied
  have other : y ≠ x := fun same => taken.new (same ▸ inUse)
  obtain ⟨F'', h', returned', freed⟩ := free_freed copied.inv (Set.mem_insert_of_mem y inUse)
  have sameAfter := freed.same copied.inv
  have memY : y ∈ insert y (used w.live) \ {x} := ⟨Set.mem_insert y _, other⟩
  refine ⟨y, h', ?_, ?_⟩
  · have done := returned'.map (h := fun h => (y + memh, h))
    apply returned.bind (g := fun out fuel => if out.1 = NULL then some (x + memh, out.2)
      else (free fuel (memcpy out.2 out.1 (x + memh) (out.2.size x * memh % TOP)) (x + memh)).map
        fun h => (out.1, h))
    simp only [taken.pointer, if_neg (null_of y), whole]
    exact done
  · have comm : put (put w.live (x + memh) none) (y + memh) (some size) =
        put (put w.live (y + memh) (some size)) (x + memh) none :=
      put_comm w.live none (some size) (by omega)
    constructor
    · have first := copied.sane sane (le_refl size)
      rw [comm]
      have gone : Freed (memcpy out.2 (y + memh) (x + memh) (w.heap.size x * memh)) h' F' F''
          (used (put w.live (y + memh) (some size))) x := by
        rw [used_put]
        exact freed
      exact gone.sane first
    · apply spared_of sane (M := used w.live \ {x})
      · apply copied.same.mono Set.sdiff_subset |>.trans
        apply sameAfter.mono
        intro b hb
        exact ⟨Set.mem_insert_of_mem y hb.1, hb.2⟩
      · intro q now notX
        have notY : q ≠ y + memh := by
          intro same
          rw [same, taken.fresh] at now
          cases now
        exact (put_ne _ _ notY).trans (put_ne _ _ notX)
      · intro b hb apart
        exact ⟨hb, fun isX => apart (congrArg (· + memh) isX)⟩
    · intro _
      refine ⟨?_, ?_⟩
      · intro _
        refine ⟨Or.inr taken.fresh, put_same _ _ _, ?_⟩
        intro n' now k less less'
        have sameN : n' = n := Option.some.inj (now.symm.trans given)
        have kept := (sameAfter y memY).2 (y + memh + k) (by omega) (by rw [copied.size]; omega)
        have read := (taken.same x inUse).2 (x + memh + k) (by omega) (by omega)
        have copy : (memcpy out.2 (y + memh) (x + memh) (w.heap.size x * memh)).mem (y + memh + k) =
            out.2.mem (x + memh + k) := by
          refine (if_pos ⟨by omega, by omega⟩).trans ?_
          congr 1
          omega
        exact kept.trans (copy.trans read)
      · intro no
        exact absurd no (null_of y)

theorem realloc_outcome (sane : Sane w) (grants : Nat → Bool) {ptr size : Nat}
    (legal : legal w (.realloc grants ptr size)) :
    ∃ r w', Returns (fun fuel => (Action.realloc grants ptr size).apply fuel w) (r, w') ∧
      (fair w (.realloc grants ptr size) → Outcome w (.realloc grants ptr size) r w') := by
  obtain ⟨passed, within⟩ := legal
  by_cases zero : size = 0
  · obtain ⟨h', returned, sane', spares⟩ := free_outcome sane passed
    refine ⟨NULL, ⟨h', put w.live ptr none⟩, ?_, ?_⟩
    · have done := (returned.map (h := fun h => (NULL, h))).map (h := fun out : Nat × Heap =>
        (out.1, World.mk out.2 (put w.live ptr none)))
      simp only [Action.apply, realloc, if_pos zero]
      exact done
    · intro _
      exact ⟨sane', spares, fun no => absurd zero no⟩
  · by_cases isNull : ptr = NULL
    · obtain ⟨r, w', returned, outcome⟩ := malloc_outcome sane grants within
      have none' : put w.live ptr none = w.live := by
        rw [isNull, ← sane.null]
        exact put_self w.live NULL
      refine ⟨r, w', ?_, ?_⟩
      · have same : (fun fuel => (Action.realloc grants ptr size).apply fuel w) =
            fun fuel => (Action.malloc grants size).apply fuel w := by
          funext fuel
          simp only [Action.apply, realloc, if_neg zero, if_pos isNull, none']
          congr 1
          funext out
          by_cases no : out.1 = NULL
          · rw [if_pos no, hand, if_pos no]
          · rw [if_neg no]
        rw [same]
        exact returned
      · intro _
        constructor
        · exact outcome.sane
        · intro q n given _
          have notNull : q ≠ NULL := by
            intro same
            rw [same, sane.null] at given
            cases given
          exact outcome.spares q n given notNull
        · intro _
          refine ⟨?_, ?_⟩
          · intro some
            obtain ⟨fresh, now⟩ := outcome.done some
            refine ⟨Or.inr fresh, now, ?_⟩
            intro n given
            rw [isNull, sane.null] at given
            cases given
          · intro _ n given
            rw [isNull, sane.null] at given
            cases given
    · obtain ⟨n, given⟩ := Option.isSome_iff_exists.mp (passed.resolve_left isNull)
      obtain ⟨x, rfl, inUse, holds⟩ := sane.block given
      have atX := MH_at sane inUse
      obtain ⟨F, inv⟩ := sane.inv
      have one : 1 ≤ w.heap.size x := by
        have notRoot : x ≠ root := fun same => inv.lay.rootFree (same ▸ inUse)
        exact (inv.lay.within x (Or.inr inUse) notRoot).2.2.1
      by_cases small : (size + memh + memh - 1) % TOP / memh ≤ w.heap.size x
      · -- the block stays, also where the number of units wrapped
        refine ⟨x + memh, ⟨w.heap, put w.live (x + memh) (some size)⟩, ?_, ?_⟩
        · refine ⟨0, ?_⟩
          intro fuel _
          have stays : realloc grants fuel w.heap (x + memh) size = some (x + memh, w.heap) := by
            simp only [realloc, if_neg zero, if_neg isNull, atX]
            by_cases same : (size + memh + memh - 1) % TOP / memh = w.heap.size x
            · exact if_pos same
            · rw [if_neg same]
              exact if_pos (by omega)
          simp only [Action.apply, stays, Option.map_some, if_neg zero, if_neg (null_of x), hand_at, put_put]
        · intro fine
          obtain ⟨counted, _⟩ := (fine.resolve_left zero).resolve_left isNull
          rw [Nat.mod_eq_of_lt counted] at small
          apply shrink_outcome sane given
          have grows : units size * memh ≤ w.heap.size x * memh := Nat.mul_le_mul_right memh small
          have enough := units_enough size
          omega
      · have counted : size + memh + memh - 1 < TOP := by
          by_contra wraps
          have limit := memh_small
          have pos := memh_pos
          apply small
          rw [Nat.mod_eq_sub_mod (by omega), Nat.mod_eq_of_lt (by omega)]
          have less : (size + memh + memh - 1 - TOP) / memh < 2 := by
            rw [Nat.div_lt_iff_lt_mul pos]
            omega
          omega
        rw [Nat.mod_eq_of_lt counted] at small
        have large : w.heap.size x < units size := by
          unfold units
          omega
        have goes : ∀ fuel, realloc grants fuel w.heap (x + memh) size =
            (malloc grants fuel w.heap size).bind fun out =>
              if out.1 = NULL then some (x + memh, out.2)
              else (free fuel (memcpy out.2 out.1 (x + memh) (out.2.size x * memh % TOP)) (x + memh)).map
                fun h => (out.1, h) := by
          intro fuel
          simp only [realloc, if_neg zero, if_neg isNull, atX, Nat.mod_eq_of_lt counted]
          rw [if_neg (by omega), if_neg (by omega)]
        by_cases fits : room w.heap grants size
        · obtain ⟨y, h', returned, outcome⟩ := move_outcome sane given large fits
          refine ⟨y + memh, _, ?_, fun _ => outcome⟩
          have done := returned.map (h := fun out : Nat × Heap =>
            (out.1, World.mk out.2 (if size = 0 then put w.live (x + memh) none
              else if out.1 = NULL then w.live else hand (put w.live (x + memh) none) out.1 size)))
          simp only [if_neg zero, if_neg (null_of y), hand_at] at done
          simp only [Action.apply, goes, if_neg zero]
          exact done
        · refine ⟨x + memh, ⟨w.heap, put w.live (x + memh) (some size)⟩, ?_, ?_⟩
          · obtain ⟨least, enough⟩ := malloc_null inv within fits
            refine ⟨least, ?_⟩
            intro fuel le
            have null : malloc grants fuel w.heap size = some (NULL, w.heap) := enough fuel le
            simp only [Action.apply, goes, null, Option.bind_some, if_true, Option.map_some, if_neg zero,
              if_neg (null_of x), hand_at, put_put]
          · intro fine
            obtain ⟨_, held | free⟩ := (fine.resolve_left zero).resolve_left isNull
            · rw [atX] at held
              omega
            · exact absurd free fits

theorem write_outcome (sane : Sane w) {ptr off : Nat} {byte : UInt8} (legal : legal w (.write ptr off byte)) :
    Outcome w (.write ptr off byte) NULL
      ⟨{ w.heap with mem := put w.heap.mem (ptr + off) byte }, w.live⟩ := by
  obtain ⟨F, inv⟩ := sane.inv
  cases given : w.live ptr with
  | none =>
    have less : off < (w.live ptr).getD 0 := legal
    rw [given] at less
    exact absurd less (Nat.not_lt_zero off)
  | some n =>
    have less : off < (w.live ptr).getD 0 := legal
    rw [given] at less
    have below : off < n := less
    obtain ⟨x, rfl, inUse, enough⟩ := sane.block given
    obtain ⟨inv', sizes, same⟩ := inv.fill inUse (m := put w.heap.mem (x + memh + off) byte) (by
      intro k outside
      apply put_ne
      omega)
    constructor
    · refine ⟨⟨F, inv'⟩, ?_⟩
      intro r k now
      obtain ⟨b, at', used, holds⟩ := sane.block now
      refine ⟨b, at', ?_⟩
      have sizeB := sizes b (Or.inr used)
      show k + memh ≤ Heap.size _ b * memh
      rw [sizeB]
      exact holds
    · apply spared_of sane same
      · intro q _ _
        rfl
      · exact fun b used apart => ⟨used, fun isX => apart (congrArg (· + memh) isX)⟩
    · exact ⟨rfl, rfl⟩

/-- Every call returns, and a fair one does what it promises. -/
theorem call_returns (sane : Sane w) (allowed : legal w a) :
    ∃ r w', Returns (fun fuel => a.apply fuel w) (r, w') ∧ (fair w a → Outcome w a r w') := by
  cases a with
  | malloc grants size =>
    obtain ⟨r, w', returned, outcome⟩ := malloc_outcome sane grants allowed
    exact ⟨r, w', returned, fun _ => outcome⟩
  | calloc grants elm sz => exact calloc_outcome sane grants elm sz
  | realloc grants ptr size => exact realloc_outcome sane grants allowed
  | free ptr =>
    obtain ⟨h', returned, sane', spares⟩ := free_outcome sane allowed
    refine ⟨NULL, ⟨h', put w.live ptr none⟩, ?_, ?_⟩
    · exact returned.map (h := fun h => (NULL, World.mk h (put w.live ptr none)))
    · intro _
      exact ⟨sane', spares, put_same _ _ _⟩
  | write ptr off byte => exact ⟨NULL, _, Returns.pure _, fun _ => write_outcome sane allowed⟩

/-! ## More fuel -/

theorem seek_steady (h : Heap) (x p : Nat) : Steady (fun fuel => seek h x fuel p) := by
  intro fuel q done
  induction fuel generalizing p with
  | zero => cases done
  | succ fuel ih =>
    by_cases stop : stops h x p
    · have here : seek h x (fuel + 1) p = some q := done
      rw [seek_here stop] at here
      show seek h x (fuel + 1 + 1) p = some q
      rw [seek_here stop, here]
    · have on : seek h x (fuel + 1) p = some q := done
      rw [seek_on stop] at on
      show seek h x (fuel + 1 + 1) p = some q
      rw [seek_on stop]
      exact ih (h.next p) on

theorem free_steady (h : Heap) (ptr : Nat) : Steady (fun fuel => free fuel h ptr) :=
  Steady.ite (Steady.pure h) (seek_steady h (MH ptr) h.mfreeptr).map

theorem brkmore_steady (grants : Nat → Bool) (h : Heap) (nb : Nat) : Steady (fun fuel => brkmore grants fuel h nb) :=
  Steady.ite (Steady.pure _) (Steady.ite (Steady.pure _) (Steady.ite (Steady.pure _) (free_steady _ _).map))

theorem search_steady (grants : Nat → Bool) (nb : Nat) (h : Heap) (prev p : Nat) :
    Steady (fun fuel => search grants nb fuel h prev p) := by
  intro fuel out done
  induction fuel generalizing h prev p with
  | zero => cases done
  | succ fuel ih =>
    have before : search grants nb (fuel + 1) h prev p = some out := done
    show search grants nb (fuel + 1 + 1) h prev p = some out
    rw [search] at before ⊢
    by_cases large : nb ≤ h.size p
    · rw [if_pos large] at before ⊢
      exact before
    · rw [if_neg large] at before ⊢
      by_cases back : p = h.mfreeptr
      · rw [if_pos back] at before ⊢
        obtain ⟨got, first, rest⟩ := Option.bind_eq_some_iff.mp before
        refine Option.bind_eq_some_iff.mpr ⟨got, brkmore_steady grants h nb fuel got first, ?_⟩
        by_cases null : got.1 = NULL
        · rw [if_pos null] at rest ⊢
          exact rest
        · rw [if_neg null] at rest ⊢
          exact ih _ _ _ rest
      · rw [if_neg back] at before ⊢
        exact ih _ _ _ before

theorem malloc_steady (grants : Nat → Bool) (h : Heap) (size : Nat) : Steady (fun fuel => malloc grants fuel h size) :=
  Steady.ite (Steady.pure _) (search_steady _ _ _ _ _)

theorem realloc_steady (grants : Nat → Bool) (h : Heap) (ptr size : Nat) :
    Steady (fun fuel => realloc grants fuel h ptr size) := by
  refine Steady.ite (free_steady h ptr).map (Steady.ite (malloc_steady grants h size) (Steady.ite (Steady.pure _)
    (Steady.ite (Steady.pure _) ((malloc_steady grants h size).bind ?_))))
  intro out
  exact Steady.ite (Steady.pure _) (free_steady _ _).map

theorem apply_steady (a : Action) (w : World) : Steady (fun fuel => a.apply fuel w) := by
  cases a with
  | malloc grants size => exact (malloc_steady _ _ _).map
  | calloc grants elm sz => exact (malloc_steady _ _ _).map.map
  | realloc grants ptr size => exact (realloc_steady _ _ _ _).map
  | free ptr => exact (free_steady _ _).map
  | write ptr off byte => exact Steady.pure _

theorem step_outcome {r : Nat} (sane : Sane w) (allowed : legal w a) (fine : fair w a) (step : Step w a r w') :
    Outcome w a r w' := by
  obtain ⟨r₁, w₁, returned, outcome⟩ := call_returns sane allowed
  obtain ⟨fuel, done⟩ := step
  have same := ((apply_steady a w).returns done).unique returned
  injection same with sameR sameW
  rw [sameR, sameW]
  exact outcome fine

/-! ## Runs -/

/-- The blocks are aligned, in the memory from `brk`, as large as they were asked for, and apart
from each other, from the headers and from the free blocks; the list is one cycle in the order of
the addresses, and no two of its blocks could be merged. -/
structure Sound (w : World) : Prop where
  aligned : ∀ r n, w.live r = some n → memh ∣ r
  inside : ∀ r n, w.live r = some n → start + memh ≤ r ∧ r + n ≤ w.heap.brk
  large : ∀ r n, w.live r = some n → n ≤ (w.heap.size (r - memh) - 1) * memh
  apart : ∀ r n r' n', w.live r = some n → w.live r' = some n' → r < r' → r + n + memh ≤ r'
  list : ∃ F : Finset Nat, root ∈ F ∧ w.heap.mfreeptr ∈ F ∧ IsCycle F w.heap.next ∧ Unmerged memh F w.heap.size ∧
    (∀ a ∈ F, a ≠ root → start ≤ a ∧ a + w.heap.size a * memh ≤ w.heap.brk) ∧
    ∀ a ∈ F, ∀ r n, w.live r = some n →
      (a + memh + memh ≤ r ∨ r + n ≤ a) ∧ (a + w.heap.size a * memh + memh ≤ r ∨ r + n ≤ a)

theorem Sane.sound (sane : Sane w) : Sound w := by
  obtain ⟨F, inv⟩ := sane.inv
  have notRoot : ∀ x, x ∈ used w.live → x ≠ root := fun x inUse same => inv.lay.rootFree (same ▸ inUse)
  constructor
  · intro r n given
    obtain ⟨x, rfl, inUse, _⟩ := sane.block given
    obtain ⟨_, multiple, _⟩ := inv.lay.within x (Or.inr inUse) (notRoot x inUse)
    exact Nat.dvd_add multiple (Nat.dvd_refl memh)
  · intro r n given
    obtain ⟨x, rfl, inUse, enough⟩ := sane.block given
    obtain ⟨low, _, _, high⟩ := inv.lay.within x (Or.inr inUse) (notRoot x inUse)
    exact ⟨by omega, by omega⟩
  · intro r n given
    obtain ⟨x, rfl, inUse, enough⟩ := sane.block given
    rw [Nat.add_sub_cancel, Nat.sub_mul, Nat.one_mul]
    omega
  · intro r n r' n' given given' less
    obtain ⟨x, rfl, inUse, enough⟩ := sane.block given
    obtain ⟨x', rfl, inUse', _⟩ := sane.block given'
    have far := inv.lay.apart x x' (Or.inr inUse) (Or.inr inUse') (by omega)
    omega
  · refine ⟨F, inv.lay.rooted, inv.free, inv.cycle, inv.clean, ?_, ?_⟩
    · intro a ha other
      obtain ⟨low, _, _, high⟩ := inv.lay.within a (Or.inl ha) other
      exact ⟨low, high⟩
    · intro a ha r n given
      obtain ⟨x, rfl, inUse, enough⟩ := sane.block given
      rcases Nat.lt_trichotomy a x with less | same | more
      · have header := inv.lay.headers (Or.inl ha) (Or.inr inUse) less
        have far := inv.lay.apart a x (Or.inl ha) (Or.inr inUse) less
        exact ⟨Or.inl (by omega), Or.inl (by omega)⟩
      · exact absurd inUse (same ▸ inv.lay.exclusive a ha)
      · have far := inv.lay.apart x a (Or.inr inUse) (Or.inl ha) more
        exact ⟨Or.inr (by omega), Or.inr (by omega)⟩

theorem sane_initial (aligned : memh ∣ start) (mem : Memory) : Sane (initial mem) := by
  have low : root + memh ≤ start := Machine.low
  have fits : start < TOP := Machine.fits
  have pos := memh_pos
  have spaced : Spaced {root} := by
    intro a ha b hb less
    have sameA : a = root := ha
    have sameB : b = root := hb
    omega
  have linked := (Reads.refl ⟨mem, root, start⟩ {root}).setNext spaced rfl (by omega : root < TOP)
  have sized := linked.setSize spaced rfl TOP_pos
  have next := sized.next root rfl
  have size := sized.size root rfl
  rw [put_same] at next size
  have none' : used (initial mem).live = ∅ := by
    ext b
    simp [used, initial]
  constructor
  · refine ⟨{root}, ?_⟩
    rw [none']
    constructor
    · constructor
      · exact Finset.mem_singleton_self root
      · exact size
      · exact low
      · exact pos
      · intro a ha other
        rcases ha with free | no
        · exact absurd (Finset.mem_singleton.mp free) other
        · exact absurd no (Set.notMem_empty a)
      · exact Set.notMem_empty root
      · intro a b ha hb less
        rcases ha with freeA | no
        · rcases hb with freeB | no
          · rw [Finset.mem_singleton.mp freeA, Finset.mem_singleton.mp freeB] at less
            exact absurd less (lt_irrefl root)
          · exact absurd no (Set.notMem_empty b)
        · exact absurd no (Set.notMem_empty a)
      · intro a _
        exact Set.notMem_empty a
      · exact le_refl start
      · exact aligned
    · constructor
      · intro a ha
        rw [Finset.mem_singleton.mp ha]
        exact Finset.mem_singleton.mpr next
      · intro a ha
        rw [Finset.mem_singleton.mp ha]
        right
        have here : (initial mem).heap.next root = root := next
        refine ⟨here.le, ?_⟩
        intro c hc
        rw [Finset.mem_singleton.mp hc]
        exact ⟨here.le, le_refl root⟩
    · intro a ha b hb other
      rw [Finset.mem_singleton.mp ha, Finset.mem_singleton.mp hb] at other
      exact absurd rfl other
    · exact Finset.mem_singleton_self root
    · exact fits
  · intro r n no
    cases no

/-- After every run of fair calls the heap is sound and all calls return; a fair one keeps it
sound, does what it promises, and spares all other blocks. -/
theorem heap_calls {mem : Memory} {as : List Action} (aligned : memh ∣ start)
    (run : Steps (fun w a w' => legal w a ∧ fair w a ∧ ∃ r, Step w a r w') (initial mem) as w) :
    Sound w ∧ ∀ a, legal w a → (∃ r w', Returns (fun fuel => a.apply fuel w) (r, w')) ∧
      (fair w a → ∀ r w', Step w a r w' → Sound w' ∧ fulfils w r w' a ∧ spared (passes a) w w') := by
  have sane : Sane w := by
    apply run.keeps (I := Sane) _ (sane_initial aligned mem)
    rintro s a t before ⟨allowed, fine, r, step⟩
    exact (step_outcome before allowed fine step).sane
  refine ⟨sane.sound, ?_⟩
  intro a allowed
  constructor
  · obtain ⟨r, w', returned, _⟩ := call_returns sane allowed
    exact ⟨r, w', returned⟩
  · intro fine r w' step
    have outcome := step_outcome sane allowed fine step
    exact ⟨outcome.sane.sound, outcome.done, outcome.spares⟩

end

/-! ## One machine -/

/-- A machine with pointers of 16 bits, the low byte first. -/
@[reducible] def little : Machine where
  width := 2
  big := false
  root := 256
  start := 512
  wide := Nat.le_refl 2
  rooted := by decide
  low := by decide
  fits := by decide

/-- What `fair` says of a call where no block of the list is looked at. -/
def plain [Machine] (w : World) : Action → Prop
  | .calloc _ elm sz => elm * sz < TOP
  | .realloc grants ptr size =>
    size + memh + memh - 1 < TOP ∧ (units size ≤ w.heap.size (MH ptr) ∨ more w.heap grants (units size))
  | _ => True

theorem plain_fair [Machine] {w : World} {a : Action} (simple : plain w a) : fair w a := by
  cases a with
  | malloc grants size => trivial
  | calloc grants elm sz => exact Or.inl simple
  | realloc grants ptr size =>
    obtain ⟨counted, held | given⟩ := simple
    · exact Or.inr (Or.inr ⟨counted, Or.inl held⟩)
    · exact Or.inr (Or.inr ⟨counted, Or.inr ⟨counted, Or.inr given⟩⟩)
  | free ptr => trivial
  | write ptr off byte => trivial

instance decideLegal [Machine] (w : World) : (a : Action) → Decidable (legal w a)
  | .malloc _ _ => inferInstanceAs (Decidable (_ < _))
  | .calloc _ _ _ => inferInstanceAs (Decidable (_ ∧ _))
  | .realloc _ _ _ => inferInstanceAs (Decidable (_ ∧ _))
  | .free _ => inferInstanceAs (Decidable (_ ∨ _))
  | .write _ _ _ => inferInstanceAs (Decidable (_ < _))

instance decideMore [Machine] (h : Heap) (grants : Nat → Bool) (nb : Nat) : Decidable (more h grants nb) :=
  inferInstanceAs (Decidable (_ ∧ _))

instance decidePlain [Machine] (w : World) : (a : Action) → Decidable (plain w a)
  | .malloc _ _ => inferInstanceAs (Decidable True)
  | .calloc _ _ _ => inferInstanceAs (Decidable (_ < _))
  | .realloc _ _ _ => inferInstanceAs (Decidable (_ ∧ _))
  | .free _ => inferInstanceAs (Decidable True)
  | .write _ _ _ => inferInstanceAs (Decidable True)

/-- The state after a call with fuel for a few rounds. -/
def after [Machine] (w : World) (a : Action) : Option World := (a.apply 8 w).map Prod.snd

theorem after_step [Machine] {w w' : World} {a : Action} (done : after w a = some w') : ∃ r, Step w a r w' := by
  obtain ⟨⟨r, w₁⟩, returned, same⟩ := Option.map_eq_some_iff.mp done
  exact ⟨r, 8, same ▸ returned⟩

/-- A block is taken, written, moved to a larger one and freed; the byte is there. -/
theorem heap_calls_session : ∃ (_ : Machine) (mem : Memory) (w : World),
    Steps (fun w a w' => legal w a ∧ fair w a ∧ ∃ r, Step w a r w') (initial mem)
      [.malloc (fun _ => true) 10, .write 1012 3 7, .realloc (fun _ => true) 1012 100, .calloc (fun _ => false) 3 4] w ∧
    w.live 908 = some 100 ∧ w.heap.mem 911 = 7 ∧ Sound w := by
  let machine := little
  have facts : (perform after (fun w a => legal w a ∧ plain w a)
      [.malloc (fun _ => true) 10, .write 1012 3 7, .realloc (fun _ => true) 1012 100, .calloc (fun _ => false) 3 4]
      (initial fun _ => 0)).map (fun w => (w.live 908, w.heap.mem 911)) = some (some 100, 7) := by
    decide +kernel
  obtain ⟨w, done, both⟩ := Option.map_eq_some_iff.mp facts
  obtain ⟨large, byte⟩ := Prod.mk.inj both
  have run : Steps (fun w a w' => legal w a ∧ fair w a ∧ ∃ r, Step w a r w') (initial fun _ => 0) _ w :=
    (perform_steps done).mono fun _ _ _ step => ⟨step.1.1, plain_fair step.1.2, after_step step.2⟩
  exact ⟨machine, fun _ => 0, w, run, large, byte, (heap_calls (by decide) run).1⟩

/-- `realloc` to 1000 bytes finds no memory, and returns the block of 12 bytes. -/
theorem small_block : ∃ (_ : Machine) (mem : Memory) (w : World), memh ∣ start ∧
    Steps (fun w a w' => legal w a ∧ ∃ r, Step w a r w') (initial mem)
      [.malloc (fun _ => true) 10, .realloc (fun _ => false) 1012 1000] w ∧ ¬ Sound w := by
  let machine := little
  have facts : (perform after legal [.malloc (fun _ => true) 10, .realloc (fun _ => false) 1012 1000]
      (initial fun _ => 0)).map (fun w => (w.live 1012, w.heap.brk)) = some (some 1000, 1024) := by
    decide +kernel
  obtain ⟨w, done, both⟩ := Option.map_eq_some_iff.mp facts
  obtain ⟨given, ends⟩ := Prod.mk.inj both
  have run : Steps (fun w a w' => legal w a ∧ ∃ r, Step w a r w') (initial fun _ => 0) _ w :=
    (perform_steps done).mono fun _ _ _ step => ⟨step.1, after_step step.2⟩
  refine ⟨machine, fun _ => 0, w, by decide, run, ?_⟩
  intro sound
  have inside := (sound.inside 1012 1000 given).2
  rw [ends] at inside
  exact absurd inside (by decide)

end Malloc
