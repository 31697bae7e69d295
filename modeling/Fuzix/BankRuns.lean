import Fuzix.BankMoves

/-!
# Runs of a machine with banks and swap

In every run whose steps swap out no process that has exited, and bring a process back only
when there is room for it, the pages have one owner each and every process finds what it
has stored, however often it was swapped out.
-/

set_option linter.unusedSectionVars false

namespace Bank16k

open Table Wp Run

section Machine
variable [Machine]

def Action.step (s : State) (a : Action) (t : State) : Prop :=
  a.enabled s ∧ a.run s = .ok ((), t)

/-- A page `0xFF` would be taken for none, memory is made from processes that are alive, and
a process that is brought back finds room. -/
def Action.sound (s : State) : Action → Prop
  | .add page => page ≠ NO_PAGE
  | .fork _ => ∀ p ∈ freeSlot s,
      spares p (mapsNeeded s.me.top) (slotsLeft s) { s with ptab := put s.ptab p (blank s.me.top) }
  | .switchin p => (s.ptab p).noPage → canReturn s p
  | _ => True

instance (s : State) : (a : Action) → Decidable (a.sound s)
  | .add page => inferInstanceAs (Decidable (page ≠ NO_PAGE))
  | .fork _ => inferInstanceAs (Decidable (∀ p ∈ freeSlot s, spares p (mapsNeeded s.me.top)
      (slotsLeft s) { s with ptab := put s.ptab p (blank s.me.top) }))
  | .switchin p => inferInstanceAs (Decidable ((s.ptab p).noPage → canReturn s p))
  | .addSwap _ | .init | .exec _ | .exit _ | .reap _ | .sched _ _ _ | .select _ | .tick | .low _
  | .swapout _ | .store _ _ _ => isTrue trivial

/-- The step writes the memory of `p`, or changes its map. -/
def Action.own (s : State) (p : Nat) : Action → Prop
  | .exec _ => p = s.cur
  | .store _ _ _ => p = s.cur
  | _ => False

instance (s : State) (p : Nat) : (a : Action) → Decidable (a.own s p)
  | .exec _ => inferInstanceAs (Decidable (p = s.cur))
  | .store _ _ _ => inferInstanceAs (Decidable (p = s.cur))
  | .add _ | .addSwap _ | .init | .fork _ | .exit _ | .reap _ | .sched _ _ _ | .select _ | .tick
  | .low _ | .swapout _ | .switchin _ => isFalse not_false

/-- What holds between two steps. -/
structure Sane (pool : List Nat) (s : State) : Prop where
  kept : Kept pool [] [] s
  cur : s.cur < PTABSIZE
  awake : s.me.status = .running → ¬ s.me.noPage
  tail : s.me.dead → booting s ∨ 0 < s.pfptr

/-- What a step does to what others have stored, and to the disk. -/
structure Stepped (own : Nat → Prop) (s t : State) : Prop where
  image : ∀ r, r < PTABSIZE → ¬ (s.ptab r).dead → ¬ (t.ptab r).dead → ¬ own r →
    ∀ x, swapped x → image t (t.ptab r) x = image s (s.ptab r) x
  blocks : ∀ b o, t.swapdev b o ≠ s.swapdev b o → ∃ r, r < PTABSIZE ∧ (s.ptab r).resident ∧
    (t.ptab r).away ∧ (t.ptab r).page2 * SWAP_SIZE ≤ b ∧
    b < (t.ptab r).page2 * SWAP_SIZE + SWAP_SIZE

section Steps
variable {pool : List Nat} {s t u : State} {p : Nat} {q : Proc} {own : Nat → Prop}

theorem Kept.same {hand lost : List Nat} (kept : Kept pool hand lost s) (ptab : t.ptab = s.ptab)
    (free : freeList t = freeList s) (slots : slotList t = slotList s)
    (disk : t.swapdev = s.swapdev) : Kept pool hand lost t where
  unique := kept.unique
  size := kept.size
  proper := kept.proper
  pages := by
    rw [ptab, free]
    exact kept.pages
  slots := by
    rw [ptab, slots]
    exact kept.slots
  laid := by
    rw [ptab]
    exact kept.laid
  folded := by
    unfold diskByte
    rw [ptab, disk]
    exact kept.folded

/-- An entry changes in what memory has nothing to do with. -/
theorem Kept.relabel {hand lost : List Nat} (kept : Kept pool hand lost s) (hp : p < PTABSIZE)
    (page : q.page = (s.ptab p).page) (top : mapsNeeded q.top = mapsNeeded (s.ptab p).top)
    (alive : q.dead ↔ (s.ptab p).dead) (entry : t.ptab = put s.ptab p q)
    (free : freeList t = freeList s) (slots : slotList t = slotList s)
    (disk : t.swapdev = s.swapdev) : Kept pool hand lost t := by
  have noPage : q.noPage ↔ (s.ptab p).noPage := by
    unfold Proc.noPage
    rw [page]
  have page2 : q.page2 = (s.ptab p).page2 := by
    unfold Proc.page2
    rw [page]
  have resident : q.resident ↔ (s.ptab p).resident := by
    unfold Proc.resident
    rw [alive, noPage]
  have away : q.away ↔ (s.ptab p).away := by
    unfold Proc.away
    rw [alive, noPage]
  have same : held q = held (s.ptab p) := by
    unfold held
    simp only [resident, top, page]
  have slot : slotOf q = slotOf (s.ptab p) := by
    unfold slotOf
    simp only [away, page2]
  refine kept.change hp entry ?_ ?_ ?_ ?_ ?_
  · intro x
    rw [free, same]
  · intro x
    rw [slots, slot]
  · intro h
    have laid := kept.laid p hp (resident.mp h)
    unfold Proc.laidOut at laid ⊢
    rw [top, page]
    exact laid
  · intro h
    have folded := kept.folded p hp (away.mp h)
    unfold diskByte at folded ⊢
    rw [disk, top, page2]
    exact folded
  · intro r _ _ _ x _
    unfold diskByte
    rw [disk]

/-- An entry of a process that is dead, before and behind the change. -/
theorem Kept.unborn {hand lost : List Nat} (kept : Kept pool hand lost s) (hp : p < PTABSIZE)
    (before : (s.ptab p).dead) (dead : q.dead) (entry : t.ptab = put s.ptab p q)
    (free : freeList t = freeList s) (slots : slotList t = slotList s)
    (disk : t.swapdev = s.swapdev) : Kept pool hand lost t := by
  refine kept.change hp entry ?_ ?_ (fun r => absurd dead r.1) (fun a => absurd dead a.1) ?_
  · intro x
    rw [free, held_dead before, held_dead dead]
  · intro x
    rw [slots, slotOf_dead before, slotOf_dead dead]
  · intro r _ _ _ x _
    unfold diskByte
    rw [disk]

theorem image_eq {r : Proc} (page : q.page = r.page) (mem : t.mem = s.mem)
    (disk : t.swapdev = s.swapdev) (x : Nat) : image t q x = image s r x := by
  have page2 : q.page2 = r.page2 := by
    unfold Proc.page2
    rw [page]
  unfold image diskByte
  by_cases noPage : r.noPage
  · have noPage' : q.noPage := by
      unfold Proc.noPage
      rw [page]
      exact noPage
    rw [if_pos noPage, if_pos noPage', page2, disk]
  · have noPage' : ¬ q.noPage := by
      unfold Proc.noPage
      rw [page]
      exact noPage
    rw [if_neg noPage, if_neg noPage', page, mem]

/-- Nothing is written, and one entry changes. -/
theorem Stepped.entry (entry : t.ptab = put s.ptab p q) (mem : t.mem = s.mem)
    (disk : t.swapdev = s.swapdev)
    (reason : own p ∨ q.dead ∨ (s.ptab p).dead ∨ q.page = (s.ptab p).page) : Stepped own s t where
  image := by
    intro r hr before after other x hx
    rw [entry] at after ⊢
    by_cases here : r = p
    · subst here
      rw [put_same] at after ⊢
      rcases reason with mine | dead | dead | page
      · exact absurd mine other
      · exact absurd dead after
      · exact absurd dead before
      · exact image_eq page mem disk x
    · rw [put_ne _ _ here]
      unfold Bank16k.image diskByte
      rw [mem, disk]
  blocks := by
    intro b o changed
    exact absurd (by rw [disk]) changed

def Proc.turn (q : Proc) (status : Status) : Proc := { q with status := status }

/-- The state behind `setStatus`. -/
def State.turn (s : State) (p : Nat) (status : Status) : State :=
  { s with ptab := put s.ptab p ((s.ptab p).turn status) }

theorem wp_setStatus {stop : Panic → Prop} (status : Status) (Q : Unit → State → Prop) :
    wp stop (setStatus p status) Q s ↔ Q () (s.turn p status) := Iff.rfl

theorem turn_dead (q : Proc) (status : Status) :
    (q.turn status).dead ↔ status = .empty ∨ status = .zombie := Iff.rfl

theorem turn_alive (q : Proc) {status : Status} (first : status ≠ .empty)
    (second : status ≠ .zombie) : ¬ (q.turn status).dead := by
  intro dead
  rcases dead with no | no
  · exact first no
  · exact second no

theorem Kept.turn {hand lost : List Nat} (kept : Kept pool hand lost s) (hp : p < PTABSIZE)
    (status : Status) (alive : ¬ (s.ptab p).dead) (first : status ≠ .empty)
    (second : status ≠ .zombie) : Kept pool hand lost (s.turn p status) :=
  kept.relabel (q := (s.ptab p).turn status) hp rfl rfl
    ⟨fun dead => absurd dead (turn_alive _ first second), fun dead => absurd dead alive⟩
    rfl rfl rfl rfl

theorem turn_other {r : Nat} (other : r ≠ p) (status : Status) :
    (s.turn p status).ptab r = s.ptab r := put_ne _ _ other

theorem turn_same (status : Status) : (s.turn p status).ptab p = (s.ptab p).turn status :=
  put_same _ _ _

/-- Nothing is written, and no entry changes. -/
theorem Stepped.quiet (ptab : t.ptab = s.ptab) (mem : t.mem = s.mem)
    (disk : t.swapdev = s.swapdev) : Stepped own s t where
  image := by
    intro r _ _ _ _ x _
    unfold Bank16k.image diskByte
    rw [ptab, mem, disk]
  blocks := by
    intro b o changed
    exact absurd (by rw [disk]) changed

theorem Sane.me_resident (sane : Sane pool s) (running : s.me.status = .running) :
    s.me.resident := by
  refine ⟨?_, sane.awake running⟩
  intro dead
  rcases dead with no | no <;> rw [running] at no <;> cases no

/-! ## Boot -/

/-- The pages that a step adds. -/
def Action.adds : Action → List Nat
  | .add page => [page]
  | _ => []

theorem booting_dead (boot : booting s) {r : Nat} (hr : r < PTABSIZE) : (s.ptab r).dead :=
  Or.inl (boot r hr)

theorem booting_none (boot : booting s) (x : Nat) :
    total PTABSIZE (fun p => (held (s.ptab p)).count x) = 0 := by
  have zero : total PTABSIZE (fun p => (held (s.ptab p)).count x) = total PTABSIZE (fun _ => 0) :=
    total_congr fun r hr => by rw [held_dead (booting_dead boot hr), List.count_nil]
  rw [zero, total_zero]

theorem booting_free (boot : booting s) (x : Nat) :
    total PTABSIZE (fun p => (slotOf (s.ptab p)).count x) = 0 := by
  have zero : total PTABSIZE (fun p => (slotOf (s.ptab p)).count x) = total PTABSIZE (fun _ => 0) :=
    total_congr fun r hr => by rw [slotOf_dead (booting_dead boot hr), List.count_nil]
  rw [zero, total_zero]

theorem Sane.add (sane : Sane pool s) {page : Nat} (boot : booting s) (positive : 0 < page)
    (byte : page < 256) (fresh : page ∉ freeList s) (other : page ≠ NO_PAGE) :
    wp (fun _ => True) (pagemapAdd page) (fun _ t =>
      Sane (pool ++ [page]) t ∧ Stepped own s t) s := by
  have kept := sane.kept
  have same : ∀ x, (freeList s).count x = pool.count x := by
    intro x
    have eq := kept.pages x
    rw [booting_none boot, List.count_nil] at eq
    omega
  have out : page ∉ pool := by
    intro mem
    apply fresh
    have some := List.count_pos_iff.mpr mem
    rw [← same] at some
    exact List.count_pos_iff.mp some
  have length : s.pfptr = pool.length := by
    rw [← length_freeList]
    exact (List.perm_iff_count.mpr same).length_eq
  have size := kept.size
  have small := kept.small
  have bound := Machine.mapsBound
  simp only [pagemapAdd, wp_bind, wp_get, wp_ite, wp_throw]
  refine ⟨fun _ => trivial, fun room => ?_⟩
  rw [wp_pushPage _ _ (by omega)]
  refine ⟨⟨⟨?_, ?_, ?_, ?_, kept.slots, kept.laid, kept.folded⟩, sane.cur, sane.awake,
    fun _ => Or.inl boot⟩, Stepped.quiet rfl rfl rfl⟩
  · exact List.nodup_append.mpr ⟨kept.unique, List.nodup_singleton page, fun x hx y hy => by
      rw [List.mem_singleton] at hy
      rintro rfl
      rw [hy] at hx
      exact out hx⟩
  · rw [List.length_append, List.length_singleton]
    omega
  · intro x hx
    rcases List.mem_append.mp hx with old | new
    · exact kept.proper x old
    · rw [List.mem_singleton] at new
      unfold NO_PAGE at other
      omega
  · intro x
    have eq := kept.pages x
    rw [freeList_push, List.count_append, List.count_append]
    show _ + _ + total PTABSIZE (fun p => (held (s.ptab p)).count x) = _
    omega

theorem Sane.addSwap (sane : Sane pool s) {slot : Nat} (boot : booting s)
    (fresh : slot ∉ slotList s) :
    wp (fun _ => True) (swapmapAdd slot) (fun _ t => Sane pool t ∧ Stepped own s t) s := by
  have kept := sane.kept
  simp only [swapmapAdd, wp_bind, wp_get, wp_ite, wp_throw, wp_modify]
  refine ⟨fun _ => trivial, fun _ => ?_⟩
  have lost : Kept pool [] [slot] s := { kept with
    slots := by
      intro x
      have eq := kept.slots x
      rw [booting_free boot] at eq ⊢
      by_cases here : x = slot
      · subst here
        have none := List.count_eq_zero.mpr fresh
        simp [none]
      · have zero : [slot].count x = 0 :=
          List.count_eq_zero.mpr fun mem => here (List.mem_singleton.mp mem)
        rw [List.count_nil] at eq
        omega }
  exact ⟨⟨lost.pushSlot, sane.cur, sane.awake, fun _ => Or.inl boot⟩, Stepped.quiet rfl rfl rfl⟩

/-! ## Making a process -/

theorem wp_alloc (kept : Kept pool [] [] s)
    (safe : spares p (mapsNeeded (s.ptab p).top) (slotsLeft s) s) :
    wp (fun _ => True) (pagemapAlloc p) (fun failed t =>
      (failed = true → Kept pool [] [] t ∧ Evicted s t) ∧
      (failed = false → ∃ u, Kept pool [] [] u ∧ Evicted s u ∧
        mapsNeeded (s.ptab p).top ≤ u.pfptr ∧ t = u.fill p (mapsNeeded (s.ptab p).top) 0)) s := by
  apply wp_pagemapAlloc2
  show wp _ (findRoom p (mapsNeeded (s.ptab p).top)) _ s
  refine wp_mono (wp_findRoom kept safe) ?_
  intro found t post
  obtain ⟨keeps, moved, enough, _⟩ := post
  refine ⟨fun yes => ⟨enough yes, keeps.small, (fun no => by cases no), fun _ => ?_⟩, fun _ => ⟨fun _ => ⟨keeps, moved⟩,
    (fun no => by cases no)⟩⟩
  exact ⟨t, keeps, moved, enough yes, rfl⟩

theorem copyBanks_other (source target : Nat → Nat) (n : Nat) :
    wp (fun _ => True) (copyBanks source target n) (fun _ t => ∃ mem, t = { s with mem := mem } ∧
      ∀ y, (∀ i, i < n → target i ≠ y) → mem y = s.mem y) s := by
  induction n with
  | zero => exact ⟨s.mem, rfl, fun _ _ => rfl⟩
  | succ n ih =>
    have run : copyBanks source target (n + 1) = (copyBanks source target n >>= fun _ =>
      modify (fun s => { s with mem := put s.mem (target n) (s.mem (source n)) })) := rfl
    rw [run, wp_bind]
    refine wp_mono ih ?_
    intro _ t post
    obtain ⟨mem, rfl, same⟩ := post
    refine ⟨put mem (target n) (mem (source n)), rfl, ?_⟩
    intro y apart
    rw [put_ne _ _ (apart n (Nat.lt_succ_self n)).symm]
    exact same y fun i hi => apart i (by omega)

theorem freeSlot_some (h : freeSlot s = some p) : p < PTABSIZE ∧ (s.ptab p).status = .empty := by
  have found := List.find?_some h
  have mem := List.mem_of_find?_eq_some h
  exact ⟨List.mem_range.mp mem, of_decide_eq_true found⟩

theorem fill_turn (s : State) (p n c : Nat) (status : Status) :
    ((s.fill p n c).turn p status).ptab =
      put s.ptab p (Proc.turn { s.ptab p with page := s.mapFor p n c } status) := by
  show put (put s.ptab p _) p (Proc.turn (put s.ptab p _ p) status) = _
  rw [put_put, put_same]

/-- The entry of a new process, with the map it has got. -/
theorem Kept.born (kept : Kept pool [] [] u) (hp : p < PTABSIZE) (dead : (u.ptab p).dead)
    (alive : ¬ q.dead) (page : q.page = u.mapFor p (mapsNeeded q.top) 0)
    (enough : mapsNeeded q.top ≤ u.pfptr) (entry : t.ptab = put u.ptab p q)
    (free : freeList t = freeList (u.pop (mapsNeeded q.top))) (slots : slotList t = slotList u)
    (disk : t.swapdev = u.swapdev) : Kept pool [] [] t ∧ q.resident :=
  Kept.place (c := 0) kept hp enough (fun r => r.1 dead) alive page rfl entry free slots disk
    fun _ => Nat.le_add_right _ _

theorem Kept.freed {status : Status} (kept : Kept pool [] [] s) (hp : p < PTABSIZE)
    (there : (s.ptab p).resident) (dead : status = .empty ∨ status = .zombie) :
    Kept pool [] [] ((s.push (held (s.ptab p))).turn p status) :=
  kept.release hp there ((turn_dead _ _).mpr dead) rfl (freeList_push s _) rfl rfl

/-- The new process has its memory, and runs, or `dofork` has failed. -/
theorem wp_forked (copied : Bool) (kept : Kept pool [] [] t) (hp : p < PTABSIZE)
    (here : (t.ptab p).resident) (hcur : t.cur < PTABSIZE) (other : p ≠ t.cur)
    (me : t.me.resident) :
    wp (fun _ => True) (if copied then do
        copyBanks t.me.page (t.ptab p).page 4
        setStatus t.cur .ready
        setStatus p .running
        modify (fun s => { s with cur := p, common := (s.ptab p).page 3 })
      else do
        pagemapFree p
        setStatus p .empty) (fun _ u => Sane pool u ∧ Stepped (fun r => r = p) t u ∧
          (∀ r, (t.ptab r).away → u.ptab r = t.ptab r) ∧ u.swapdev = t.swapdev) t := by
  cases copied with
  | false =>
    rw [if_neg Bool.false_ne_true, wp_bind, wp_release kept hp here, wp_setStatus]
    have still : ((t.push (held (t.ptab p))).turn p .empty).me = t.me := turn_other other.symm _
    refine ⟨⟨kept.freed hp here (Or.inl rfl), hcur, ?_, ?_⟩,
      Stepped.entry rfl rfl rfl (Or.inl rfl), ?_, rfl⟩
    · intro _
      rw [still]
      exact me.2
    · intro dead
      rw [still] at dead
      exact absurd dead me.1
    · intro r away
      refine turn_other ?_ _
      rintro rfl
      exact here.2 away.2
  | true =>
    rw [if_pos rfl, wp_bind]
    refine wp_mono (copyBanks_other _ _ 4) ?_
    intro _ v post
    obtain ⟨mem, rfl, same⟩ := post
    rw [wp_bind, wp_setStatus, wp_bind, wp_setStatus]
    have first := (kept.withMem mem).turn hcur .ready me.1 (fun no => by cases no) (fun no => by cases no)
    generalize hv : ({ t with mem := mem } : State) = v at *
    have entry : (v.turn t.cur .ready).ptab p = t.ptab p := by
      rw [turn_other other, ← hv]
    have alive : ¬ ((v.turn t.cur .ready).ptab p).dead := by
      rw [entry]
      exact here.1
    have second := first.turn hp .running alive (fun no => by cases no) (fun no => by cases no)
    have new : ((v.turn t.cur .ready).turn p .running).ptab p = (t.ptab p).turn .running := by
      rw [turn_same, entry]
    refine ⟨⟨second.same rfl rfl rfl rfl, hp, ?_, ?_⟩, ⟨?_, ?_⟩, ?_, by rw [← hv]; rfl⟩
    · intro _
      show ¬ (((v.turn t.cur .ready).turn p .running).ptab p).noPage
      rw [new]
      exact here.2
    · intro dead
      have dead : (((v.turn t.cur .ready).turn p .running).ptab p).dead := dead
      rw [new] at dead
      exact absurd dead (turn_alive _ (fun no => by cases no) (fun no => by cases no))
    · intro r hr before _ apart x hx
      have page : (((v.turn t.cur .ready).turn p .running).ptab r).page = (t.ptab r).page := by
        rw [turn_other apart]
        by_cases parent : r = t.cur
        · subst parent
          rw [turn_same, ← hv]
          rfl
        · rw [turn_other parent, ← hv]
      have mine : image v (t.ptab r) x = image t (t.ptab r) x := by
        rw [← hv]
        refine kept.image_kept hr before hx rfl ?_
        intro y owned
        refine same y fun i hi equal => ?_
        have child := page_held here (kept.laid p hp here) hi
        rw [equal] at child
        exact kept.held_apart hp hr (Ne.symm apart) child owned
      rw [← mine]
      exact image_eq page rfl rfl x
    · intro b o changed
      rw [← hv] at changed
      exact absurd rfl changed
    · intro r away
      have first' : r ≠ p := by
        rintro rfl
        exact here.2 away.2
      have second' : r ≠ t.cur := by
        rintro rfl
        exact me.2 away.2
      show ((v.turn t.cur .ready).turn p .running).ptab r = _
      rw [turn_other first', turn_other second', ← hv]

/-- An entry is cleared, and then processes are swapped out. -/
theorem Evicted.stepped (h : Evicted t u) (entry : t.ptab = put s.ptab p q) (dead : q.dead)
    (mem : t.mem = s.mem) (disk : t.swapdev = s.swapdev) (before : (s.ptab p).dead) :
    Stepped own s u where
  image := by
    intro r hr alive _ _ x hx
    have other : r ≠ p := by
      rintro rfl
      exact alive before
    have same : t.ptab r = s.ptab r := by rw [entry, put_ne _ _ other]
    have moved := h.image r hr (by rw [same]; exact alive) x hx
    rw [moved, same]
    exact image_eq rfl mem disk x
  blocks := by
    intro b o changed
    rw [← disk] at changed
    obtain ⟨r, hr, there, after, range⟩ := h.blocks b o changed
    have other : r ≠ p := by
      rintro rfl
      rw [entry, put_same] at there
      exact there.1 dead
    rw [entry, put_ne _ _ other] at there
    exact ⟨r, hr, there, after, range⟩

/-- The entry of a process that was not there is filled in. -/
theorem Stepped.then (first : Stepped own s t) (others : ∀ r, r ≠ p → u.ptab r = t.ptab r)
    (mem : u.mem = t.mem) (disk : u.swapdev = t.swapdev)
    (dead : (s.ptab p).dead) : Stepped own s u where
  image := by
    intro r hr before after mine x hx
    have other : r ≠ p := by
      rintro rfl
      exact before dead
    rw [others r other] at after ⊢
    rw [← first.image r hr before after mine x hx]
    exact image_eq rfl mem disk x
  blocks := by
    intro b o changed
    rw [disk] at changed
    obtain ⟨r, hr, resident, after, range⟩ := first.blocks b o changed
    have other : r ≠ p := by
      rintro rfl
      exact resident.1 dead
    rw [← others r other] at after range
    exact ⟨r, hr, resident, after, range⟩

/-- A step that disturbs a process that was not there. -/
theorem Stepped.behind (first : Stepped own s t) (second : Stepped (fun r => r = p) t u)
    (status : ∀ r, r ≠ p → (t.ptab r).status = (s.ptab r).status)
    (stay : ∀ r, (t.ptab r).away → u.ptab r = t.ptab r) (disk : u.swapdev = t.swapdev)
    (dead : (s.ptab p).dead) : Stepped own s u where
  image := by
    intro r hr before after mine x hx
    have other : r ≠ p := by
      rintro rfl
      exact before dead
    have between : ¬ (t.ptab r).dead := by
      rw [dead_congr (status r other)]
      exact before
    rw [second.image r hr between after other x hx]
    exact first.image r hr before between mine x hx
  blocks := by
    intro b o changed
    rw [disk] at changed
    obtain ⟨r, hr, there, after, range⟩ := first.blocks b o changed
    have still := stay r after
    rw [← still] at after range
    exact ⟨r, hr, there, after, range⟩

theorem Sane.fork (sane : Sane pool s) (running : s.me.status = .running) (copied : Bool)
    (sound : ∀ p, freeSlot s = some p → spares p (mapsNeeded s.me.top) (slotsLeft s)
      { s with ptab := put s.ptab p (blank s.me.top) }) :
    wp (fun _ => True) (Bank16k.fork copied) (fun _ t => Sane pool t ∧ Stepped own s t) s := by
  have kept := sane.kept
  have me := sane.me_resident running
  unfold Bank16k.fork
  rw [wp_bind, wp_get]
  cases slot : freeSlot s with
  | none => exact ⟨sane, Stepped.quiet rfl rfl rfl⟩
  | some p =>
    obtain ⟨hp, empty⟩ := freeSlot_some slot
    have safe := sound p slot
    have other : p ≠ s.cur := by
      intro same
      subst same
      rw [show (s.ptab s.cur).status = .running from running] at empty
      cases empty
    have cleared : Kept pool [] [] { s with ptab := put s.ptab p (blank s.me.top) } :=
      kept.unborn (q := blank s.me.top) hp (Or.inl empty) (Or.inl rfl) rfl rfl rfl rfl
    have set : ∀ R : Unit → State → Prop, wp (fun _ => True)
        (modifyProc p (fun _ => blank s.me.top)) R s ↔
        R () { s with ptab := put s.ptab p (blank s.me.top) } := fun _ => Iff.rfl
    show wp _ (modifyProc p (fun _ => blank s.me.top) >>= fun _ => _) _ s
    rw [wp_bind, set, wp_bind]
    have entry : put s.ptab p (blank s.me.top) p = blank s.me.top := put_same _ _ _
    have self : put s.ptab p (blank s.me.top) s.cur = s.me := put_ne _ _ other.symm
    generalize hb : ({ s with ptab := put s.ptab p (blank s.me.top) } : State) = b at *
    have table : b.ptab = put s.ptab p (blank s.me.top) := by rw [← hb]
    rw [← table] at entry self
    have safe' : spares p (mapsNeeded (b.ptab p).top) (slotsLeft b) b := by
      rw [entry, ← hb]
      rw [← hb] at safe
      exact safe
    have mine : b.cur = s.cur := by rw [← hb]
    have begun : ∀ v, Evicted b v → v.me = s.me ∧ v.ptab p = blank s.me.top ∧ Stepped own s v := by
      intro v moved
      have me' : v.me = s.me := by
        show v.ptab v.cur = _
        rw [moved.cur, mine, moved.stay s.cur (Or.inr (by rw [self]; exact running)), self]
      have child : v.ptab p = blank s.me.top := by
        rw [moved.stay p (Or.inl (by rw [entry]; exact ⟨rfl, rfl⟩)), entry]
      exact ⟨me', child, moved.stepped table (Or.inl rfl) (by rw [← hb]) (by rw [← hb])
        (Or.inl empty)⟩
    refine wp_mono (wp_alloc cleared safe') ?_
    intro failed v post
    cases failed with
    | true =>
      obtain ⟨keeps, moved⟩ := post.1 rfl
      obtain ⟨me', _, stepped⟩ := begun v moved
      refine ⟨⟨keeps, ?_, ?_, ?_⟩, stepped⟩
      · rw [moved.cur, mine]
        exact sane.cur
      · rw [me']
        exact sane.awake
      · intro dead
        rw [me'] at dead
        exact absurd dead me.1
    | false =>
      obtain ⟨u, keeps, moved, enough, rfl⟩ := post.2 rfl
      obtain ⟨me', child, stepped⟩ := begun u moved
      rw [← moved.top p] at enough ⊢
      rw [if_neg Bool.false_ne_true, wp_bind, wp_setStatus, wp_bind, wp_get]
      have dead : (u.ptab p).dead := by
        rw [child]
        exact Or.inl rfl
      obtain ⟨full, resident⟩ := keeps.born
        (t := (u.fill p (mapsNeeded (u.ptab p).top) 0).turn p .forking)
        (q := Proc.turn { u.ptab p with page := u.mapFor p (mapsNeeded (u.ptab p).top) 0 } .forking)
        hp dead (turn_alive _ (fun no => by cases no) (fun no => by cases no)) rfl enough
        (fill_turn u p _ 0 _) rfl rfl rfl
      have cur' : ((u.fill p (mapsNeeded (u.ptab p).top) 0).turn p .forking).cur = s.cur := by
        rw [← mine, ← moved.cur]
        rfl
      have others : ∀ r, r ≠ p → ((u.fill p (mapsNeeded (u.ptab p).top) 0).turn p .forking).ptab r =
          u.ptab r := by
        intro r hr
        rw [turn_other hr]
        exact put_ne _ _ hr
      have born : ((u.fill p (mapsNeeded (u.ptab p).top) 0).turn p .forking).ptab p =
          Proc.turn { u.ptab p with page := u.mapFor p (mapsNeeded (u.ptab p).top) 0 } .forking := by
        rw [fill_turn, put_same]
      have mem' : ((u.fill p (mapsNeeded (u.ptab p).top) 0).turn p .forking).mem = u.mem := rfl
      have disk' : ((u.fill p (mapsNeeded (u.ptab p).top) 0).turn p .forking).swapdev = u.swapdev := rfl
      rw [← born] at resident
      generalize (u.fill p (mapsNeeded (u.ptab p).top) 0).turn p .forking = v at *
      have parent : v.me = s.me := by
        show v.ptab v.cur = _
        rw [cur', others s.cur other.symm, ← mine, ← moved.cur]
        exact me'
      refine wp_mono (wp_forked copied full hp resident (by rw [cur']; exact sane.cur)
        (by rw [cur']; exact other) (by rw [parent]; exact me)) ?_
      intro _ w post
      obtain ⟨sane', second, stay, disk⟩ := post
      refine ⟨sane', Stepped.behind (t := v) ?_ second ?_ stay disk (Or.inl empty)⟩
      · exact stepped.then others mem' disk' (Or.inl empty)
      · intro r hr
        rw [others r hr, moved.status r, table, put_ne _ _ hr]

theorem spares_booting {needed slots : Nat} (boot : booting s) : spares p needed slots s := by
  cases slots with
  | zero => exact trivial
  | succ slots =>
    intro _ _ n victim
    have can := victim_candidate victim
    exact absurd (boot n can.1) can.2.2.2

theorem mapsNeeded_init : mapsNeeded (PROGLOAD + 4096) = mapsNeeded 0 := by
  have bank := Machine.initBank
  unfold mapsNeeded
  rw [bank, Nat.zero_add]

theorem Sane.init (sane : Sane pool s) (boot : booting s) (some : 0 < PTABSIZE) :
    wp (fun _ => True) createInit (fun _ t => Sane pool t ∧ Stepped own s t) s := by
  have kept := sane.kept
  have run : createInit = (do
      modifyProc 0 (fun _ => blank 0)
      let failed ← pagemapAlloc 0
      if failed then pure ()
      else
        modifyProc 0 (fun q => { q with top := PROGLOAD + 4096, status := .running })
        modify (fun s => { s with cur := 0, common := (s.ptab 0).page 3 })) := rfl
  have cleared : Kept pool [] [] { s with ptab := put s.ptab 0 (blank 0) } :=
    kept.unborn (q := blank 0) some (booting_dead boot some) (Or.inl rfl) rfl rfl rfl rfl
  have set : ∀ R : Unit → State → Prop, wp (fun _ => True) (modifyProc 0 (fun _ => blank 0)) R s ↔
      R () { s with ptab := put s.ptab 0 (blank 0) } := fun _ => Iff.rfl
  rw [run, wp_bind, set, wp_bind]
  have entry : put s.ptab 0 (blank 0) 0 = blank 0 := put_same _ _ _
  have still : booting { s with ptab := put s.ptab 0 (blank 0) } := by
    intro r hr
    show (put s.ptab 0 (blank 0) r).status = _
    by_cases here : r = 0
    · subst here
      rw [put_same]
      rfl
    · rw [put_ne _ _ here]
      exact boot r hr
  generalize hb : ({ s with ptab := put s.ptab 0 (blank 0) } : State) = b at *
  have table : b.ptab = put s.ptab 0 (blank 0) := by rw [← hb]
  rw [← table] at entry
  refine wp_mono (wp_alloc cleared (spares_booting still)) ?_
  intro failed v post
  have begun : ∀ v, Evicted b v → (v.cur = s.cur ∧ booting v) ∧ v.ptab 0 = blank 0 ∧
      Stepped own s v := by
    intro v moved
    refine ⟨⟨by rw [moved.cur, ← hb], fun r hr => by rw [moved.status r]; exact still r hr⟩, ?_, ?_⟩
    · rw [moved.stay 0 (Or.inl (by rw [entry]; exact ⟨rfl, rfl⟩)), entry]
    · exact moved.stepped table (Or.inl rfl) (by rw [← hb]) (by rw [← hb])
        (booting_dead boot some)
  cases failed with
  | true =>
    obtain ⟨keeps, moved⟩ := post.1 rfl
    obtain ⟨⟨cur, boot'⟩, _, stepped⟩ := begun v moved
    have mine : v.cur < PTABSIZE := by
      rw [cur]
      exact sane.cur
    refine ⟨⟨keeps, mine, ?_, fun _ => Or.inl boot'⟩, stepped⟩
    intro running
    rw [show v.me.status = .empty from boot' _ mine] at running
    cases running
  | false =>
    obtain ⟨u, keeps, moved, enough, rfl⟩ := post.2 rfl
    obtain ⟨_, child, stepped⟩ := begun u moved
    rw [← moved.top 0] at enough ⊢
    have size : mapsNeeded (u.ptab 0).top = mapsNeeded (PROGLOAD + 4096) := by
      rw [child, mapsNeeded_init]
      rfl
    have dead : (u.ptab 0).dead := by
      rw [child]
      exact Or.inl rfl
    rw [size] at enough ⊢
    rw [if_neg Bool.false_ne_true, wp_bind]
    have table' : put (u.fill 0 (mapsNeeded (PROGLOAD + 4096)) 0).ptab 0
        { (u.fill 0 (mapsNeeded (PROGLOAD + 4096)) 0).ptab 0 with
          top := PROGLOAD + 4096, status := .running } =
        put u.ptab 0 { u.ptab 0 with
          top := PROGLOAD + 4096, status := .running
          page := u.mapFor 0 (mapsNeeded (PROGLOAD + 4096)) 0 } := by
      show put (put u.ptab 0 _) 0 { put u.ptab 0 _ 0 with top := _, status := _ } = _
      rw [put_put, put_same]
      rfl
    obtain ⟨full, resident⟩ := keeps.born
      (t := { u.fill 0 (mapsNeeded (PROGLOAD + 4096)) 0 with
        ptab := put (u.fill 0 (mapsNeeded (PROGLOAD + 4096)) 0).ptab 0
          { (u.fill 0 (mapsNeeded (PROGLOAD + 4096)) 0).ptab 0 with
            top := PROGLOAD + 4096, status := .running } })
      (q := { u.ptab 0 with
        top := PROGLOAD + 4096, status := .running
        page := u.mapFor 0 (mapsNeeded (PROGLOAD + 4096)) 0 })
      some dead (by rintro (no | no) <;> cases no) rfl enough table' rfl rfl rfl
    have me : put u.ptab 0 { u.ptab 0 with
        top := PROGLOAD + 4096, status := .running
        page := u.mapFor 0 (mapsNeeded (PROGLOAD + 4096)) 0 } 0 = _ := put_same _ _ _
    rw [← me, ← table'] at resident
    refine ⟨⟨full.same rfl rfl rfl rfl, some, fun _ => resident.2,
      fun dead => absurd dead resident.1⟩, ?_⟩
    refine stepped.then ?_ rfl rfl (booting_dead boot some)
    intro r other
    show put (u.fill 0 (mapsNeeded (PROGLOAD + 4096)) 0).ptab 0 _ r = _
    rw [put_ne _ _ other]
    exact put_ne _ _ other

/-! ## One process and its pages -/

theorem wp_pagemapRealloc {size : Nat} {Q : Bool → State → Prop} (small : s.pfptr + mapsNeeded s.me.top < 256)
    (same : mapsNeeded size = mapsNeeded s.me.top → Q false s)
    (fewer : mapsNeeded size < mapsNeeded s.me.top → Q false (s.shrunk s.cur
      (mapsNeeded s.me.top - mapsNeeded size) (mapsNeeded size - 1)))
    (more : mapsNeeded s.me.top < mapsNeeded size → mapsNeeded size - mapsNeeded s.me.top ≤ s.pfptr →
      Q false (s.take s.cur (mapsNeeded size - mapsNeeded s.me.top) (mapsNeeded s.me.top - 1)))
    (short : Q true s) : wp (fun _ => True) (pagemapRealloc size) Q s := by
  have range := mapsNeeded_range s.me.top
  have range' := mapsNeeded_range size
  unfold pagemapRealloc
  rw [wp_bind, wp_get]
  by_cases equal : mapsNeeded size = mapsNeeded s.me.top
  · rw [if_pos equal]
    exact same equal
  rw [if_neg equal]
  by_cases less : mapsNeeded size < mapsNeeded s.me.top
  · rw [if_pos less, wp_bind, show mapsNeeded size = mapsNeeded size - 1 + 1 by omega,
      wp_shrinkMaps _ _ _ (by omega) (by omega)]
    rw [show mapsNeeded size - 1 + 1 = mapsNeeded size by omega]
    exact fewer less
  rw [if_neg less]
  by_cases enough : mapsNeeded size - mapsNeeded s.me.top ≤ s.pfptr
  · rw [if_pos enough, wp_bind, wp_fillMaps _ _ _ enough (by omega)]
    exact more (by omega) enough
  · rw [if_neg enough]
    exact short

/-- The size is changed behind the map. -/
theorem put_resize (f : Nat → Proc) (c size : Nat) (page : Nat → Nat) :
    put (put f c { f c with page := page }) c
      { put f c { f c with page := page } c with top := size } =
    put f c { f c with
      top := size
      page := (put f c { f c with page := page } c).page } := by
  rw [put_put, put_same]

theorem Sane.exec (sane : Sane pool s) (running : s.me.status = .running) (size : Nat)
    (mine : own s.cur) :
    wp (fun _ => True) (Bank16k.exec size) (fun _ t => Sane pool t ∧ Stepped own s t) s := by
  have kept := sane.kept
  have me := sane.me_resident running
  have room := kept.room sane.cur
  rw [held_resident (q := s.ptab s.cur) me, List.length_map, List.length_range,
    List.length_nil] at room
  -- whatever the new map is, the process is still there
  have done : ∀ t q, Kept pool [] [] t ∧ q.resident → t.ptab = put s.ptab s.cur q →
      t.cur = s.cur → t.mem = s.mem → t.swapdev = s.swapdev →
      Sane pool t ∧ Stepped own s t := by
    intro t q both entry cur mem disk
    have me' : t.me = q := by
      show t.ptab t.cur = q
      rw [entry, cur, put_same]
    refine ⟨⟨both.1, ?_, ?_, ?_⟩, Stepped.entry entry mem disk (Or.inl mine)⟩
    · rw [cur]
      exact sane.cur
    · rw [me']
      exact fun _ => both.2.2
    · rw [me']
      exact fun dead => absurd dead both.2.1
  unfold Bank16k.exec
  rw [wp_bind, wp_get, wp_bind]
  apply wp_pagemapRealloc
  · show s.pfptr + mapsNeeded (s.ptab s.cur).top < 256
    omega
  · intro same
    refine done _ { s.me with top := size } ⟨?_, me⟩ rfl rfl rfl rfl
    exact kept.relabel (q := { s.me with top := size }) sane.cur rfl same Iff.rfl rfl rfl rfl rfl
  · intro fewer
    have entry : put (s.shrunk s.cur (mapsNeeded s.me.top - mapsNeeded size)
        (mapsNeeded size - 1)).ptab s.cur { (s.shrunk s.cur (mapsNeeded s.me.top - mapsNeeded size)
        (mapsNeeded size - 1)).ptab s.cur with top := size } = put s.ptab s.cur { s.me with
          top := size
          page := ((s.shrunk s.cur (mapsNeeded s.me.top - mapsNeeded size)
            (mapsNeeded size - 1)).ptab s.cur).page } := by
      exact put_resize s.ptab s.cur size _
    exact done _ _ (kept.shrunk sane.cur me fewer rfl entry rfl rfl rfl) entry rfl rfl rfl
  · intro more enough
    have entry : put (s.take s.cur (mapsNeeded size - mapsNeeded s.me.top)
        (mapsNeeded s.me.top - 1)).ptab s.cur { (s.take s.cur (mapsNeeded size -
        mapsNeeded s.me.top) (mapsNeeded s.me.top - 1)).ptab s.cur with top := size } =
        put s.ptab s.cur { s.me with
          top := size
          page := ((s.take s.cur (mapsNeeded size - mapsNeeded s.me.top)
            (mapsNeeded s.me.top - 1)).ptab s.cur).page } := by
      exact put_resize s.ptab s.cur size _
    exact done _ _ (kept.grown sane.cur me more enough rfl entry rfl rfl rfl) entry rfl rfl rfl
  · exact ⟨sane, Stepped.quiet rfl rfl rfl⟩

theorem Sane.exit (sane : Sane pool s) (running : s.me.status = .running) (gone : Bool) :
    wp (fun _ => True) (doexit gone) (fun _ t => Sane pool t ∧ Stepped own s t) s := by
  have kept := sane.kept
  have me := sane.me_resident running
  have range := mapsNeeded_range s.me.top
  have ends : (if gone then .empty else .zombie : Status) = .empty ∨
      (if gone then .empty else .zombie : Status) = .zombie := by
    cases gone
    · exact Or.inr rfl
    · exact Or.inl rfl
  unfold doexit
  rw [wp_bind, wp_get]
  by_cases first : s.cur = 0
  · rw [if_pos first, wp_throw]
    trivial
  rw [if_neg first, wp_bind, wp_release kept sane.cur me, wp_setStatus]
  generalize (if gone then .empty else .zombie : Status) = status at *
  have dead := (turn_dead s.me status).mpr ends
  have same : ((s.push (held (s.ptab s.cur))).turn s.cur status).me = s.me.turn status :=
    put_same _ _ _
  refine ⟨⟨kept.freed sane.cur me ends, sane.cur, ?_, fun _ => Or.inr ?_⟩,
    Stepped.entry (q := s.me.turn status) rfl rfl rfl (Or.inr (Or.inl dead))⟩
  · intro still
    rw [same] at still
    rcases ends with no | no <;> rw [no] at still <;> cases still
  · show 0 < s.pfptr + (held (s.ptab s.cur)).length
    rw [held_resident (q := s.ptab s.cur) me, List.length_map, List.length_range]
    have one : 1 ≤ mapsNeeded (s.ptab s.cur).top := range.1
    omega

/-! ## Other processes -/

/-- While a process lives the machine is not booting. -/
theorem Sane.free_page (sane : Sane pool s) (hp : p < PTABSIZE) (alive : ¬ (s.ptab p).dead)
    (dead : s.me.dead) : 0 < s.pfptr := by
  rcases sane.tail dead with boot | some
  · exact absurd (booting_dead boot hp) alive
  · exact some

theorem Sane.reap (sane : Sane pool s) (running : s.me.status = .running) (hp : p < PTABSIZE)
    (zombie : (s.ptab p).status = .zombie) :
    Sane pool (s.turn p .empty) ∧ Stepped own s (s.turn p .empty) := by
  have other : s.cur ≠ p := by
    intro same
    subst same
    rw [show (s.ptab s.cur).status = .running from running] at zombie
    cases zombie
  have me : (s.turn p .empty).me = s.me := turn_other other _
  have before : (s.ptab p).dead := Or.inr zombie
  have keeps : Kept pool [] [] (s.turn p .empty) :=
    sane.kept.unborn (q := (s.ptab p).turn .empty) hp before (Or.inl rfl) rfl rfl rfl rfl
  refine ⟨⟨keeps, sane.cur, ?_, ?_⟩,
    Stepped.entry (q := (s.ptab p).turn .empty) rfl rfl rfl (Or.inr (Or.inr (Or.inl before)))⟩
  · rw [me]
    exact sane.awake
  · rw [me]
    exact fun dead => absurd dead (sane.me_resident running).1

theorem Sane.sched (sane : Sane pool s) (hp : p < PTABSIZE) (alive : ¬ (s.ptab p).dead)
    {status : Status} {waitno : Nat} (fits : status = .ready ∨ status = .sleep ∨ status = .stopped)
    (entry : t = { s with
      ptab := put s.ptab p { s.ptab p with status := status, waitno := waitno } }) :
    Sane pool t ∧ Stepped own s t := by
  subst entry
  have lives : ¬ Proc.dead { s.ptab p with status := status, waitno := waitno } := by
    rintro (no | no) <;> rcases fits with fit | fit | fit <;> rw [fit] at no <;> cases no
  have keeps : Kept pool [] [] { s with
      ptab := put s.ptab p { s.ptab p with status := status, waitno := waitno } } :=
    sane.kept.relabel (q := { s.ptab p with status := status, waitno := waitno }) hp rfl rfl
      ⟨fun dead => absurd dead lives, fun dead => absurd dead alive⟩ rfl rfl rfl rfl
  refine ⟨⟨keeps, sane.cur, ?_, ?_⟩, Stepped.entry rfl rfl rfl (Or.inr (Or.inr (Or.inr rfl)))⟩
  · show (put s.ptab p _ s.cur).status = .running → ¬ (put s.ptab p _ s.cur).noPage
    by_cases here : s.cur = p
    · rw [here, put_same]
      intro running
      rcases fits with fit | fit | fit <;>
        rw [show status = .running from running] at fit <;> cases fit
    · rw [put_ne _ _ here]
      exact sane.awake
  · show (put s.ptab p _ s.cur).dead → _ ∨ 0 < s.pfptr
    by_cases here : s.cur = p
    · rw [here, put_same]
      exact fun dead => absurd dead lives
    · rw [put_ne _ _ here]
      exact fun dead => Or.inr (sane.free_page hp alive dead)

/-- Processes have been swapped out, and more is not done. -/
theorem Sane.evicted (sane : Sane pool s) (keeps : Kept pool [] [] t) (moved : Evicted s t)
    (free : s.pfptr ≤ t.pfptr) : Sane pool t ∧ Stepped own s t := by
  have status : t.me.status = s.me.status := by
    show (t.ptab t.cur).status = _
    rw [moved.cur]
    exact moved.status _
  refine ⟨⟨keeps, by rw [moved.cur]; exact sane.cur, ?_, ?_⟩,
    ⟨fun r hr before _ _ x hx => moved.image r hr before x hx, moved.blocks⟩⟩
  · intro running
    rw [status] at running
    have same : t.me = s.me := by
      show t.ptab t.cur = _
      rw [moved.cur]
      exact moved.stay _ (Or.inr running)
    rw [same]
    exact sane.awake running
  · intro dead
    rcases sane.tail ((dead_congr status).mp dead) with boot | some
    · left
      intro r hr
      rw [moved.status r]
      exact boot r hr
    · right
      omega

theorem Sane.swapout (sane : Sane pool s) (hp : p < PTABSIZE) (there : (s.ptab p).resident)
    (idle : (s.ptab p).status ≠ .running) :
    wp (fun _ => True) (Bank16k.swapout p) (fun _ t => Sane pool t ∧ Stepped own s t) s := by
  have kept := sane.kept
  have room := kept.room hp
  have small : s.pfptr + (s.pagesOf p).length < 256 := by
    rw [kept.pagesOf_held hp there]
    rw [List.length_nil] at room
    omega
  rw [wp_swapout there.2 _ small]
  by_cases none : s.swapptr = 0
  · rw [if_pos none]
    exact sane.evicted kept (Evicted.refl s) (Nat.le_refl _)
  rw [if_neg none]
  by_cases zero : s.slot = 0
  · rw [if_pos zero]
    exact sane.evicted (kept.popSlot none) (Evicted.popSlot s) (Nat.le_refl _)
  · rw [if_neg zero]
    exact sane.evicted (kept.evict hp there none) (kept.evicted hp there idle none)
      (Nat.le_add_right _ _)

/-- The process that is there runs. -/
theorem Kept.started (kept : Kept pool [] [] s) (hp : p < PTABSIZE) (there : (s.ptab p).resident)
    (stepped : Stepped own u s) :
    wp (fun _ => True) (do
      setStatus p .running
      modify (fun s => { s with cur := p, common := (s.ptab p).page 3 }))
      (fun _ t => Sane pool t ∧ Stepped own u t) s := by
  rw [wp_bind, wp_setStatus]
  have turned := kept.turn hp .running there.1 (fun no => by cases no) (fun no => by cases no)
  have me : (s.turn p .running).ptab p = (s.ptab p).turn .running := turn_same _
  have status : ∀ r, (s.turn p .running).ptab r = s.ptab r ∨
      r = p ∧ (s.turn p .running).ptab r = (s.ptab p).turn .running := by
    intro r
    by_cases here : r = p
    · exact Or.inr ⟨here, by rw [here]; exact me⟩
    · exact Or.inl (turn_other here _)
  refine ⟨⟨turned.same rfl rfl rfl rfl, hp, ?_, ?_⟩, ?_, ?_⟩
  · intro _
    show ¬ ((s.turn p .running).ptab p).noPage
    rw [me]
    exact there.2
  · intro dead
    have dead : ((s.turn p .running).ptab p).dead := dead
    rw [me] at dead
    exact absurd dead (turn_alive _ (fun no => by cases no) (fun no => by cases no))
  · intro r hr before after mine x hx
    show image _ ((s.turn p .running).ptab r) x = _
    have after : ¬ ((s.turn p .running).ptab r).dead := after
    rcases status r with same | ⟨rfl, same⟩
    · rw [same] at after ⊢
      rw [← stepped.image r hr before after mine x hx]
      exact image_eq rfl rfl rfl x
    · rw [same, ← stepped.image r hr before there.1 mine x hx]
      exact image_eq rfl rfl rfl x
  · intro b o changed
    obtain ⟨r, hr, before, after, range⟩ := stepped.blocks b o changed
    have other : r ≠ p := by
      rintro rfl
      exact there.2 after.2
    have same : (s.turn p .running).ptab r = s.ptab r := turn_other other _
    rw [← same] at after range
    exact ⟨r, hr, before, after, range⟩

theorem Sane.switchin (sane : Sane pool s) (hp : p < PTABSIZE) (ready : (s.ptab p).status = .ready)
    (idle : s.me.status ≠ .running) (sound : (s.ptab p).noPage → canReturn s p) :
    wp (fun _ => True) (Bank16k.switchin p) (fun _ t => Sane pool t ∧ Stepped own s t) s := by
  have alive : ¬ (s.ptab p).dead := by
    rintro (no | no) <;> rw [ready] at no <;> cases no
  unfold Bank16k.switchin
  rw [wp_bind, wp_get]
  by_cases noPage : (s.ptab p).noPage
  · have away : (s.ptab p).away := ⟨alive, noPage⟩
    rw [if_pos noPage, wp_bind]
    refine wp_mono (wp_bringIn sane.kept sane.cur idle (sane.free_page hp alive) hp away
      (sound noPage)) ?_
    intro _ t post
    obtain ⟨keeps, back⟩ := post
    have there : (t.ptab p).resident :=
      ⟨fun dead => alive ((dead_congr (back.status p)).mp dead), back.there⟩
    exact keeps.started hp there ⟨fun r hr before _ _ x hx => back.image r hr before x hx, back.blocks⟩
  · rw [if_neg noPage]
    exact sane.kept.started hp ⟨alive, noPage⟩ (Stepped.quiet rfl rfl rfl)

theorem Sane.store (sane : Sane pool s) (running : s.me.status = .running) {i : Nat} (hi : i < 4)
    (y : Nat) (b : UInt8) (mine : own s.cur)
    (written : t = { s with
      mem := put s.mem (s.me.page i) (put (s.mem (s.me.page i)) y b) }) :
    Sane pool t ∧ Stepped own s t := by
  have me := sane.me_resident running
  subst written
  refine ⟨⟨sane.kept.withMem _, sane.cur, sane.awake, sane.tail⟩, ?_, ?_⟩
  · intro r hr before _ other x hx
    have apart : r ≠ s.cur := by
      rintro rfl
      exact other mine
    refine sane.kept.image_kept hr before hx rfl ?_
    intro z owned
    refine put_ne _ _ ?_
    rintro rfl
    have held' := page_held (q := s.ptab s.cur) me (sane.kept.laid _ sane.cur me) hi
    exact sane.kept.held_apart sane.cur hr (Ne.symm apart) held' owned
  · intro b o changed
    exact absurd rfl changed

/-! ## Steps and runs -/

theorem Sane.step_kept {a : Action} (sane : Sane pool s) (sound : a.sound s) (enabled : a.enabled s)
    (none : a.adds = []) : wp (fun _ => True) a.run (fun _ t =>
      Sane pool t ∧ Stepped (fun r => a.own s r) s t) s := by
  cases a with
  | add page => cases none
  | addSwap slot => exact sane.addSwap enabled.1 enabled.2.2
  | init => exact sane.init enabled.1 enabled.2
  | fork copied => exact sane.fork enabled copied sound
  | exec size => exact sane.exec enabled size rfl
  | exit gone => exact sane.exit enabled gone
  | reap p => exact sane.reap enabled.1 enabled.2.1 enabled.2.2
  | sched p status waitno => exact sane.sched enabled.1 enabled.2.1 enabled.2.2 rfl
  | select p =>
    exact ⟨⟨sane.kept.same rfl rfl rfl rfl, sane.cur, sane.awake, sane.tail⟩, Stepped.quiet rfl rfl rfl⟩
  | tick =>
    exact ⟨⟨sane.kept.same rfl rfl rfl rfl, sane.cur, sane.awake, sane.tail⟩, Stepped.quiet rfl rfl rfl⟩
  | low b =>
    exact ⟨⟨sane.kept.same rfl rfl rfl rfl, sane.cur, sane.awake, sane.tail⟩, Stepped.quiet rfl rfl rfl⟩
  | swapout p =>
    obtain ⟨_, hp, alive, there, idle⟩ := enabled
    show wp _ (discard (Bank16k.swapout p)) _ s
    rw [wp_discard]
    exact sane.swapout hp ⟨alive, there⟩ idle
  | switchin p => exact sane.switchin enabled.1 enabled.2.1 enabled.2.2 sound
  | store i y b => exact sane.store enabled.1 enabled.2.1 y b rfl rfl

/-- A sound step. -/
theorem Sane.step {a : Action} (sane : Sane pool s) (sound : a.sound s) (step : a.step s t) :
    Sane (pool ++ a.adds) t ∧ Stepped (fun r => a.own s r) s t := by
  obtain ⟨enabled, run⟩ := step
  by_cases none : a.adds = []
  · have post := wp_ok (sane.step_kept sound enabled none) run
    rw [none, List.append_nil]
    exact post
  · cases a with
    | add page =>
      obtain ⟨boot, positive, byte, fresh⟩ := enabled
      have post : wp (fun _ => True) (pagemapAdd page) (fun _ t => Sane (pool ++ [page]) t ∧
          Stepped (fun r => Action.own s r (.add page)) s t) s :=
        sane.add boot positive byte fresh sound
      have both := wp_ok post run
      exact both
    | _ => exact absurd rfl none

end Steps

/-! ## Boot -/

/-- The machine before the boot. -/
structure Cold (s : State) : Prop where
  cur : s.cur < PTABSIZE
  empty : booting s
  pages : s.pfptr = 0
  slots : s.swapptr = 0

theorem Cold.sane {s : State} (cold : Cold s) : Sane [] s where
  kept :=
    { unique := List.nodup_nil
      size := Nat.zero_le _
      proper := fun x hx => by cases hx
      pages := by
        intro x
        have none : freeList s = [] := by
          unfold freeList
          rw [cold.pages]
          rfl
        rw [none, booting_none cold.empty]
        rfl
      slots := by
        intro x
        have none : slotList s = [] := by
          unfold slotList
          rw [cold.slots]
          rfl
        rw [none, booting_free cold.empty]
        exact Nat.zero_le _
      laid := fun p hp there => absurd (booting_dead cold.empty hp) there.1
      folded := fun p hp away => absurd (booting_dead cold.empty hp) away.1 }
  cur := cold.cur
  awake := by
    intro running
    rw [show s.me.status = .empty from cold.empty _ cold.cur] at running
    cases running
  tail := fun _ => Or.inl cold.empty

/-- The pages that a run adds. -/
def added (as : List Action) : List Nat := as.flatMap Action.adds

/-- The steps that keep to the condition. -/
def Action.soundStep (s : State) (a : Action) (t : State) : Prop := a.sound s ∧ a.step s t

theorem added_snoc (as : List Action) (a : Action) : added (as ++ [a]) = added as ++ a.adds := by
  simp [added]

theorem Sane.run {s t : State} {as : List Action} {pool : List Nat} (sane : Sane pool s)
    (run : Steps Action.soundStep s as t) : Sane (pool ++ added as) t := by
  induction run with
  | nil =>
    rw [show added [] = [] from rfl, List.append_nil]
    exact sane
  | snoc _ last ih =>
    have next := (ih.step last.1 last.2).1
    rw [List.append_assoc, ← added_snoc] at next
    exact next

/-- After every run of sound steps the stack and the processes share out the pages that were
added, and every resident process has its map laid out. -/
theorem pages_partition {s t : State} {as : List Action} (cold : Cold s)
    (run : Steps Action.soundStep s as t) :
    (freeList t ++ (List.range PTABSIZE).flatMap (fun p => held (t.ptab p))).Perm (added as) ∧
      (freeList t ++ (List.range PTABSIZE).flatMap (fun p => held (t.ptab p))).Nodup ∧
      ∀ p, p < PTABSIZE → (t.ptab p).resident → (t.ptab p).laidOut := by
  have sane := cold.sane.run run
  rw [List.nil_append] at sane
  have perm := sane.kept.perm
  rw [List.append_nil] at perm
  exact ⟨perm, perm.nodup_iff.mpr sane.kept.unique, sane.kept.laid⟩

/-- A step of the others: `p` does not write its memory or change its map, nor does it exit. -/
def Action.aside (p : Nat) (s : State) (a : Action) (t : State) : Prop :=
  a.soundStep s t ∧ ¬ a.own s p ∧ ¬ (t.ptab p).dead

theorem Sane.aside {s t : State} {as : List Action} {pool : List Nat} {p : Nat}
    (sane : Sane pool s) (hp : p < PTABSIZE) (alive : ¬ (s.ptab p).dead)
    (run : Steps (Action.aside p) s as t) :
    Sane (pool ++ added as) t ∧ ¬ (t.ptab p).dead ∧
      ∀ x, swapped x → image t (t.ptab p) x = image s (s.ptab p) x := by
  induction run with
  | nil =>
    rw [show added [] = [] from rfl, List.append_nil]
    exact ⟨sane, alive, fun _ _ => rfl⟩
  | snoc _ last ih =>
    obtain ⟨sane', alive', same⟩ := ih
    obtain ⟨next, stepped⟩ := sane'.step last.1.1 last.1.2
    rw [List.append_assoc, ← added_snoc] at next
    refine ⟨next, last.2.2, fun x hx => ?_⟩
    rw [stepped.image p hp alive' last.2.2 last.2.1 x hx]
    exact same x hx

/-- What a process has stored is the same after every sound run of the others, with any number
of swaps. The slots of the processes that are swapped out are different from each other and
from the free ones, and a step only writes to slots of processes that it swaps out. -/
theorem swap_round_trip {s t u : State} {as bs : List Action} {p : Nat} (cold : Cold s)
    (run : Steps Action.soundStep s as t) (hp : p < PTABSIZE) (alive : ¬ (t.ptab p).dead)
    (others : Steps (Action.aside p) t bs u) :
    (∀ x, swapped x → image u (u.ptab p) x = image t (t.ptab p) x) ∧
      (slotList u ++ (List.range PTABSIZE).flatMap (fun r => slotOf (u.ptab r))).Nodup ∧
      ∀ a v, Action.soundStep u a v → ∀ b o, v.swapdev b o ≠ u.swapdev b o →
        ∃ r, r < PTABSIZE ∧ (u.ptab r).resident ∧ (v.ptab r).away ∧
          (v.ptab r).page2 * SWAP_SIZE ≤ b ∧ b < (v.ptab r).page2 * SWAP_SIZE + SWAP_SIZE := by
  have sane := cold.sane.run run
  obtain ⟨sane', _, same⟩ := sane.aside hp alive others
  refine ⟨same, ?_, fun a v step => (sane'.step step.1 step.2).2.blocks⟩
  rw [List.nodup_iff_count_le_one]
  intro x
  have le := sane'.kept.slots x
  rw [List.count_nil] at le
  rw [List.count_append, count_table]
  exact le

end Machine

/-! ## Examples -/

/-- The pages and the swap of platform-coco3, with fewer processes. -/
abbrev coco3 : Machine where
  PTABSIZE := 4
  MAX_MAPS := 125
  MAX_SWAPS := 32
  PROGLOAD := 0x100
  PROGTOP := 0xE000
  SWAPBASE := 0
  SWAP_SIZE := 0x71
  swaps := true
  ownCommon := true
  inCommon := fun x => 0x2200 ≤ x ∧ x < 0x3F00
  mapsBound := by decide
  swapsBound := by decide
  baseBound := by decide
  baseAlign := by decide
  sizeLow := by decide
  sizeHigh := by decide
  initBank := by decide

def off : State where
  pfree := fun _ => 0
  pfptr := 0
  swapmap := fun _ => 0
  swapptr := 0
  ptab := fun _ => blank 0
  cur := 0
  common := 0
  nextp := 0
  waitno := 0
  low := 0
  mem := fun _ _ => 0
  swapdev := fun _ _ => 0

/-- The state behind a list of steps that are all legal. -/
def walk (legal : State → Action → State → Prop) [∀ s a t, Decidable (legal s a t)] (m : Machine) :
    List Action → State → Option State
  | [], s => some s
  | a :: as, s =>
    match a.run s with
    | .ok (_, t) => if legal s a t then walk legal m as t else none
    | .error _ => none

theorem walk_steps {legal : State → Action → State → Prop} [∀ s a t, Decidable (legal s a t)]
    {m : Machine} {as : List Action} {s t : State} (h : walk legal m as s = some t) :
    Steps (fun s a t => legal s a t ∧ a.run s = .ok ((), t)) s as t := by
  induction as generalizing s with
  | nil =>
    cases h
    exact Steps.nil _
  | cons a as ih =>
    unfold walk at h
    split at h
    · rename_i u run
      split at h
      · rename_i ok
        exact Steps.cons ⟨ok, run⟩ (ih h)
      · cases h
    · cases h

theorem off_cold : @Cold coco3 off := by
  let _ := coco3
  exact ⟨by decide, fun _ _ => rfl, rfl, rfl⟩

/-- Init forks, is swapped out and comes back. -/
theorem pages_partition_after_swap : ∃ t, @Steps State Action (@Action.soundStep coco3) off
    [.add 2, .add 4, .addSwap 1, .init, .fork true, .sched 1 .ready 0, .swapout 0, .switchin 0] t ∧
    (freeList t ++ (List.range 4).flatMap (fun p => @held coco3 (t.ptab p))).Perm [2, 4] := by
  let m := coco3
  have runs : (walk (fun s a _ => @Action.sound m s a ∧ @Action.enabled m s a) m [.add 2, .add 4,
      .addSwap 1, .init, .fork true, .sched 1 .ready 0, .swapout 0, .switchin 0] off).isSome := by
    decide +kernel
  obtain ⟨t, walked⟩ := Option.isSome_iff_exists.mp runs
  have run : Steps Action.soundStep off _ t :=
    (walk_steps walked).mono fun _ _ _ step => ⟨step.1.1, step.1.2, step.2⟩
  exact ⟨t, run, (pages_partition off_cold run).1⟩

/-- A process that has exited is swapped out, and its page is freed again. -/
theorem page_shared : ∃ (_ : Machine) (s t : State) (as : List Action), Cold s ∧
    Steps Action.step s as t ∧ held (t.ptab 2) = [2] ∧ held (t.ptab 3) = [2] := by
  let m := coco3
  have runs : (walk (fun s a _ => @Action.enabled m s a) m [.add 2, .add 4, .addSwap 1, .init,
      .fork true, .exit false, .switchin 0, .fork true, .fork true] off).map
      (fun t => (held (t.ptab 2), held (t.ptab 3))) = some ([2], [2]) := by decide +kernel
  obtain ⟨t, run, facts⟩ := Option.map_eq_some_iff.mp runs
  injection facts with two three
  exact ⟨m, off, t, _, off_cold, walk_steps run, two, three⟩

/-- Init has stored a byte. Its child stores another one while init is swapped out. -/
theorem swap_round_trip_stored : ∃ t u, @Steps State Action (@Action.soundStep coco3) off
    [.add 2, .add 4, .addSwap 1, .init, .store 0 7 5, .fork true] t ∧
    @Steps State Action (@Action.aside coco3 0) t
      [.swapout 0, .store 0 7 9, .sched 1 .ready 0, .switchin 0] u ∧
    @image coco3 t (t.ptab 0) 7 = 5 ∧ @image coco3 u (u.ptab 0) 7 = 5 := by
  let m := coco3
  have runs : (walk (fun s a _ => @Action.sound m s a ∧ @Action.enabled m s a) m [.add 2, .add 4,
      .addSwap 1, .init, .store 0 7 5, .fork true] off).map (fun t => decide (
      ¬ (t.ptab 0).dead ∧ image t (t.ptab 0) 7 = 5 ∧
      (walk (fun s a t => (@Action.sound m s a ∧ @Action.enabled m s a) ∧ ¬ @Action.own s 0 a ∧
        ¬ (t.ptab 0).dead) m [.swapout 0, .store 0 7 9, .sched 1 .ready 0, .switchin 0] t).isSome)) =
      some true := by decide +kernel
  obtain ⟨t, walked, facts⟩ := Option.map_eq_some_iff.mp runs
  obtain ⟨alive, five, rest⟩ := of_decide_eq_true facts
  obtain ⟨u, walked'⟩ := Option.isSome_iff_exists.mp rest
  have run : Steps Action.soundStep off _ t :=
    (walk_steps walked).mono fun _ _ _ step => ⟨step.1.1, step.1.2, step.2⟩
  have others : Steps (Action.aside 0) t _ u :=
    (walk_steps walked').mono fun _ _ _ step => ⟨⟨step.1.1.1, step.1.1.2, step.2⟩, step.1.2⟩
  have trip := swap_round_trip off_cold run (by decide) alive others
  exact ⟨t, u, run, others, five, (trip.1 7 (by decide)).trans five⟩

/-- There is no room for a process that comes back, and its slot is given away. -/
theorem slot_shared : ∃ (_ : Machine) (s t : State) (as : List Action), Cold s ∧
    Steps Action.step s as t ∧ slotOf (t.ptab 0) = [1] ∧ slotOf (t.ptab 1) = [1] := by
  let m := coco3
  have runs : (walk (fun s a _ => @Action.enabled m s a) m [.add 2, .add 4, .add 6, .addSwap 1, .init,
      .fork true, .sched 1 .ready 0, .switchin 0, .exec 0x3000, .sched 0 .sleep 0, .swapout 0,
      .switchin 1, .exec 0x3000, .sched 1 .ready 0, .sched 0 .ready 0, .switchin 0,
      .sched 0 .sleep 0, .swapout 1] off).map
      (fun t => (slotOf (t.ptab 0), slotOf (t.ptab 1))) = some ([1], [1]) := by decide +kernel
  obtain ⟨t, run, facts⟩ := Option.map_eq_some_iff.mp runs
  injection facts with first second
  exact ⟨m, off, t, _, off_cold, walk_steps run, first, second⟩

end Bank16k
