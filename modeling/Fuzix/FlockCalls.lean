import Fuzix.FlockKept

/-!
# The calls keep the lock counts

Each call that opens, shares, closes or locks an entry takes one kept state to another,
under what has to hold for the lock to be let go or taken as the caller asked.
-/

set_option linter.unusedSectionVars false

namespace Flock

open Table Holding
open Fuzix (Build Access ITABSIZE OFTSIZE UFTSIZE PTABSIZE NO_FILE EBADF EMFILE EEXIST slots
  slots_put slots_le one_le_slots)

section Calls
variable [Cpu] {s t : State} {k i p : Nat}

/-- Locks are only let go with the last reference to their entry. -/
def Lets (s t : State) : Prop :=
  ∀ k, k < OFTSIZE → (t.told k = s.told k ∨ t.told k = none ∧ (t.oftab k).refs = 0) ∧
    ((s.oftab k).refs = 0 → (t.oftab k).refs = 0)

theorem Lets.refl (s : State) : Lets s s := fun _ _ => ⟨Or.inl rfl, id⟩

theorem Lets.trans {u : State} (h : Lets s t) (l : Lets t u) : Lets s u := by
  intro k hk
  obtain ⟨first, gone⟩ := h k hk
  obtain ⟨second, gone'⟩ := l k hk
  refine ⟨?_, fun zero => gone' (gone zero)⟩
  rcases second with same | lost
  · rcases first with before | ⟨unlocked, zero⟩
    · exact Or.inl (same.trans before)
    · exact Or.inr ⟨same.trans unlocked, gone' zero⟩
  · exact Or.inr lost

theorem gap : CFMAX < CFLEX := by decide

theorem lower_flock {c : Cinode} (held : 0 < c.flock) : c.lower.flock = lowered CFLEX c.flock := by
  unfold Cinode.lower lowered
  by_cases marked : c.flock = CFLEX
  · rw [if_pos marked, if_pos marked]
  · rw [if_neg marked, if_neg marked, if_neg (by omega)]

/-! ## Dropping a reference -/

theorem Kept.drop_last (h : Kept s (some k)) (hk : k < OFTSIZE) (last : names s k = 0) :
    Kept (oftDeref s k) none ∧ Lets s (oftDeref s k) := by
  obtain ⟨one, ⟨i, hi, named⟩, flag⟩ := h.count k hk (by rw [owed_same]; omega)
  rw [last, owed_same] at one
  have bounds := h.refs i hi
  have used := one_le_entries hk (by omega) named
  obtain ⟨c, refs, lock, run⟩ := oftDeref_last one named (by omega)
  have none_uses : Oft.uses ⟨0, none, (s.oftab k).access⟩ i = 0 := if_neg fun no => by cases no.2
  have one_uses : (s.oftab k).uses i = 1 := if_pos ⟨by omega, named⟩
  rw [run]
  refine ⟨h.rebuild hk named h.calm rfl
    (fun j away => ⟨freed_entries s c away, freed_others s c away, ?_⟩)
    (fun j away => freed_inodes s c away) (by rw [owed_same]; omega) ?_ ?_ ?_ (fun no => ?_)
    (fun _ => freed_told s c), fun j _ => ?_⟩
  · rw [owed_none, owed_other away]
  · rw [freed_inode, lock]
    have mine : holding s i k = s.told k := if_pos named
    by_cases locked : (s.oftab k).access.flock = true
    · have held : holding s i k ≠ none := by
        rw [mine]
        rw [locked] at flag
        exact Option.isSome_iff_ne_none.mp flag.symm
      rw [if_pos locked, lower_flock ((h.locks i hi).pos gap hk held)]
      refine ((h.locks i hi).release hk held gap).congr fun j _ => ?_
      unfold holding
      by_cases me : j = k
      · rw [me, freed_entry, put_same]
        rfl
      · rw [freed_entries s c me, freed_others s c me, put_ne _ _ me]
    · rw [if_neg locked]
      refine (h.locks i hi).congr fun j _ => ?_
      by_cases me : j = k
      · have idle : s.told k = none := by
          rw [(Bool.not_eq_true _).mp locked] at flag
          exact Option.isNone_iff_eq_none.mp (by simpa using flag)
        rw [me, mine, idle]
        unfold holding
        rw [freed_entry]
        rfl
      · unfold holding
        rw [freed_entries s c me, freed_others s c me]
  · rw [freed_inode, freed_entry, none_uses, one_uses, refs]
    omega
  · rw [freed_entry]
    exact Or.inr ⟨rfl, last⟩
  · rw [owed_none] at no
    omega
  · by_cases me : j = k
    · rw [me, freed_entry, freed_told]
      exact ⟨Or.inr ⟨rfl, rfl⟩, fun _ => rfl⟩
    · rw [freed_entries s c me, freed_others s c me]
      exact ⟨Or.inl rfl, id⟩

theorem Kept.drop_more (h : Kept s (some k)) (hk : k < OFTSIZE) (more : names s k ≠ 0) :
    Kept (oftDeref s k) none ∧ Lets s (oftDeref s k) := by
  obtain ⟨count, ⟨i, hi, named⟩, flag⟩ := h.count k hk (by omega)
  rw [owed_same] at count
  have small := bound s (some k) k
  rw [owed_same] at small
  have entry : (modifyOft s k (fun o => { o with refs := o.refs - 1 })).oftab k =
      ⟨(s.oftab k).refs - 1, (s.oftab k).inode, (s.oftab k).access⟩ := put_same _ _ _
  have rest : ∀ j, j ≠ k →
      (modifyOft s k (fun o => { o with refs := o.refs - 1 })).oftab j = s.oftab j :=
    fun j away => put_ne _ _ away
  have inodes : ∀ j, ((modifyOft s k (fun o => { o with refs := o.refs - 1 })).oftab j).inode =
      (s.oftab j).inode := by
    intro j
    by_cases me : j = k
    · rw [me, entry]
    · rw [rest j me]
  have same_uses : Oft.uses ⟨(s.oftab k).refs - 1, (s.oftab k).inode, (s.oftab k).access⟩ i =
      (s.oftab k).uses i := by
    unfold Oft.uses
    rw [if_pos ⟨by show (s.oftab k).refs - 1 ≠ 0; omega, named⟩, if_pos ⟨by omega, named⟩]
  rw [oftDeref_more (by omega) (by omega)]
  refine ⟨h.rebuild hk named h.calm rfl (fun j away => ⟨rest j away, rfl, ?_⟩) (fun _ _ => rfl)
    (by omega) ?_ ?_ (Or.inl ?_) (fun _ => ⟨?_, ?_⟩) (fun no => ?_), fun j _ => ⟨Or.inl rfl, ?_⟩⟩
  · rw [owed_none, owed_other away]
  · refine (h.locks i hi).congr fun j _ => ?_
    unfold holding
    rw [inodes]
    rfl
  · rw [entry, same_uses]
    have bounds := h.refs i hi
    exact ⟨Nat.add_le_add_right bounds.1 _, bounds.2⟩
  · rw [inodes]
    exact named
  · rw [entry, owed_none]
    show (s.oftab k).refs - 1 = _
    omega
  · unfold openFile
    rw [entry]
    exact ⟨⟨i, hi, named⟩, flag⟩
  · rw [owed_none] at no
    omega
  · intro zero
    by_cases me : j = k
    · subst me
      omega
    · rw [rest j me]
      exact zero

theorem Kept.oftDeref (h : Kept s (some k)) (hk : k < OFTSIZE) :
    Kept (oftDeref s k) none ∧ Lets s (oftDeref s k) := by
  by_cases last : names s k = 0
  · exact h.drop_last hk last
  · exact h.drop_more hk last

/-! ## Descriptors -/

theorem names_setFile (s : State) (hp : p < PTABSIZE) (live : (s.ptab p).live = true) {fd : Nat}
    (hfd : fd < UFTSIZE) (v k : Nat) :
    names (setFile s p fd v) k + (if (s.ptab p).files fd = k then 1 else 0) =
      names s k + (if v = k then 1 else 0) := by
  have mine : (setFile s p fd v).ptab p =
      { s.ptab p with files := put (s.ptab p).files fd v } := put_same _ _ _
  have change := names_change (t := setFile s p fd v) hp
    (fun q _ other => put_ne _ _ other) k
  have old : (s.ptab p).names k = slots (s.ptab p).files k := if_pos live
  have new : ((setFile s p fd v).ptab p).names k = slots (put (s.ptab p).files fd v) k := by
    rw [mine]
    exact if_pos live
  have slot := slots_put (s.ptab p).files hfd v k
  omega

theorem entry_ne_none (hk : k < OFTSIZE) : NO_FILE ≠ k := by
  have bound := Build.oftBound
  have far : NO_FILE = 255 := rfl
  omega

/-- The opens of a state in which one process changed that opens nothing. -/
theorem opens_desk {f : Proc → Proc} (awake : (f (s.ptab p)).call = .user) {q j : Nat}
    (opening : opens (modifyProc s p f) q j) : q ≠ p ∧ opens s q j := by
  obtain ⟨hq, alive, u, g, call⟩ := opening
  have other : q ≠ p := by
    intro me
    subst me
    rw [show (modifyProc s q f).ptab q = f (s.ptab q) from put_same _ _ _, awake] at call
    cases call
  rw [show (modifyProc s p f).ptab q = s.ptab q from put_ne _ _ other] at alive call
  exact ⟨other, hq, alive, u, g, call⟩

/-- The descriptors of a process that is awake change along with what the call holds. -/
theorem Kept.desk {X Y : Option Nat} (h : Kept s X) {f : Proc → Proc}
    (awake : (f (s.ptab p)).call = .user)
    (files : (f (s.ptab p)).live = true → ∀ fd, fd < UFTSIZE →
      (f (s.ptab p)).files fd = NO_FILE ∨ (f (s.ptab p)).files fd < OFTSIZE)
    (sums : ∀ k, k < OFTSIZE → names (modifyProc s p f) k + owed Y k = names s k + owed X k) :
    Kept (modifyProc s p f) Y := by
  have mine : (modifyProc s p f).ptab p = f (s.ptab p) := put_same _ _ _
  have rest : ∀ q, q ≠ p → (modifyProc s p f).ptab q = s.ptab q := fun q other => put_ne _ _ other
  refine ⟨h.calm, h.locks, h.refs, fun k hk named => ?_, fun k hk unnamed => ?_, h.range,
    fun q hq alive => ?_, fun q hq alive => ?_, fun q k opening => ?_⟩
  · rw [sums k hk] at named ⊢
    exact h.count k hk named
  · rw [sums k hk] at unnamed
    exact h.idle k hk unnamed
  · by_cases me : q = p
    · rw [me] at alive ⊢
      rw [mine] at alive ⊢
      exact files alive
    · rw [rest q me] at alive ⊢
      exact h.files q hq alive
  · by_cases me : q = p
    · rw [me, mine, awake]
      trivial
    · rw [rest q me] at alive ⊢
      exact (h.waits q hq alive).keep (by rw [rest q me]) (fun _ _ => rfl) fun _ _ _ _ => rfl
  · obtain ⟨other, before⟩ := opens_desk awake opening
    obtain ⟨unnamed, alone⟩ := h.booked q k before
    have hk : k < OFTSIZE := by
      obtain ⟨hq, alive, u, g, call⟩ := before
      have waits := h.waits q hq alive
      rw [call] at waits
      exact waits.2.1
    rw [sums k hk]
    exact ⟨unnamed, fun r opening' => alone r (opens_desk awake opening').2⟩

/-- A process that is awake changes one of its descriptors. -/
theorem Kept.setFile {X Y : Option Nat} (h : Kept s X) (hp : p < PTABSIZE)
    (live : (s.ptab p).live = true) (awake : (s.ptab p).call = .user) {fd v : Nat}
    (hfd : fd < UFTSIZE) (fits : v = NO_FILE ∨ v < OFTSIZE)
    (sums : ∀ k, k < OFTSIZE → (if v = k then 1 else 0) + owed Y k =
      (if (s.ptab p).files fd = k then 1 else 0) + owed X k) : Kept (setFile s p fd v) Y := by
  refine h.desk awake (fun _ j hj => ?_) fun k hk => ?_
  · show put (s.ptab p).files fd v j = NO_FILE ∨ put (s.ptab p).files fd v j < OFTSIZE
    by_cases here : j = fd
    · rw [here, put_same]
      exact fits
    · rw [put_ne _ _ here]
      exact h.files p hp live j hj
  · have change := names_setFile s hp live hfd v k
    have sum := sums k hk
    show names (Flock.setFile s p fd v) k + _ = _
    omega

/-! ## Opening -/

/-- A booked entry without a lock becomes one that the call holds. -/
theorem Kept.adopt (h : Kept s none) (b : Booked s k) (hi : i < ITABSIZE)
    (named : (s.oftab k).inode = some i) (clear : (s.oftab k).access.flock = false) :
    Kept s (some k) := by
  have idle := h.idle k b.entry b.unnamed
  refine ⟨h.calm, h.locks, h.refs, fun j hj used => ?_, fun j hj unnamed => ?_, h.range, h.files,
    h.waits, fun p j opening => ?_⟩
  · by_cases me : j = k
    · rw [me, b.unnamed, owed_same, b.one]
      refine ⟨rfl, ⟨i, hi, named⟩, ?_⟩
      rw [clear, idle]
      rfl
    · rw [owed_other me] at used ⊢
      exact h.count j hj used
  · exact h.idle j hj (by rw [owed_none]; omega)
  · have me : j ≠ k := fun me => b.alone p (me ▸ opening)
    rw [owed_other me]
    exact h.booked p j opening

theorem Booked.same (b : Booked s k) (entries : t.oftab = s.oftab) (desks : t.ptab = s.ptab) :
    Booked t k where
  entry := b.entry
  one := by rw [entries]; exact b.one
  unnamed := by unfold names; rw [desks]; exact b.unnamed
  alone := fun p opening => b.alone p (by unfold opens at opening; rw [desks] at opening; exact opening)

theorem setFile_same {fd v : Nat} (there : (s.ptab p).files fd = v) : setFile s p fd v = s := by
  unfold setFile modifyProc
  dsimp only
  rw [← there, put_self]
  exact congrArg (fun tab => { s with ptab := tab }) (put_self s.ptab p)

/-- A failed open gives its entry back. -/
theorem Kept.cantopen (h : Kept s none) (b : Booked s k) {u : Nat} (e : Nat)
    (free : (s.ptab p).files u = NO_FILE)
    (clear : (s.oftab k).inode = none ∨ (s.oftab k).access.flock = false) :
    Kept (cantopen s p u k e) none ∧ ∀ j, j < OFTSIZE → (cantopen s p u k e).told j = s.told j := by
  have idle := h.idle k b.entry b.unnamed
  have dropped : Kept (Flock.oftDeref s k) none ∧ (Flock.oftDeref s k).ptab = s.ptab ∧
      ∀ j, j < OFTSIZE → (Flock.oftDeref s k).told j = s.told j := by
    cases named : (s.oftab k).inode with
    | none =>
      rw [oftDeref_unset b.one named]
      refine ⟨h.entry b.entry b.unnamed b.alone fun i no => ?_, rfl, fun _ _ => rfl⟩
      rw [show (s.oftab k).inode = none from named] at no
      cases no
    | some i =>
      have hi := h.range k b.entry i named
      have clear' : (s.oftab k).access.flock = false := by
        rcases clear with unset | clear
        · rw [named] at unset
          cases unset
        · exact clear
      obtain ⟨kept, lets⟩ := (h.adopt b hi named clear').oftDeref b.entry
      have used := one_le_entries b.entry (by rw [b.one]; omega) named
      have bounds := h.refs i hi
      obtain ⟨c, _, _, run⟩ := oftDeref_last b.one named (by omega)
      refine ⟨kept, by rw [run]; rfl, fun j hj => ?_⟩
      rcases (lets j hj).1 with same | ⟨gone, _⟩
      · exact same
      · rw [run] at gone ⊢
        by_cases me : j = k
        · rw [me, freed_told, idle]
        · exact freed_others s c me
  obtain ⟨kept, desks, told⟩ := dropped
  unfold Flock.cantopen
  rw [setFile_same (by rw [desks]; exact free)]
  exact ⟨kept.fail p e, told⟩

/-- A booked entry becomes a descriptor of the process. -/
theorem Kept.openDone (h : Kept s none) (b : Booked s k) (hp : p < PTABSIZE)
    (live : (s.ptab p).live = true) (awake : (s.ptab p).call = .user) {u flag : Nat}
    (hu : u < UFTSIZE) (free : (s.ptab p).files u = NO_FILE) (fair : ¬ badFlag flag)
    (hi : i < ITABSIZE) (named : (s.oftab k).inode = some i) :
    Kept (openDone s p u k flag) none := by
  have entry : (modifyOft s k (fun o => { o with access := Access.ofFlag flag })).oftab k =
      ⟨(s.oftab k).refs, (s.oftab k).inode, Access.ofFlag flag⟩ := put_same _ _ _
  have kept : Kept (modifyOft s k (fun o => { o with access := Access.ofFlag flag })) none := by
    refine h.entry b.entry b.unnamed b.alone fun j here => ⟨h.range k b.entry j here, ?_⟩
    exact Nat.add_le_add_right (h.refs j (h.range k b.entry j here)).1 _
  have booked : Booked (modifyOft s k (fun o => { o with access := Access.ofFlag flag })) k :=
    ⟨b.entry, by rw [entry]; exact b.one, b.unnamed, b.alone⟩
  have clear : (Access.ofFlag flag).flock = false := by
    unfold badFlag at fair
    have bit : flag / 128 % 2 ≠ 1 := by omega
    exact decide_eq_false bit
  have mine := kept.adopt booked hi (by rw [entry]; exact named) (by rw [entry]; exact clear)
  refine (mine.setFile (Y := none) hp live awake hu (Or.inr b.entry) fun j hj => ?_).reply p u
  have far := entry_ne_none hj
  show (if k = j then 1 else 0) + 0 = (if (s.ptab p).files u = j then 1 else 0) + owed (some k) j
  rw [free, if_neg far]
  by_cases me : j = k
  · rw [me, owed_same, if_pos rfl]
  · rw [owed_other me, if_neg (fun no => me no.symm)]

/-- The process goes to sleep in `d_open`. -/
theorem Kept.begin (h : Kept s none) (b : Booked s k) {u flag : Nat} (hu : u < UFTSIZE)
    (free : (s.ptab p).files u = NO_FILE) (fair : ¬ badFlag flag) (hi : i < ITABSIZE)
    (named : (s.oftab k).inode = some i) : Kept (setCall s p (.opening u k flag)) none := by
  have mine : (setCall s p (.opening u k flag)).ptab p =
      { s.ptab p with call := .opening u k flag } := put_same _ _ _
  have rest : ∀ q, q ≠ p → (setCall s p (.opening u k flag)).ptab q = s.ptab q :=
    fun q other => put_ne _ _ other
  have same : ∀ q, ((setCall s p (.opening u k flag)).ptab q).live = (s.ptab q).live ∧
      ((setCall s p (.opening u k flag)).ptab q).files = (s.ptab q).files := by
    intro q
    by_cases me : q = p
    · rw [me, mine]
      exact ⟨rfl, rfl⟩
    · rw [rest q me]
      exact ⟨rfl, rfl⟩
  have counts : ∀ j, names (setCall s p (.opening u k flag)) j = names s j :=
    names_congr fun q _ => same q
  have opened : ∀ q j, opens (setCall s p (.opening u k flag)) q j →
      q = p ∧ j = k ∨ q ≠ p ∧ opens s q j := by
    intro q j opening
    obtain ⟨hq, alive, v, g, call⟩ := opening
    by_cases me : q = p
    · rw [me, mine] at call
      injection call with _ here _
      exact Or.inl ⟨me, here.symm⟩
    · rw [rest q me] at alive call
      exact Or.inr ⟨me, hq, alive, v, g, call⟩
  refine ⟨h.calm, h.locks, h.refs, fun j hj => ?_, fun j hj => ?_, h.range, fun q hq alive => ?_,
    fun q hq alive => ?_, fun q j opening => ?_⟩
  · rw [counts]
    exact h.count j hj
  · rw [counts]
    exact h.idle j hj
  · rw [(same q).1] at alive
    rw [(same q).2]
    exact h.files q hq alive
  · by_cases me : q = p
    · rw [me, mine]
      exact ⟨hu, b.entry, fair, by rw [mine]; exact free, b.one, i, hi, named⟩
    · rw [rest q me] at alive ⊢
      exact (h.waits q hq alive).keep (by rw [rest q me]) (fun _ _ => rfl) fun _ _ _ _ => rfl
  · rw [counts]
    rcases opened q j opening with ⟨me, here⟩ | ⟨other, before⟩
    · rw [here, me]
      refine ⟨by rw [owed_none, b.unnamed], fun r opening' => ?_⟩
      rcases opened r k opening' with ⟨you, _⟩ | ⟨_, old⟩
      · exact you
      · exact (b.alone r old).elim
    · refine ⟨(h.booked q j before).1, fun r opening' => ?_⟩
      rcases opened r j opening' with ⟨_, here⟩ | ⟨_, old⟩
      · exact (b.alone q (here ▸ before)).elim
      · exact (h.booked q j before).2 r old

/-! ## Closing -/

theorem getinode_inode {fd : Nat} (found : getinode s p fd = .inode i) :
    fd < UFTSIZE ∧ (s.ptab p).files fd < OFTSIZE ∧ i < ITABSIZE ∧
      (s.oftab ((s.ptab p).files fd)).inode = some i := by
  unfold getinode at found
  dsimp only at found
  split at found
  · cases found
  rename_i there
  split at found
  · cases found
  rename_i inside
  split at found
  · cases found
  rename_i j named
  split at found
  · cases found
  rename_i fits
  injection found with same
  subst same
  exact ⟨by omega, by omega, by omega, named⟩

theorem Kept.getinode {X : Option Nat} (h : Kept s X) (hp : p < PTABSIZE)
    (live : (s.ptab p).live = true) (fd : Nat) : getinode s p fd ≠ .broken := by
  unfold Flock.getinode
  dsimp only
  split
  · intro no
    cases no
  rename_i there
  have hfd : fd < UFTSIZE := by omega
  have inside : (s.ptab p).files fd < OFTSIZE := by
    rcases h.files p hp live fd hfd with unset | inside
    · exact (there (Or.inr unset)).elim
    · exact inside
  rw [if_neg (by omega)]
  have positive := one_le_names hp live hfd
  obtain ⟨_, ⟨i, hi, named⟩, _⟩ := h.count _ inside (by omega)
  rw [named]
  dsimp only
  rw [if_neg (by omega)]
  intro no
  cases no

theorem oftDeref_ptab (h : Kept s (some k)) (hk : k < OFTSIZE) : (oftDeref s k).ptab = s.ptab := by
  obtain ⟨count, ⟨i, hi, named⟩, _⟩ := h.count k hk (by rw [owed_same]; omega)
  have small := bound s (some k) k
  rw [owed_same] at count small
  by_cases last : names s k = 0
  · have used := one_le_entries hk (by omega) named
    have bounds := h.refs i hi
    obtain ⟨c, _, _, run⟩ := oftDeref_last (by omega) named (by omega)
    rw [run]
    rfl
  · rw [oftDeref_more (by omega) (by omega)]
    rfl

/-- The descriptor is given up. -/
theorem Kept.give (h : Kept s none) (hp : p < PTABSIZE) (live : (s.ptab p).live = true)
    (awake : (s.ptab p).call = .user) {fd : Nat} (hfd : fd < UFTSIZE) :
    Kept (Flock.setFile s p fd NO_FILE) (some ((s.ptab p).files fd)) := by
  refine h.setFile hp live awake hfd (Or.inl rfl) fun j hj => ?_
  have far := entry_ne_none hj
  rw [if_neg far, owed_none]
  by_cases me : (s.ptab p).files fd = j
  · rw [me, owed_same, if_pos rfl]
  · rw [owed_other (fun no => me no.symm), if_neg me]

theorem Kept.doclose (h : Kept s none) (hp : p < PTABSIZE) (live : (s.ptab p).live = true)
    (awake : (s.ptab p).call = .user) (fd : Nat) :
    Kept (doclose s p fd) none ∧ Lets s (doclose s p fd) ∧
      ((Flock.doclose s p fd).ptab p).live = true ∧ ((Flock.doclose s p fd).ptab p).call = .user ∧
      (∀ j, ((Flock.doclose s p fd).ptab p).files j =
        if j = fd ∧ fd < UFTSIZE then NO_FILE else (s.ptab p).files j) := by
  unfold Flock.doclose
  cases found : Flock.getinode s p fd with
  | bad =>
    refine ⟨h.fail p _, Lets.refl s, ?_, ?_, fun j => ?_⟩
    · show (put s.ptab p _ p).live = true
      rw [put_same]
      exact live
    · show (put s.ptab p _ p).call = .user
      rw [put_same]
      exact awake
    · show (put s.ptab p _ p).files j = _
      rw [put_same]
      show (s.ptab p).files j = _
      split
      · rename_i here
        obtain ⟨me, hfd⟩ := here
        unfold Flock.getinode at found
        dsimp only at found
        split at found
        · rename_i unset
          rw [me]
          exact unset.resolve_left (by omega)
        · split at found
          · cases found
          split at found
          · cases found
          split at found <;> cases found
      · rfl
  | broken => exact (h.getinode hp live fd found).elim
  | inode i =>
    obtain ⟨hfd, inside, _, _⟩ := getinode_inode found
    have given := h.give hp live awake hfd
    obtain ⟨kept, lets⟩ := given.oftDeref inside
    have desks := oftDeref_ptab given inside
    have mine : (Flock.setFile s p fd NO_FILE).ptab p =
        { s.ptab p with files := put (s.ptab p).files fd NO_FILE } := put_same _ _ _
    have last : (Flock.reply (Flock.oftDeref (Flock.setFile s p fd NO_FILE)
        ((s.ptab p).files fd)) p 0).ptab p =
        { s.ptab p with files := put (s.ptab p).files fd NO_FILE, answer := some 0 } := by
      show put (Flock.oftDeref _ _).ptab p _ p = _
      rw [put_same, desks, mine]
    refine ⟨kept.reply p 0, lets, ?_, ?_, fun j => ?_⟩
    · rw [last]
      exact live
    · rw [last]
      exact awake
    · rw [last]
      show put (s.ptab p).files fd NO_FILE j = _
      by_cases here : j = fd
      · rw [here, put_same, if_pos ⟨rfl, hfd⟩]
      · rw [put_ne _ _ here, if_neg fun no => here no.1]

theorem Kept.closeAll (h : Kept s none) (hp : p < PTABSIZE) (live : (s.ptab p).live = true)
    (awake : (s.ptab p).call = .user) : ∀ n, n ≤ UFTSIZE →
    Kept (closeAll p n s) none ∧ Lets s (closeAll p n s) ∧
      ((Flock.closeAll p n s).ptab p).live = true ∧ ((Flock.closeAll p n s).ptab p).call = .user ∧
      ∀ j, j < n → ((Flock.closeAll p n s).ptab p).files j = NO_FILE := by
  intro n
  induction n with
  | zero => exact fun _ => ⟨h, Lets.refl s, live, awake, fun j no => by omega⟩
  | succ n ih =>
    intro fits
    obtain ⟨kept, lets, alive, up, shut⟩ := ih (by omega)
    unfold Flock.closeAll
    generalize Flock.closeAll p n s = t at kept lets alive up shut
    dsimp only
    split
    · obtain ⟨kept', lets', alive', up', files⟩ := kept.doclose hp alive up n
      refine ⟨kept', lets.trans lets', alive', up', fun j hj => ?_⟩
      rw [files]
      by_cases here : j = n
      · rw [if_pos ⟨here, by omega⟩]
      · rw [if_neg fun no => here no.1]
        exact shut j (by omega)
    · rename_i unset
      refine ⟨kept, lets, alive, up, fun j hj => ?_⟩
      by_cases here : j = n
      · rw [here]
        by_contra no
        exact unset no
      · exact shut j (by omega)

theorem Kept.doexit (h : Kept s none) (hp : p < PTABSIZE) (live : (s.ptab p).live = true) :
    Kept (doexit s p) none ∧ Lets s (doexit s p) := by
  have up : ((setCall s p .user).ptab p).call = .user ∧
      ((setCall s p .user).ptab p).live = true := by
    show (put s.ptab p _ p).call = _ ∧ (put s.ptab p _ p).live = _
    rw [put_same]
    exact ⟨rfl, live⟩
  obtain ⟨kept, lets, alive, awake, shut⟩ :=
    (h.wake p).closeAll hp up.2 up.1 UFTSIZE (Nat.le_refl _)
  unfold Flock.doexit
  generalize Flock.closeAll p UFTSIZE (setCall s p .user) = t at kept lets alive awake shut
  refine ⟨kept.desk awake (fun no => by cases no) fun k hk => ?_, lets⟩
  have far := entry_ne_none hk
  have change := names_change (s := t) (t := modifyProc t p (fun q => { q with live := false })) hp
    (fun q _ other => put_ne _ _ other) k
  have gone : ((modifyProc t p (fun q => { q with live := false })).ptab p).names k = 0 := by
    rw [show (modifyProc t p (fun q => { q with live := false })).ptab p =
      { t.ptab p with live := false } from put_same _ _ _]
    rfl
  have before : (t.ptab p).names k = 0 := by
    rw [Proc.names, if_pos alive]
    refine (total_congr fun j hj => ?_).trans (total_zero UFTSIZE)
    rw [shut j hj, if_neg far]
  omega

/-! ## Sharing -/

/-- One more reference to an open entry. -/
theorem Kept.more (h : Kept s none) (hk : k < OFTSIZE) (used : names s k ≠ 0) :
    Kept (modifyOft s k (fun o => { o with refs := (o.refs + 1) % 256 })) (some k) := by
  obtain ⟨count, ⟨i, hi, named⟩, flag⟩ := h.count k hk (by rw [owed_none]; exact used)
  rw [owed_none] at count
  have small := bound s (some k) k
  rw [owed_same] at small
  have next : ((s.oftab k).refs + 1) % 256 = (s.oftab k).refs + 1 := by omega
  have entry : (modifyOft s k (fun o => { o with refs := (o.refs + 1) % 256 })).oftab k =
      ⟨(s.oftab k).refs + 1, (s.oftab k).inode, (s.oftab k).access⟩ := by
    rw [← next]
    exact put_same _ _ _
  have rest : ∀ j, j ≠ k → (modifyOft s k (fun o => { o with refs := (o.refs + 1) % 256 })).oftab j =
      s.oftab j := fun j away => put_ne _ _ away
  have inodes : ∀ j, ((modifyOft s k (fun o => { o with refs := (o.refs + 1) % 256 })).oftab j).inode =
      (s.oftab j).inode := by
    intro j
    by_cases me : j = k
    · rw [me, entry]
    · rw [rest j me]
  have same_uses : Oft.uses ⟨(s.oftab k).refs + 1, (s.oftab k).inode, (s.oftab k).access⟩ i =
      (s.oftab k).uses i := by
    unfold Oft.uses
    rw [if_pos ⟨Nat.succ_ne_zero _, named⟩, if_pos ⟨by omega, named⟩]
  refine h.rebuild hk named h.calm rfl (fun j away => ⟨rest j away, rfl, ?_⟩) (fun _ _ => rfl)
    (by rw [owed_none]; exact used) ?_ ?_ (Or.inl ?_) (fun _ => ⟨?_, ?_⟩) (fun no => ?_)
  · rw [owed_none, owed_other away]
  · refine (h.locks i hi).congr fun j _ => ?_
    unfold holding
    rw [inodes]
    rfl
  · rw [entry, same_uses]
    have bounds := h.refs i hi
    exact ⟨Nat.add_le_add_right bounds.1 _, bounds.2⟩
  · rw [inodes]
    exact named
  · rw [entry, owed_same]
    exact congrArg (· + 1) count
  · unfold openFile
    rw [entry]
    exact ⟨⟨i, hi, named⟩, flag⟩
  · rw [owed_same] at no
    omega

theorem Kept.share (h : Kept s none) (hp : p < PTABSIZE) (live : (s.ptab p).live = true)
    (awake : (s.ptab p).call = .user) {newd oldd : Nat} (hn : newd < UFTSIZE)
    (free : (s.ptab p).files newd = NO_FILE) (ho : oldd < UFTSIZE)
    (inside : (s.ptab p).files oldd < OFTSIZE) :
    Kept (share s p newd ((s.ptab p).files oldd)) none ∧
      Lets s (Flock.share s p newd ((s.ptab p).files oldd)) := by
  have named := one_le_names hp live ho
  have kept := h.more inside (by omega)
  refine ⟨kept.setFile hp live awake hn (Or.inr inside) fun j hj => ?_, fun j _ => ⟨Or.inl rfl, ?_⟩⟩
  · have far := entry_ne_none hj
    rw [owed_none]
    show _ = (if (s.ptab p).files newd = j then 1 else 0) + _
    rw [free, if_neg far]
    by_cases me : j = (s.ptab p).files oldd
    · rw [← me, owed_same, if_pos rfl]
    · rw [owed_other me, if_neg fun no => me no.symm]
  · intro zero
    show (put s.oftab _ _ j).refs = 0
    by_cases me : j = (s.ptab p).files oldd
    · have count := (h.count _ inside (by rw [owed_none]; omega)).1
      rw [me] at zero
      omega
    · rw [put_ne _ _ me]
      exact zero

theorem ufAlloc_free {files : Nat → Nat} {j : Nat} (found : ufAlloc files = some j) :
    j < UFTSIZE ∧ files j = NO_FILE :=
  find_range (P := fun j => files j = NO_FILE) found

theorem Kept.dup (h : Kept s none) (hp : p < PTABSIZE) (live : (s.ptab p).live = true)
    (awake : (s.ptab p).call = .user) {oldd : Nat}
    (fits : (∀ i, Flock.getinode s p (oldd % 256) ≠ .inode i) ∨ oldd < 256) :
    Kept (dup s p oldd) none ∧ Lets s (dup s p oldd) := by
  unfold Flock.dup
  cases found : Flock.getinode s p (oldd % 256) with
  | bad => exact ⟨h.fail p _, Lets.refl s⟩
  | broken => exact (h.getinode hp live _ found).elim
  | inode i =>
    have small : oldd % 256 = oldd := by
      rcases fits with no | small
      · exact (no i found).elim
      · omega
    rw [small] at found
    obtain ⟨ho, inside, _, _⟩ := getinode_inode found
    dsimp only
    cases slot : ufAlloc (s.ptab p).files with
    | none => exact ⟨h.fail p _, Lets.refl s⟩
    | some newd =>
      obtain ⟨hn, free⟩ := ufAlloc_free slot
      obtain ⟨kept, lets⟩ := h.share hp live awake hn free ho inside
      exact ⟨kept.reply p newd, lets⟩

theorem Kept.dup2 (h : Kept s none) (hp : p < PTABSIZE) (live : (s.ptab p).live = true)
    (awake : (s.ptab p).call = .user) {oldd newd : Nat}
    (fits : (∀ i, Flock.getinode s p (oldd % 256) ≠ .inode i) ∨ oldd < 256 ∧ oldd ≠ newd) :
    Kept (dup2 s p oldd newd) none ∧ Lets s (dup2 s p oldd newd) := by
  unfold Flock.dup2
  cases found : Flock.getinode s p (oldd % 256) with
  | bad => exact ⟨h.fail p _, Lets.refl s⟩
  | broken => exact (h.getinode hp live _ found).elim
  | inode i =>
    have small : oldd % 256 = oldd ∧ oldd ≠ newd := by
      rcases fits with no | small
      · exact (no i found).elim
      · omega
    rw [small.1] at found
    obtain ⟨ho, inside, _, _⟩ := getinode_inode found
    dsimp only
    by_cases hn : UFTSIZE ≤ newd
    · rw [if_pos hn]
      exact ⟨h.fail p _, Lets.refl s⟩
    · rw [if_neg hn]
      by_cases closed : (s.ptab p).files newd = NO_FILE
      · rw [if_neg fun no => no closed]
        obtain ⟨kept, lets⟩ := h.share hp live awake (by omega) closed ho inside
        exact ⟨kept.reply p 0, lets⟩
      · rw [if_pos closed]
        obtain ⟨kept, lets, alive, up, files⟩ := h.doclose hp live awake newd
        have old : ((Flock.doclose s p newd).ptab p).files oldd = (s.ptab p).files oldd := by
          rw [files, if_neg fun no => small.2 no.1]
        have new : ((Flock.doclose s p newd).ptab p).files newd = NO_FILE := by
          rw [files, if_pos ⟨rfl, by omega⟩]
        obtain ⟨kept', lets'⟩ := kept.share hp alive up (by omega) new ho (by rw [old]; exact inside)
        exact ⟨kept'.reply p 0, lets.trans lets'⟩

/-! ## Fork -/

/-- How many of the first `n` descriptors name entry `k`. -/
def naming (files : Nat → Nat) (n k : Nat) : Nat := total n (fun j => if files j = k then 1 else 0)

theorem naming_succ (files : Nat → Nat) (n k : Nat) :
    naming files (n + 1) k = naming files n k + if files n = k then 1 else 0 :=
  total_succ _ _

/-- What the loop of `newproc` does: every descriptor counts once more. -/
theorem bump_spec (files : Nat → Nat) (s : State) : ∀ n,
    (bump files n s).itab = s.itab ∧ (bump files n s).ptab = s.ptab ∧
      (bump files n s).told = s.told ∧ (bump files n s).panicked = s.panicked ∧
      ∀ k, k ≠ NO_FILE → ((bump files n s).oftab k).inode = (s.oftab k).inode ∧
        ((bump files n s).oftab k).access = (s.oftab k).access ∧
        ((s.oftab k).refs + naming files n k < 256 →
          ((bump files n s).oftab k).refs = (s.oftab k).refs + naming files n k) ∧
        (naming files n k = 0 → ((bump files n s).oftab k).refs = (s.oftab k).refs) := by
  intro n
  induction n with
  | zero => exact ⟨rfl, rfl, rfl, rfl, fun k _ => ⟨rfl, rfl, fun _ => rfl, fun _ => rfl⟩⟩
  | succ n ih =>
    obtain ⟨itab, ptab, told, panicked, entries⟩ := ih
    unfold bump
    generalize bump files n s = t at itab ptab told panicked entries
    dsimp only
    by_cases unset : files n = NO_FILE
    · rw [if_neg fun no => no unset]
      refine ⟨itab, ptab, told, panicked, fun k far => ?_⟩
      rw [naming_succ, unset, if_neg fun no => far no.symm]
      exact entries k far
    · rw [if_pos unset]
      refine ⟨itab, ptab, told, panicked, fun k far => ?_⟩
      obtain ⟨inode, access, refs, same⟩ := entries k far
      show (put t.oftab _ _ k).inode = _ ∧ (put t.oftab _ _ k).access = _ ∧ (_ →
        (put t.oftab _ _ k).refs = _) ∧ (_ → (put t.oftab _ _ k).refs = _)
      rw [naming_succ]
      by_cases me : files n = k
      · rw [me, put_same, if_pos rfl]
        refine ⟨inode, access, fun small => ?_, fun no => by omega⟩
        show ((t.oftab k).refs + 1) % 256 = _
        rw [refs (by omega)]
        omega
      · rw [put_ne _ _ (fun no => me no.symm), if_neg me]
        exact ⟨inode, access, refs, same⟩

/-- Descriptors are added, and the counts of their entries with them. -/
theorem Kept.grow (h : Kept s none) (calm : t.panicked = s.panicked) (inodes : t.itab = s.itab)
    (told : t.told = s.told)
    (entries : ∀ k, k < OFTSIZE → (t.oftab k).inode = (s.oftab k).inode ∧
      (t.oftab k).access = (s.oftab k).access ∧
      (names s k = 0 → names t k = 0 ∧ (t.oftab k).refs = (s.oftab k).refs) ∧
      (names s k ≠ 0 → names t k ≠ 0 ∧ (t.oftab k).refs = names t k))
    (files : ∀ p, p < PTABSIZE → (t.ptab p).live = true → ∀ fd, fd < UFTSIZE →
      (t.ptab p).files fd = NO_FILE ∨ (t.ptab p).files fd < OFTSIZE)
    (calls : ∀ p, p < PTABSIZE → (t.ptab p).live = true → (t.ptab p).call = .user ∨
      (t.ptab p).call = (s.ptab p).call ∧ (t.ptab p).files = (s.ptab p).files ∧
        (s.ptab p).live = true) : Kept t none := by
  have opened : ∀ p j, opens t p j → opens s p j := by
    intro p j opening
    obtain ⟨hp, live, u, g, call⟩ := opening
    rcases calls p hp live with awake | ⟨same, _, alive⟩
    · rw [awake] at call
      cases call
    · exact ⟨hp, alive, u, g, same ▸ call⟩
  have inside : ∀ p j, opens s p j → j < OFTSIZE := by
    intro p j opening
    obtain ⟨hp, live, u, g, call⟩ := opening
    have waits := h.waits p hp live
    rw [call] at waits
    exact waits.2.1
  have used : ∀ i, Flock.entries t i = Flock.entries s i := by
    intro i
    refine total_congr fun k hk => ?_
    obtain ⟨inode, _, without, named⟩ := entries k hk
    unfold Oft.uses
    rw [inode]
    by_cases zero : names s k = 0
    · rw [(without zero).2]
    · have count := (h.count k hk (by rw [owed_none]; exact zero)).1
      obtain ⟨some', refs⟩ := named zero
      rw [owed_none] at count
      rw [refs, count]
      by_cases here : (s.oftab k).inode = some i
      · rw [if_pos ⟨some', here⟩, if_pos ⟨zero, here⟩]
      · rw [if_neg fun no => here no.2, if_neg fun no => here no.2]
  refine ⟨calm.trans h.calm, fun i hi => ?_, fun i hi => ?_, fun k hk named => ?_,
    fun k hk unnamed => ?_, fun k hk i named => ?_, files, fun p hp live => ?_, fun p k opening => ?_⟩
  · rw [inodes]
    refine (h.locks i hi).congr fun k hk => ?_
    unfold holding
    rw [(entries k hk).1, told]
  · rw [used, inodes]
    exact h.refs i hi
  · rw [owed_none] at named ⊢
    obtain ⟨inode, access, without, more⟩ := entries k hk
    have before : names s k ≠ 0 := fun zero => named (without zero).1
    refine ⟨(more before).2, ?_⟩
    unfold openFile
    rw [inode, access, told]
    exact (h.count k hk (by rw [owed_none]; exact before)).2
  · rw [told]
    refine h.idle k hk ?_
    rw [owed_none] at unnamed ⊢
    by_contra named
    exact ((entries k hk).2.2.2 named).1 unnamed
  · rw [(entries k hk).1] at named
    exact h.range k hk i named
  · rcases calls p hp live with awake | ⟨same, files', alive⟩
    · rw [awake]
      trivial
    · rw [same]
      have before := h.waits p hp alive
      have unnamed : ∀ u k g, (s.ptab p).call = .opening u k g → names s k = 0 := by
        intro u k g call
        exact (h.booked p k ⟨hp, alive, u, g, call⟩).1
      refine before.keep files' (fun k stands => ?_) fun u k g call => ?_
      · cases call : (s.ptab p).call with
        | user =>
          rw [call] at stands
          cases stands
        | opening u e g =>
          rw [call] at stands before
          injection stands with here
          subst here
          exact (entries e before.2.1).1
        | flock i o lockop lock self =>
          rw [call] at stands before
          injection stands with here
          subst here
          exact (entries o before.2.1).1
      · exact ((entries k (inside p k ⟨hp, alive, u, g, call⟩)).2.2.1 (unnamed u k g call)).2
  · obtain ⟨unnamed, alone⟩ := h.booked p k (opened p k opening)
    exact ⟨((entries k (inside p k (opened p k opening))).2.2.1 unnamed).1,
      fun q other => alone q (opened q k other)⟩

theorem Kept.fork (h : Kept s none) (hp : p < PTABSIZE) (live : (s.ptab p).live = true)
    {c : Nat} (hc : c < PTABSIZE) (dead : (s.ptab c).live = false) :
    Kept (fork s p c) none ∧ Lets s (fork s p c) := by
  obtain ⟨itab, ptab, told, panicked, entries⟩ := bump_spec (s.ptab p).files s UFTSIZE
  have other : p ≠ c := by
    intro me
    rw [me, dead] at live
    cases live
  unfold Flock.fork
  dsimp only
  generalize bump (s.ptab p).files UFTSIZE s = t at itab ptab told panicked entries
  rw [ptab]
  have child : (modifyProc t c (fun _ =>
      { s.ptab p with live := true, call := .user, error := 0, answer := some 0 })).ptab c =
      { s.ptab p with live := true, call := .user, error := 0, answer := some 0 } := put_same _ _ _
  have rest : ∀ q, q ≠ c → (modifyProc t c (fun _ =>
      { s.ptab p with live := true, call := .user, error := 0, answer := some 0 })).ptab q =
      s.ptab q := fun q away => by rw [← ptab]; exact put_ne _ _ away
  have more : ∀ k, names (modifyProc t c (fun _ =>
      { s.ptab p with live := true, call := .user, error := 0, answer := some 0 })) k =
      names s k + naming (s.ptab p).files UFTSIZE k := by
    intro k
    have change := names_change (s := s) hc (fun q _ away => rest q away) k
    have before : (s.ptab c).names k = 0 := if_neg (by rw [dead]; exact Bool.false_ne_true)
    rw [child, before] at change
    exact change
  have mine : ∀ k, naming (s.ptab p).files UFTSIZE k ≤ names s k := by
    intro k
    have le := le_total (f := fun q => (s.ptab q).names k) hp
    have same : (s.ptab p).names k = naming (s.ptab p).files UFTSIZE k := if_pos live
    exact same ▸ le
  have kept : Kept (modifyProc t c (fun _ =>
      { s.ptab p with live := true, call := .user, error := 0, answer := some 0 })) none := by
    refine h.grow panicked itab told (fun k hk => ?_) (fun q hq alive => ?_) fun q hq alive => ?_
    · obtain ⟨inode, access, refs, same⟩ := entries k (fun no => entry_ne_none hk no.symm)
      refine ⟨inode, access, fun zero => ⟨?_, ?_⟩, fun named => ⟨?_, ?_⟩⟩
      · have le := mine k
        rw [more]
        omega
      · have le := mine k
        exact same (by omega)
      · rw [more]
        omega
      · have count := (h.count k hk (by rw [owed_none]; exact named)).1
        have small := bound (modifyProc t c (fun _ =>
          { s.ptab p with live := true, call := .user, error := 0, answer := some 0 })) none k
        rw [more, owed_none] at small
        rw [owed_none] at count
        rw [more]
        exact (refs (by omega)).trans (congrArg (· + _) count)
    · by_cases me : q = c
      · rw [me, child]
        exact h.files p hp live
      · rw [rest q me] at alive ⊢
        exact h.files q hq alive
    · by_cases me : q = c
      · rw [me, child]
        exact Or.inl rfl
      · rw [rest q me] at alive ⊢
        exact Or.inr ⟨rfl, rfl, alive⟩
  refine ⟨kept.reply p c, fun k hk => ⟨Or.inl (congrFun told k), fun zero => ?_⟩⟩
  have unnamed : names s k = 0 := by
    by_contra named
    have count := (h.count k hk (by rw [owed_none]; exact named)).1
    rw [owed_none] at count
    omega
  have le := mine k
  obtain ⟨_, _, _, same⟩ := entries k (fun no => entry_ne_none hk no.symm)
  exact (same (by omega)).trans zero

end Calls

end Flock
