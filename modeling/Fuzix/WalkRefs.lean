import Fuzix.RefRuns

/-!
# The references a path walk leaves

What `kn_open` adds to the counts of the in-core inodes. Each `..` in the root of the process goes
on with one reference for two pointers, and the count of that inode stays one behind.
-/

set_option linter.unusedSectionVars false

namespace Fuzix

open Wp Table Words

variable [Build]

/-- The counts since the state `s`: the references of `X` are held, and `lost` of the process's root are
missing. -/
structure Since (s t : Kernel) (X : List Nat) (lost : Nat) : Prop where
  root : t.u.root = s.u.root
  refs : ∀ i, (t.itab i).refs + (if i = s.u.root then lost else 0) = (s.itab i).refs + X.count i

/-- The counts are not about to wrap. -/
def RefsFit (s : Kernel) : Prop := ∀ i, (s.itab i).refs + 4 < 256

/-- No count and no directory of the process changes. -/
structure Unmoved (s t : Kernel) : Prop where
  root : t.u.root = s.u.root
  refs : ∀ i, (t.itab i).refs = (s.itab i).refs

/-- A walk may stop where it wants. -/
def Anyhow : Stop → Prop := fun _ => True

section Counts
variable {s t u : Kernel} {X : List Nat} {lost : Nat}

theorem Since.unmoved (since : Since s t X lost) (same : Unmoved t u) : Since s u X lost := by
  constructor
  · exact same.root.trans since.root
  · intro i
    rw [same.refs]
    exact since.refs i

theorem Since.perm {X' : List Nat} (since : Since s t X lost) (h : X.Perm X') : Since s t X' lost := by
  constructor
  · exact since.root
  · intro i
    rw [← h.count_eq]
    exact since.refs i

theorem DataOnly.unmoved (h : DataOnly s t) : Unmoved s t :=
  ⟨h.dirs.2, fun i => congrArg Users.refs (h.itab i)⟩

theorem wp_quiet {α : Type} {m : K α} (quiet : Quiet m) (since : Since s t X lost) :
    wp Anyhow m (fun _ u => Since s u X lost) t :=
  wp_stop_mono (wp_mono (quiet t) fun _ _ data => since.unmoved data.unmoved) fun _ _ => trivial

theorem Since.incr (fits : RefsFit s) (since : Since s t X lost) (few : X.length ≤ 3) {i : Nat} {c : Cinode}
    (refs : c.refs = ((t.itab i).refs + 1) % 256) : Since s { t with itab := put t.itab i c } (i :: X) lost := by
  constructor
  · exact since.root
  · intro j
    have before := since.refs j
    have small := fits j
    have count : X.count j ≤ X.length := List.count_le_length
    show (put t.itab i c j).refs + _ = _
    by_cases here : j = i
    · subst here
      rw [put_same, refs, List.count_cons_self]
      omega
    · rw [put_ne _ _ here, List.count_cons_of_ne (Ne.symm here)]
      exact before

theorem since_iRef (fits : RefsFit s) (since : Since s t X lost) (few : X.length ≤ 3) (i : Nat) :
    wp Anyhow (iRef i) (fun _ u => Since s u (i :: X) lost) t :=
  since.incr fits few rfl

theorem since_iDeref {i : Nat} (since : Since s t (i :: X) lost) :
    wp Anyhow (iDeref i) (fun _ u => Since s u X lost) t := by
  by_cases pos : 0 < (t.itab i).refs
  · refine wp_stop_mono (wp_mono (wp_iDeref_of_pos pos) ?_) fun _ _ => trivial
    intro _ u data
    refine Since.unmoved ?_ data.unmoved
    constructor
    · exact since.root
    · intro j
      have before := since.refs j
      show (put t.itab i _ j).refs + _ = _
      by_cases here : j = i
      · subst here
        rw [put_same]
        rw [List.count_cons_self] at before
        dsimp only
        omega
      · rw [put_ne _ _ here]
        rw [List.count_cons_of_ne (Ne.symm here)] at before
        exact before
  · unfold iDeref
    simp only [wp_bind]
    refine wp_magic i trivial ?_
    rw [wp_get, wp_ite]
    refine ⟨fun _ => trivial, fun no => absurd (Nat.eq_zero_of_not_pos pos) no⟩

theorem since_iCheck (fits : RefsFit s) (since : Since s t X lost) (few : X.length ≤ 3) (j : Nat) (isnew : Bool) :
    wp Anyhow (iCheck j isnew) (fun r u => Since s u (r.toList ++ X) lost) t := by
  unfold iCheck
  rw [wp_bind, wp_get, wp_ite]
  constructor
  · intro _
    exact since.incr fits few rfl
  · intro _
    exact since

theorem since_iGet (fits : RefsFit s) (since : Since s t X lost) (few : X.length ≤ 3) (dev ino : Nat) (isnew : Bool) :
    wp Anyhow (iGet dev ino isnew) (fun r u => Since s u (r.toList ++ X) lost) t := by
  unfold iGet
  rw [wp_bind, wp_get]
  split
  · trivial
  · rw [wp_ite]
    constructor
    · intro _
      exact since
    · intro _
      split
      · rw [wp_bind]
        exact wp_quiet (quiet_setError ENFILE) since
      · exact since_iCheck fits since few _ isnew
      · rename_i j _
        rw [wp_bind]
        refine wp_mono (wp_quiet (quiet_bread dev _) since) ?_
        intro buf u since
        cases buf with
        | none => exact since
        | some b =>
          rw [wp_bind, wp_modifyInode]
          refine since_iCheck fits (since.unmoved ?_) few j isnew
          exact ⟨rfl, fun i => put_fixed (g := Cinode.refs) rfl⟩

theorem since_iOpen (fits : RefsFit s) (since : Since s t X lost) (few : X.length ≤ 3) (dev ino : Nat) :
    wp Anyhow (iOpen dev ino) (fun r u => Since s u (r.toList ++ X) lost) t := by
  unfold iOpen
  rw [wp_ite]
  constructor
  · intro _
    trivial
  · intro _
    rw [wp_ite]
    constructor
    · intro _
      rw [wp_bind]
      refine wp_mono (wp_quiet (quiet_iAlloc dev) since) ?_
      intro new u since
      rw [wp_ite]
      constructor
      · intro _
        rw [wp_bind]
        exact wp_quiet (quiet_setError ENOSPC) since
      · intro _
        exact since_iGet fits since few dev new true
    · intro _
      exact since_iGet fits since few dev ino false

theorem since_srchFrom (fits : RefsFit s) (few : X.length ≤ 3) (wd : Nat) (name : List UInt8) (nblocks n : Nat)
    (since : Since s t X lost) :
    wp Anyhow (srchFrom wd name nblocks n) (fun r u => Since s u (r.toList ++ X) lost) t := by
  induction n generalizing t with
  | zero => exact since
  | succ n ih =>
    unfold srchFrom
    rw [wp_bind, wp_get, wp_bind]
    refine wp_mono (wp_quiet (quiet_bmap wd _ true) since) ?_
    intro blk u since
    rw [wp_bind]
    refine wp_mono (wp_quiet (quiet_bread _ blk) since) ?_
    intro buf v since
    cases buf with
    | none => exact since
    | some b =>
      dsimp only
      split
      · exact since_iOpen fits since few _ _
      · exact ih since

theorem since_srchDir (fits : RefsFit s) (since : Since s t X lost) (few : X.length ≤ 3) (wd : Nat)
    (name : List UInt8) : wp Anyhow (srchDir wd name) (fun r u => Since s u (r.toList ++ X) lost) t := by
  unfold srchDir
  rw [wp_bind, wp_get]
  exact since_srchFrom fits few wd name _ _ since

theorem since_enter (fits : RefsFit s) {ninode : Option Nat} (since : Since s t (ninode.toList ++ X) lost)
    (few : X.length ≤ 3) : wp Anyhow (enter ninode) (fun r u => Since s u (r.toList ++ X) lost) t := by
  cases ninode with
  | none => exact since
  | some n =>
    unfold enter
    rw [wp_bind]
    refine wp_magic n trivial ?_
    rw [wp_bind]
    refine wp_mono (wp_quiet (quiet_modifyU ?_) since) ?_
    · intro u
      rfl
    · intro _ u since
      unfold srchMt
      rw [wp_bind, wp_get]
      split
      · exact since
      · rw [wp_bind]
        refine wp_mono (since_iDeref since) ?_
        intro _ v since
        rw [wp_bind, wp_get]
        exact since_iOpen fits since few _ _

theorem since_lookup (fits : RefsFit s) {n : Nat} (since : Since s t (n :: X) lost) (few : X.length ≤ 2)
    (name : List UInt8) :
    wp Anyhow (lookup n name) (fun r u => Since s u (r.2.toList ++ r.1 :: X) lost) t := by
  have few' : ∀ wd, (wd :: X).length ≤ 3 := by
    intro wd
    rw [List.length_cons]
    omega
  have search : ∀ wd u, Since s u (wd :: X) lost → wp Anyhow (do
      let found ← srchDir wd name
      return (wd, found)) (fun r u => Since s u (r.2.toList ++ r.1 :: X) lost) u := by
    intro wd u since
    rw [wp_bind]
    exact since_srchDir fits since (few' wd) wd name
  unfold lookup
  rw [wp_bind, wp_get, wp_ite]
  constructor
  · intro _
    rw [wp_bind]
    unfold leaveMount
    rw [wp_bind, wp_get]
    split
    · trivial
    · split
      · trivial
      · rename_i temp _
        rw [wp_bind]
        refine wp_mono (since_iRef fits since (few' n) temp) ?_
        intro _ u since
        rw [wp_bind]
        refine wp_mono (since_iDeref (since.perm (List.Perm.swap n temp X))) ?_
        intro _ v since
        exact search temp v since
  · intro _
    exact search n t since

/-! ## The walk -/

/-- What the caller of a walk is given. -/
def results : Option (Nat × Option Nat) → List Nat
  | none => []
  | some (wd, ninode) => ninode.toList ++ [wd]

/-- Runs are determined. -/
theorem run_unique {α : Type} {m : K α} {a b : α} (first : m s = .ok (a, t)) (second : m s = .ok (b, u)) :
    a = b ∧ t = u := by
  have same := first.symm.trans second
  injection same with same
  injection same with left right
  exact ⟨left, right⟩

theorem since_refuse (e n : Nat) (since : Since s t [n] lost) : wp Anyhow (do
    setError e
    iDeref n
    return (none : Option (Nat × Option Nat))) (fun r u => Since s u (results r) lost) t := by
  rw [wp_bind]
  refine wp_mono (wp_quiet (quiet_setError e) since) ?_
  intro _ v since
  rw [wp_bind]
  exact since_iDeref since

theorem since_walk (fits : RefsFit s) (names : List (List UInt8)) (wd : Nat) (ninode : Option Nat)
    (since : Since s t (ninode.toList ++ [wd]) lost) :
    wp Anyhow (walk names wd ninode) (fun r u => ∃ more, Since s u (results r) (lost + more) ∧
      (0 < more ↔ climbsRoot names wd ninode t)) t := by
  induction names generalizing wd ninode t lost with
  | nil =>
    unfold walk
    rw [wp_bind]
    refine wp_mono (since_enter fits since (by simp)) ?_
    intro found u since
    exact ⟨0, since, iff_of_false (lt_irrefl 0) id⟩
  | cons name rest ih =>
    unfold walk
    rw [wp_bind]
    refine wp_mono (wp_run (since_enter fits since (by simp))) ?_
    rintro found u ⟨since, entered⟩
    cases found with
    | none =>
      refine wp_mono (since_refuse ENOENT wd since) ?_
      intro r v since
      refine ⟨0, since, iff_of_false (lt_irrefl 0) ?_⟩
      rintro ⟨n, _, _, entered', _⟩
      have no := (run_unique entered entered').1
      cases no
    | some n =>
      rw [wp_bind]
      refine wp_mono (wp_run (since_iDeref (since.perm (List.Perm.swap wd n [])))) ?_
      rintro _ v ⟨since, left⟩
      -- the states of a climb are the ones here
      have here : climbsRoot (name :: rest) wd ninode t → fmt (v.itab n).node.mode = F_DIR ∧
          maySearch (getperm v n) = true ∧ (name = dotdot ∧ n = v.u.root ∨
            ∃ wd' found w, lookup n name v = .ok ((wd', found), w) ∧ climbsRoot rest wd' found w) := by
        rintro ⟨n', t', u', entered', left', isDir, search, goes⟩
        obtain ⟨same, sameT⟩ := run_unique entered entered'
        injection same with same
        subst same
        subst sameT
        obtain ⟨_, sameU⟩ := run_unique left left'
        subst sameU
        exact ⟨isDir, search, goes⟩
      rw [wp_bind, wp_get]
      dsimp only
      rw [wp_ite]
      constructor
      · intro notDir
        refine wp_mono (since_refuse ENOTDIR n since) ?_
        intro r w since
        exact ⟨0, since, iff_of_false (lt_irrefl 0) fun climb => notDir (here climb).1⟩
      · intro isDir
        have isDir := not_not.mp isDir
        rw [wp_ite]
        constructor
        · intro closed
          refine wp_mono (since_refuse EACCES n since) ?_
          intro r w since
          refine ⟨0, since, iff_of_false (lt_irrefl 0) fun climb => ?_⟩
          have open' := (here climb).2.1
          rw [closed] at open'
          cases open'
        · intro search
          have search := Bool.eq_true_of_not_eq_false search
          rw [wp_ite]
          constructor
          · intro up
            have owed : Since s v ((some n).toList ++ [n]) (lost + 1) := by
              constructor
              · exact since.root
              · intro i
                have before := since.refs i
                have isRoot : n = s.u.root := up.2.trans since.root
                show _ = _ + [n, n].count i
                by_cases same : i = n
                · rw [same, if_pos isRoot] at before
                  rw [same, if_pos isRoot]
                  simp only [List.count_cons_self, List.count_nil] at before ⊢
                  omega
                · have other : ¬ i = s.u.root := fun no => same (no.trans isRoot.symm)
                  rw [if_neg other] at before ⊢
                  rw [List.count_cons_of_ne (Ne.symm same)] at before
                  rw [List.count_cons_of_ne (Ne.symm same), List.count_cons_of_ne (Ne.symm same)]
                  exact before
            refine wp_mono (ih n (some n) owed) ?_
            rintro r w ⟨more, since, _⟩
            refine ⟨1 + more, ?_, ?_⟩
            · rw [← Nat.add_assoc]
              exact since
            · exact iff_of_true (by omega) ⟨n, u, v, entered, left, isDir, search, Or.inl up⟩
          · intro down
            rw [wp_bind]
            refine wp_mono (wp_run (since_lookup fits since (by simp) name)) ?_
            rintro ⟨wd', found⟩ w ⟨since, looked⟩
            refine wp_mono (ih wd' found since) ?_
            rintro r z ⟨more, since, climbs⟩
            refine ⟨more, since, climbs.trans ?_⟩
            constructor
            · intro further
              exact ⟨n, u, v, entered, left, isDir, search, Or.inr ⟨wd', found, w, looked, further⟩⟩
            · intro climb
              rcases (here climb).2.2 with up | ⟨wd'', found', w', looked', further⟩
              · exact absurd up down
              · obtain ⟨same, sameW⟩ := run_unique looked looked'
                injection same with sameWd sameFound
                subst sameWd
                subst sameFound
                subst sameW
                exact further

theorem since_knWalk (fits : RefsFit s) (path : List UInt8) :
    wp Anyhow (knWalk path) (fun r t => ∃ more, Since s t (results r) more ∧ (0 < more ↔ climbs path s)) s := by
  have start : Since s s [] 0 := ⟨rfl, fun i => by simp⟩
  unfold knWalk
  rw [wp_bind, wp_get, wp_bind]
  refine wp_mono (wp_run (since_iRef fits start (by simp) _)) ?_
  rintro _ t ⟨since, first⟩
  rw [wp_bind]
  refine wp_mono (wp_run (since_iRef fits since (by simp) _)) ?_
  rintro _ u ⟨since, second⟩
  refine wp_mono (since_walk fits (components path) _ (some (startOf s path)) since) ?_
  rintro r v ⟨more, since, climb⟩
  rw [Nat.zero_add] at since
  refine ⟨more, since, climb.trans ?_⟩
  constructor
  · intro up
    exact ⟨t, u, first, second, up⟩
  · rintro ⟨t', u', first', second', up⟩
    obtain ⟨_, sameT⟩ := run_unique first first'
    subst sameT
    obtain ⟨_, sameU⟩ := run_unique second second'
    subst sameU
    exact up

/-- The counts that a caller expects are there if the walk lost no reference. -/
theorem Since.exact {more : Nat} (since : Since s t X more) :
    (∀ i, (t.itab i).refs = (s.itab i).refs + X.count i) ↔ more = 0 := by
  constructor
  · intro exact
    have sum := since.refs s.u.root
    rw [if_pos rfl, exact] at sum
    omega
  · intro none i
    have sum := since.refs i
    rw [none] at sum
    simpa using sum

end Counts

/-- `kn_open` leaves one reference more to what it returns and to the parent it sets, and no other
change, in just those calls that do not come to `..` in the root of the process. -/
theorem kn_open_refs {s : Kernel} (path : List UInt8) (fits : RefsFit s) :
    (∀ r parent t, knOpenParent path s = .ok ((r, parent), t) →
      ((∀ i, (t.itab i).refs = (s.itab i).refs + (r.toList ++ parent.toList).count i) ↔ ¬ climbs path s)) ∧
    ∀ r t, knOpen path s = .ok (r, t) →
      ((∀ i, (t.itab i).refs = (s.itab i).refs + r.toList.count i) ↔ ¬ climbs path s) := by
  constructor
  · intro r parent t run
    have post : wp Anyhow (knOpenParent path) (fun out t => ∃ more,
        Since s t (out.1.toList ++ out.2.toList) more ∧ (0 < more ↔ climbs path s)) s := by
      unfold knOpenParent
      rw [wp_bind]
      refine wp_mono (since_knWalk fits path) ?_
      rintro found t ⟨more, since, climb⟩
      cases found with
      | none => exact ⟨more, since, climb⟩
      | some found => exact ⟨more, since, climb⟩
    obtain ⟨more, since, climb⟩ := wp_ok post run
    rw [← climb]
    exact since.exact.trans (by omega)
  · intro r t run
    have post : wp Anyhow (knOpen path) (fun out t => ∃ more,
        Since s t out.toList more ∧ (0 < more ↔ climbs path s)) s := by
      unfold knOpen
      rw [wp_bind]
      refine wp_mono (since_knWalk fits path) ?_
      rintro found t ⟨more, since, climb⟩
      cases found with
      | none => exact ⟨more, since, climb⟩
      | some found =>
        obtain ⟨wd, ninode⟩ := found
        have since : Since s t (wd :: ninode.toList) more := by
          refine since.perm ?_
          exact List.perm_append_comm
        rw [wp_bind]
        refine wp_mono (since_iDeref since) ?_
        intro _ u since
        rw [wp_bind]
        refine wp_mono (wp_quiet (quiet_onlyIf (quiet_setError ENOENT)) since) ?_
        intro _ v since
        exact ⟨more, since, climb⟩
    obtain ⟨more, since, climb⟩ := wp_ok post run
    rw [← climb]
    exact since.exact.trans (by omega)

omit [Build] in
set_option maxRecDepth 10000 in
/-- `/` with a parent: the root directory is both. -/
theorem kn_open_refs_root : @RefsFit rootOnly ∧ ∃ t, @knOpenParent tiny [slash] rootOnly = .ok ((some 0, some 0), t) ∧
    (t.itab 0).refs = 5 := by
  let _ := tiny
  have fits : RefsFit rootOnly := by
    intro i
    by_cases here : i = 0
    · rw [here]
      decide
    · simp [rootOnly, here, oneNode]
  have run : ∃ t, knOpenParent [slash] rootOnly = .ok ((some 0, some 0), t) := ⟨_, rfl⟩
  obtain ⟨t, run⟩ := run
  have sound : ¬ climbs [slash] rootOnly := by
    rintro ⟨_, _, _, _, no⟩
    exact no
  exact ⟨fits, t, run, ((kn_open_refs [slash] fits).1 _ _ t run).mpr sound 0⟩

omit [Build] in
set_option maxRecDepth 10000 in
/-- `..` in the root of the process: no count is higher for the inode that is returned. -/
theorem kn_open_unreferenced : ∃ (_ : Build) (s t : Kernel) (i : Nat), RefsFit s ∧
    knOpen dotdot s = .ok (some i, t) ∧ (t.itab i).refs = (s.itab i).refs := by
  let build := tiny
  refine ⟨build, rootOnly, _, 0, kn_open_refs_root.1, rfl, rfl⟩

end Fuzix
