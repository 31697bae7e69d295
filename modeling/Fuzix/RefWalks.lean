import Fuzix.RefCounts

/-!
# References along a path walk

A walk holds the directory it searched last and what it found there. Every function
of the walk takes references and hands them on: the lists in the statements are what
the caller of each holds before and after it.
-/

set_option linter.unusedSectionVars false

namespace Fuzix

open Wp Table Words

variable [Build]

theorem Counted.null : Counted .null := by simp [Counted]

theorem Counted.panic {e : Panic} (h : e ≠ .inodeFreed) : Counted (.panic e) := by
  simp [Counted, h]

section Walk
variable {s t : Kernel} {X : List Nat}

theorem wp_held {α : Type} {m : K α} (held : Held m) (a : RefAcc s X []) :
    wp Counted m (fun _ t => RefAcc t X []) s :=
  wp_mono (held s) fun _ _ kept => kept.acc a

/-! ## Opening an inode -/

theorem wp_iCheck (a : RefAcc s X []) (few : X.length ≤ 14) (j : Nat) (isnew : Bool) :
    wp Counted (iCheck j isnew) (fun r t => RefAcc t (r.toList ++ X) []) s := by
  unfold iCheck
  rw [wp_bind, wp_get, wp_ite]
  exact ⟨fun _ => a.incr few j rfl, fun _ => a⟩

theorem wp_iGet (a : RefAcc s X []) (few : X.length ≤ 14) (dev ino : Nat) (isnew : Bool) :
    wp Counted (iGet dev ino isnew) (fun r t => RefAcc t (r.toList ++ X) []) s := by
  unfold iGet
  rw [wp_bind, wp_get]
  split
  · exact Counted.null
  · rw [wp_ite]
    refine ⟨fun _ => a, fun _ => ?_⟩
    split
    · rw [wp_bind]
      exact wp_held (held_setError ENFILE) a
    · exact wp_iCheck a few _ isnew
    · rename_i j _
      rw [wp_bind]
      refine wp_mono (held_of_quiet (quiet_bread dev _) s) fun buf t kept => ?_
      cases buf with
      | none => exact kept.acc a
      | some b =>
        rw [wp_bind]
        refine wp_mono (held_modifyInode j ?_ t) fun _ u (loaded : RefsKept t u) => ?_
        · exact fun _ => rfl
        · exact wp_iCheck ((kept.trans loaded).acc a) few j isnew

theorem wp_iOpen (a : RefAcc s X []) (few : X.length ≤ 14) (dev ino : Nat) :
    wp Counted (iOpen dev ino) (fun r t => RefAcc t (r.toList ++ X) []) s := by
  unfold iOpen
  rw [wp_ite]
  refine ⟨fun _ => Counted.panic (by decide), fun _ => ?_⟩
  rw [wp_ite]
  refine ⟨fun _ => ?_, fun _ => wp_iGet a few dev ino false⟩
  rw [wp_bind]
  refine wp_mono (held_of_quiet (quiet_iAlloc dev) s) fun new t kept => ?_
  rw [wp_ite]
  refine ⟨fun _ => ?_, fun _ => wp_iGet (kept.acc a) few dev new true⟩
  rw [wp_bind]
  exact wp_held (held_setError ENOSPC) (kept.acc a)

/-! ## One step of the walk -/

theorem wp_srchFrom (wd : Nat) (name : List UInt8) (nblocks : Nat) :
    ∀ n s, RefAcc s X [] → X.length ≤ 14 →
      wp Counted (srchFrom wd name nblocks n) (fun r t => RefAcc t (r.toList ++ X) []) s
  | 0, _, a, _ => a
  | n + 1, s, a, few => by
    unfold srchFrom
    rw [wp_bind, wp_get, wp_bind]
    refine wp_mono (held_of_quiet (quiet_bmap wd _ true) s) fun blk t kept => ?_
    rw [wp_bind]
    refine wp_mono (held_of_quiet (quiet_bread _ blk) t) fun buf u kept' => ?_
    have a := (kept.trans kept').acc a
    cases buf with
    | none => exact a
    | some b =>
      dsimp only
      split
      · exact wp_iOpen a few _ _
      · exact wp_srchFrom wd name nblocks n u a few

theorem wp_srchDir (a : RefAcc s X []) (few : X.length ≤ 14) (wd : Nat) (name : List UInt8) :
    wp Counted (srchDir wd name) (fun r t => RefAcc t (r.toList ++ X) []) s := by
  unfold srchDir
  rw [wp_bind, wp_get]
  exact wp_srchFrom wd name _ _ s a few

theorem wp_srchMt {n : Nat} (a : RefAcc s (n :: X) []) (few : X.length ≤ 14) :
    wp Counted (srchMt n) (fun r t => RefAcc t (r.toList ++ X) []) s := by
  unfold srchMt
  rw [wp_bind, wp_get]
  split
  · exact a
  · rw [wp_bind]
    refine wp_mono (wp_iDeref a) fun _ t a => ?_
    rw [wp_bind, wp_get]
    exact wp_iOpen a few _ _

theorem wp_enter {ninode : Option Nat} (a : RefAcc s (ninode.toList ++ X) [])
    (few : X.length ≤ 14) :
    wp Counted (enter ninode) (fun r t => RefAcc t (r.toList ++ X) []) s := by
  cases ninode with
  | none => exact a
  | some n =>
    unfold enter
    rw [wp_bind]
    refine wp_magic n (Counted.panic (by decide)) ?_
    rw [wp_bind]
    refine wp_mono (held_modifyU ?_ ?_ s) fun _ t (kept : RefsKept s t) => ?_
    · exact fun _ => rfl
    · exact fun _ => rfl
    · exact wp_srchMt (kept.acc a) few

theorem wp_leaveMount {wd : Nat} (a : RefAcc s (wd :: X) []) (few : X.length ≤ 13) :
    wp Counted (leaveMount wd) (fun r t => RefAcc t (r :: X) []) s := by
  unfold leaveMount
  rw [wp_bind, wp_get]
  split
  · exact Counted.null
  · split
    · exact Counted.null
    · rename_i temp _
      have few' : (wd :: X).length ≤ 14 := by
        rw [List.length_cons]
        omega
      rw [wp_bind]
      refine wp_mono (wp_iRef a few' temp) fun _ t a => ?_
      rw [wp_bind]
      exact wp_iDeref (a.perm (List.Perm.swap wd temp X))

theorem wp_lookup {n : Nat} (a : RefAcc s (n :: X) []) (few : X.length ≤ 13)
    (name : List UInt8) :
    wp Counted (lookup n name)
      (fun r t => RefAcc t (r.2.toList ++ r.1 :: X) []) s := by
  have few' : ∀ wd, (wd :: X).length ≤ 14 := fun wd => by
    rw [List.length_cons]
    omega
  unfold lookup
  rw [wp_bind, wp_get, wp_ite]
  refine ⟨fun _ => ?_, fun _ => ?_⟩
  · rw [wp_bind]
    refine wp_mono (wp_leaveMount a few) fun wd t a => ?_
    rw [wp_bind]
    exact wp_srchDir a (few' wd) wd name
  · rw [wp_bind]
    exact wp_srchDir a (few' n) n name

/-! ## The walk -/

/-- The walk comes to `..` in the root of the process, where it goes on with one
reference for two pointers. -/
def climbsRoot : List (List UInt8) → Nat → Option Nat → Kernel → Prop
  | [], _, _, _ => False
  | name :: rest, wd, ninode, s =>
    ∃ n t u, enter ninode s = .ok (some n, t) ∧ iDeref wd t = .ok ((), u) ∧
      fmt (u.itab n).node.mode = F_DIR ∧ maySearch (getperm u n) = true ∧
      (name = dotdot ∧ n = u.u.root ∨
        ∃ wd' found v, lookup n name u = .ok ((wd', found), v) ∧ climbsRoot rest wd' found v)

theorem wp_walk : ∀ names wd ninode s, RefAcc s (ninode.toList ++ wd :: X) [] →
    X.length ≤ 11 → ¬ climbsRoot names wd ninode s →
    wp Counted (walk names wd ninode) (fun r t => match r with
      | none => RefAcc t X []
      | some (wd, ninode) => RefAcc t (ninode.toList ++ wd :: X) []) s
  | [], wd, ninode, s, a, few, _ => by
    unfold walk
    rw [wp_bind]
    exact wp_enter a (by rw [List.length_cons]; omega)
  | name :: rest, wd, ninode, s, a, few, sound => by
    unfold walk
    rw [wp_bind]
    refine wp_mono (wp_run (wp_enter a (by rw [List.length_cons]; omega))) ?_
    rintro found t ⟨a, entered⟩
    cases found with
    | none =>
      rw [wp_bind]
      refine wp_mono (held_setError ENOENT t) fun _ u kept => ?_
      rw [wp_bind]
      exact wp_iDeref (kept.acc a)
    | some n =>
      rw [wp_bind]
      have a : RefAcc t (wd :: n :: X) [] := a.perm (List.Perm.swap wd n X)
      refine wp_mono (wp_run (wp_iDeref a)) ?_
      rintro _ u ⟨a, left⟩
      rw [wp_bind, wp_get]
      dsimp only
      rw [wp_ite]
      refine ⟨fun _ => ?_, fun isDir => ?_⟩
      · rw [wp_bind]
        refine wp_mono (held_setError ENOTDIR u) fun _ v kept => ?_
        rw [wp_bind]
        exact wp_iDeref (kept.acc a)
      · rw [wp_ite]
        refine ⟨fun _ => ?_, fun search => ?_⟩
        · rw [wp_bind]
          refine wp_mono (held_setError EACCES u) fun _ v kept => ?_
          rw [wp_bind]
          exact wp_iDeref (kept.acc a)
        · have isDir := not_not.mp isDir
          have search := Bool.eq_true_of_not_eq_false search
          rw [wp_ite]
          refine ⟨fun up => ?_, fun down => ?_⟩
          · exact absurd ⟨n, t, u, entered, left, isDir, search, Or.inl up⟩ sound
          · rw [wp_bind]
            refine wp_mono (wp_run (wp_lookup a (by omega) name)) ?_
            rintro ⟨wd', found⟩ v ⟨a, looked⟩
            refine wp_walk rest wd' found v a few fun more => sound ?_
            exact ⟨n, t, u, entered, left, isDir, search, Or.inr ⟨wd', found, v, looked, more⟩⟩

/-- The walk of a path that comes to `..` in the root of the process. -/
def climbs (path : List UInt8) (s : Kernel) : Prop :=
  ∃ t u, iRef (startOf s path) s = .ok ((), t) ∧ iRef (startOf s path) t = .ok ((), u) ∧
    climbsRoot (components path) (startOf s path) (some (startOf s path)) u

/-- No walk of this name from this state does. -/
def pathSound (name : Path) (s : Kernel) : Prop :=
  ∀ path, name = some path → After evict s fun _ t => ¬ climbs path t

theorem wp_knWalk (a : RefAcc s X []) (few : X.length ≤ 8) {path : List UInt8}
    (sound : ¬ climbs path s) :
    wp Counted (knWalk path) (fun r t => match r with
      | none => RefAcc t X []
      | some (wd, ninode) => RefAcc t (ninode.toList ++ wd :: X) []) s := by
  unfold knWalk
  rw [wp_bind, wp_get, wp_bind]
  refine wp_mono (wp_run (wp_iRef a (by omega) _)) ?_
  rintro _ t ⟨a, first⟩
  rw [wp_bind]
  refine wp_mono (wp_run (wp_iRef a (by rw [List.length_cons]; omega) _)) ?_
  rintro _ u ⟨a, second⟩
  exact wp_walk _ _ _ u a (by omega) fun climb => sound ⟨t, u, first, second, climb⟩

theorem wp_nOpenParent (a : RefAcc s X []) (few : X.length ≤ 8) {name : Path}
    (sound : pathSound name s) :
    wp Counted (nOpenParent name) (fun r t =>
      RefAcc t (r.1.toList ++ r.2.toList ++ X) [] ∧ (r.2 = none → r.1 = none)) s := by
  unfold nOpenParent
  rw [wp_bind]
  refine wp_mono (wp_run (held_of_quiet quiet_evict s)) ?_
  rintro x t ⟨kept, evicted⟩
  have a := kept.acc a
  cases name with
  | none =>
    rw [wp_bind]
    refine wp_mono (held_setError EFAULT t) fun _ u kept => ?_
    exact ⟨kept.acc a, fun _ => rfl⟩
  | some path =>
    unfold knOpenParent
    rw [wp_bind]
    refine wp_mono (wp_knWalk a few (sound path rfl x t evicted)) fun r u a => ?_
    rcases r with none | ⟨wd, ninode⟩
    · exact ⟨a, fun _ => rfl⟩
    · refine ⟨?_, fun no => by cases no⟩
      rw [List.append_assoc]
      exact a

theorem wp_nOpen (a : RefAcc s X []) (few : X.length ≤ 8) {name : Path}
    (sound : pathSound name s) :
    wp Counted (nOpen name) (fun r t => RefAcc t (r.toList ++ X) []) s := by
  unfold nOpen
  rw [wp_bind]
  refine wp_mono (wp_run (held_of_quiet quiet_evict s)) ?_
  rintro x t ⟨kept, evicted⟩
  have a := kept.acc a
  cases name with
  | none =>
    rw [wp_bind]
    exact wp_held (held_setError EFAULT) a
  | some path =>
    unfold knOpen
    rw [wp_bind]
    refine wp_mono (wp_knWalk a few (sound path rfl x t evicted)) fun r u a => ?_
    rcases r with none | ⟨wd, ninode⟩
    · exact a
    · have a : RefAcc u (wd :: (ninode.toList ++ X)) [] := a.perm List.perm_middle
      rw [wp_bind]
      refine wp_mono (wp_iDeref a) fun _ v a => ?_
      rw [wp_bind]
      refine wp_mono (Keeps.ite (held_setError ENOENT) (Keeps.pure ()) v) fun _ w kept => ?_
      exact RefsKept.acc kept a

/-! ## Making and removing entries -/

theorem held_filenameOf (name : Path) : Held (filenameOf name) :=
  held_of_quiet (quiet_filenameOf name)

theorem held_chLink (wd : Nat) (oldname newname : List UInt8) (nindex : Option Nat) :
    Held (chLink wd oldname newname nindex) :=
  held_of_quiet (quiet_chLink wd oldname newname nindex)

theorem held_wrInode (i : Nat) : Held (wrInode i) := held_of_quiet (quiet_wrInode i)

theorem held_setftime (i : Nat) (flag : Times) : Held (setftime i flag) :=
  held_of_quiet (quiet_setftime i flag)

theorem held_modifyNode (i : Nat) (f : Dinode → Dinode) : Held (modifyNode i f) :=
  held_modifyInode i fun _ => rfl

theorem held_pure {α : Type} (a : α) : Held (pure a) := Keeps.pure a

/-- `newfile` takes the reference to the parent. -/
theorem wp_newfile {pino : Nat} (a : RefAcc s (pino :: X) []) (few : X.length ≤ 8)
    (name : List UInt8) :
    wp Counted (newfile pino name) (fun r t => RefAcc t (r.toList ++ X) []) s := by
  have refuse : ∀ e u, RefAcc u (pino :: X) [] → wp Counted (do
      setError e
      iDeref pino
      return (none : Option Nat)) (fun r t => RefAcc t (r.toList ++ X) []) u := by
    intro e u a
    rw [wp_bind]
    refine wp_mono (held_setError e u) fun _ v kept => ?_
    rw [wp_bind]
    exact wp_iDeref (kept.acc a)
  unfold newfile
  rw [wp_bind, wp_get, wp_ite]
  refine ⟨fun _ => refuse EROFS s a, fun _ => ?_⟩
  rw [wp_ite]
  refine ⟨fun _ => refuse EPERM s a, fun _ => ?_⟩
  rw [wp_bind]
  refine wp_mono (wp_iOpen a (by rw [List.length_cons]; omega) _ 0) fun made t a => ?_
  cases made with
  | none => exact refuse ENFILE t a
  | some nindex =>
    have a : RefAcc t (pino :: nindex :: X) [] := a.perm (List.Perm.swap pino nindex X)
    rw [wp_bind]
    refine wp_mono (held_modifyNode nindex _ t) fun _ u kept₁ => ?_
    rw [wp_bind]
    refine wp_mono (held_wrInode nindex u) fun _ v kept₂ => ?_
    rw [wp_bind]
    refine wp_mono (held_chLink pino [] name _ v) fun linked w kept₃ => ?_
    have a := ((kept₁.trans kept₂).trans kept₃).acc a
    rw [wp_ite]
    refine ⟨fun _ => ?_, fun _ => ?_⟩
    · rw [wp_bind]
      exact wp_iDeref a
    · rw [wp_bind]
      refine wp_mono (wp_iDeref (a.perm (List.Perm.swap nindex pino X))) fun _ x a => ?_
      rw [wp_bind]
      exact wp_iDeref a

theorem wp_derefOption {i : Option Nat} (a : RefAcc s (i.toList ++ X) []) :
    wp Counted (derefOption i) (fun _ t => RefAcc t X []) s := by
  cases i with
  | none => exact a
  | some i => exact wp_iDeref a

end Walk

end Fuzix
