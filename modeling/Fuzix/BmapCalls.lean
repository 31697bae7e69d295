import Fuzix.Bmap
import Fuzix.RefRuns

/-!
# Calls of `bmap`

Every call of `bmap` keeps the tree of the file sound and fills at most places on the path of
its block. Its answer is right unless an index block cannot be read.
-/

namespace Fuzix

open Wp Table Words

variable [Build]

/-- The call comes to an index block whose read fails. -/
def unread (ip bn : Nat) (rwflg : Bool) (s : Kernel) : Prop :=
  if bn < 18 then False
  else if bn - 18 < 256 then
    ∃ nb t, bmapSlot ip 18 rwflg s = .ok (some nb, t) ∧ (t.io t.xfers).fails = true
  else
    ∃ nb t, bmapSlot ip 19 rwflg s = .ok (some nb, t) ∧ ((t.io t.xfers).fails = true ∨
      ∃ nb' u, nb' ≠ 0 ∧
        bmapIndirect (s.itab ip).dev nb ((bn - 18 - 256) / 256 % 256) rwflg t = .ok (some nb', u) ∧
        (u.io u.xfers).fails = true)

section Specs
variable {s t : Kernel} {ip m k slot nb : Nat} {p : List Nat} {bs : List Nat} {foreign : Nat → Prop}
  {stop : Stop → Prop} {rw : Bool}

omit [Build] in
theorem answer_some {b : Nat} {n : Node} (here : n = .block b) (real : b ≠ 0) : n.answer = some b := by
  rw [here]
  exact if_neg real

omit [Build] in
theorem answer_none {n : Node} (here : n = .block 0) : n.answer = none := by
  rw [here]
  rfl

omit [Build] in
theorem Grows.nolost {path : List Nat} (grows : Grows s t ip m foreign path) (nolost : NoLost s) : NoLost t := by
  intro n
  rw [grows.io]
  exact nolost n

/-- A block is found without an error; no block for writing is one. -/
def Answered (s t : Kernel) (rw : Bool) (o : Option Nat) : Prop :=
  (o ≠ none → t.ptab = s.ptab) ∧ (o = none → rw = false → ∃ e, e ≠ 0 ∧ t.ptab = (s.withError e).ptab)

omit [Build] in
theorem Answered.some {b : Nat} (same : t.ptab = s.ptab) : Answered s t rw (some b) :=
  ⟨fun _ => same, fun no => by cases no⟩

omit [Build] in
theorem Answered.reading {o : Option Nat} (same : t.ptab = s.ptab) : Answered s t true o :=
  ⟨fun _ => same, fun _ no => by cases no⟩

theorem Refused.answered (refused : Refused s t ip m bs foreign) : Answered s t rw none :=
  ⟨fun no => absurd rfl no, fun _ _ => refused.error⟩

omit [Build] in
/-- What comes after a block was found decides. -/
theorem Answered.after {u : Kernel} {o : Option Nat} (answered : Answered t u rw o) (cur : t.cur = s.cur)
    (same : t.ptab = s.ptab) : Answered s u rw o := by
  refine ⟨fun found => (answered.1 found).trans same, fun none' writing => ?_⟩
  obtain ⟨e, real, error⟩ := answered.2 none' writing
  refine ⟨e, real, ?_⟩
  rw [error]
  unfold Kernel.withError Kernel.u
  rw [cur, same]

theorem Laid.bmapSlot (laid : Laid s ip m bs foreign) (nolost : NoLost s) (less : slot < 20) :
    wp stop (bmapSlot ip slot rw) (fun o t => ∃ bs', Laid t ip m bs' foreign ∧ Grows s t ip m foreign [slot] ∧
      o = (nodeAt t ip [slot]).answer ∧ (rw = true → t = s) ∧ Answered s t rw o) s := by
  unfold Fuzix.bmapSlot
  rw [wp_bind, wp_get]
  dsimp only
  by_cases empty : (s.itab ip).node.addr slot = 0
  · rw [if_neg (fun no => no empty)]
    cases rw with
    | true =>
      rw [if_pos rfl]
      exact ⟨bs, laid, .refl, (answer_none (congrArg Node.block empty)).symm, fun _ => rfl, .reading rfl⟩
    | false =>
      rw [if_neg Bool.false_ne_true, wp_bind]
      refine wp_mono (laid.blkAlloc nolost) ?_
      rintro a t (⟨rest, same, real, good, took⟩ | ⟨none', refused⟩)
      · rw [if_neg real, wp_bind, wp_modifyInode, wp_pure]
        rw [same] at laid
        obtain ⟨laid', grows, here⟩ := laid.fill_slot real good took less empty rfl
        exact ⟨rest, laid', grows, (answer_some here real).symm, fun no => (by cases no), .some took.after.2.1⟩
      · rw [if_pos none', wp_pure]
        have grows : Grows s t ip m foreign [slot] := .of_same refused.itab refused.disk refused.beside
        refine ⟨bs, refused.laid, grows, ?_, fun no => (by cases no), refused.answered⟩
        refine (answer_none ?_).symm
        rw [nodeAt_slot, refused.itab, empty]
  · rw [if_pos empty, wp_pure]
    exact ⟨bs, laid, .refl, (answer_some rfl empty).symm, fun _ => rfl, .some rfl⟩

theorem Laid.of_spent (laid : Laid s ip m bs foreign) (n : Nat) : Laid (s.spent n) ip m bs foreign :=
  laid.of_same rfl rfl rfl rfl laid.found laid.mounted laid.pool

/-- The file system is marked after an error. -/
theorem Laid.corruptFs (laid : Laid s ip m bs foreign) {e : Nat} (real : e ≠ 0) {Q : Unit → Kernel → Prop}
    (post : ∀ t, Laid t ip m bs foreign → Grows s t ip m foreign p → Q () t) :
    wp stop (corruptFs (s.itab ip).dev) Q ((s.spent 1).withError e) := by
  have found : fsTabGet ((s.spent 1).withError e) (s.itab ip).dev = some m := laid.found
  unfold Fuzix.corruptFs
  rw [wp_bind, wp_get, found]
  rw [wp_modifyFs, withError_setFs, spent_setFs]
  have refused := laid.refused { (s.fstab m).fs with mounted := 1 } 1 real Nat.one_ne_zero
    (fun no => by cases no) rfl rfl rfl rfl
  exact post _ refused.laid (.of_same refused.itab refused.disk refused.beside)

theorem Laid.bmapIndirect (laid : Laid s ip m bs foreign) (nolost : NoLost s)
    (here : nodeAt s ip p = .block nb) (index : nb ≠ 0) (valid : BlockPath (p ++ [k])) :
    wp stop (bmapIndirect (s.itab ip).dev nb k rw) (fun o t => ∃ bs', Laid t ip m bs' foreign ∧
      Grows s t ip m foreign (p ++ [k]) ∧
      ((s.io s.xfers).fails = true ∧ o = some 0 ∨
        (s.io s.xfers).fails = false ∧ o = (nodeAt t ip (p ++ [k])).answer ∧ (rw = true → t = s.spent 1) ∧
          Answered s t rw o)) s := by
  have entry : nodeAt s ip (p ++ [k]) = .block (word (s.disk (s.itab ip).dev nb) k) := by
    rw [nodeAt_snoc, here, if_neg (by intro no; injection no with no; exact index no)]
    rfl
  unfold Fuzix.bmapIndirect
  rw [wp_bind, wp_bread (nolost _)]
  constructor
  · intro fails
    rw [wp_bind]
    refine laid.corruptFs (p := p ++ [k]) (by decide) ?_
    intro t laid' grows
    exact ⟨bs, laid', grows, Or.inl ⟨fails, rfl⟩⟩
  · intro reads
    dsimp only
    have spent : Grows s (s.spent 1) ip m foreign (p ++ [k]) := .of_same rfl rfl Beside.refl.then
    by_cases empty : word (s.disk (s.itab ip).dev nb) k = 0
    · rw [if_neg (fun no => no empty)]
      cases rw with
      | true =>
        rw [if_pos rfl]
        exact ⟨bs, laid.of_spent 1, spent, Or.inr ⟨reads, (answer_none (entry.trans (congrArg _ empty))).symm,
          fun _ => rfl, .reading rfl⟩⟩
      | false =>
        rw [if_neg Bool.false_ne_true, wp_bind]
        refine wp_mono ((laid.of_spent 1).blkAlloc nolost) ?_
        rintro a t (⟨rest, same, real, good, took⟩ | ⟨none', refused⟩)
        · rw [if_neg real, wp_bind, wp_bawrite, wp_pure]
          rw [same] at laid
          obtain ⟨laid', grows, filled⟩ :=
            (laid.of_spent 1).fill_entry real good took here index valid empty rfl
          exact ⟨rest, laid', spent.trans grows, Or.inr ⟨reads, (answer_some filled real).symm,
            fun no => (by cases no), .some took.after.2.1⟩⟩
        · rw [if_pos none', wp_pure]
          have grows : Grows s t ip m foreign (p ++ [k]) :=
            spent.trans (.of_same refused.itab refused.disk refused.beside)
          have still : nodeAt t ip (p ++ [k]) = .block 0 := by
            have same : nodeAt t ip (p ++ [k]) = nodeAt s ip (p ++ [k]) := by
              unfold nodeAt
              rw [refused.itab, refused.disk]
              rfl
            rw [same, entry, empty]
          exact ⟨bs, refused.laid, grows, Or.inr ⟨reads, (answer_none still).symm, fun no => (by cases no),
            refused.answered.after rfl rfl⟩⟩
    · rw [if_pos empty, wp_pure]
      exact ⟨bs, laid.of_spent 1, spent, Or.inr ⟨reads, (answer_some entry empty).symm, fun _ => rfl, .some rfl⟩⟩

omit [Build] in
theorem block_of_answer {b : Nat} {n : Node} (h : n.answer = some b) : n = .block b ∧ b ≠ 0 := by
  unfold Node.answer at h
  split at h
  · cases h
  · rename_i real
    injection h with h
    cases n with
    | inode => exact absurd rfl real
    | block c =>
      have h : c = b := h
      rw [← h]
      exact ⟨rfl, real⟩

omit [Build] in
theorem null_of_answer (some : p ≠ []) (h : (nodeAt s ip p).answer = none) : nodeAt s ip p = .block 0 := by
  obtain ⟨b, here⟩ : ∃ b, nodeAt s ip p = .block b := nodeAt_block some
  by_cases real : b = 0
  · rw [here, real]
  · rw [answer_some here real] at h
    cases h

omit [Build] in
/-- Nothing is below an empty place. -/
theorem answer_below (some : p ≠ []) (h : (nodeAt s ip p).answer = none) : (nodeAt s ip (p ++ [k])).answer = none := by
  rw [nodeAt_snoc, if_pos (null_of_answer some h)]
  rfl

/-- A lookup leaves the state but for the count of transfers. -/
def Looked (s t : Kernel) : Prop := ∃ n, t = s.spent n

theorem Laid.bmapTree (laid : Laid s ip m bs foreign) (nolost : NoLost s) (bn : Nat) :
    wp stop (bmapTree ip bn rw) (fun o t => ∃ bs', Laid t ip m bs' foreign ∧ Grows s t ip m foreign (pathOf bn) ∧
      (unread ip bn rw s ∧ o = some 0 ∨
        ¬ unread ip bn rw s ∧ o = mapped t ip bn ∧ (rw = true → Looked s t) ∧ Answered s t rw o)) s := by
  unfold Fuzix.bmapTree
  rw [wp_bind, wp_get]
  dsimp only
  by_cases direct : bn < 18
  · have path : pathOf bn = [bn] := if_pos direct
    have quiet : ¬ unread ip bn rw s := by
      unfold unread
      rw [if_pos direct]
      exact id
    unfold mapped
    rw [if_pos direct, path]
    refine wp_mono (laid.bmapSlot nolost (by omega)) ?_
    rintro o t ⟨bs', laid', grows, answer, same, answered⟩
    exact ⟨bs', laid', grows, Or.inr ⟨quiet, answer, fun reading => ⟨0, same reading⟩, answered⟩⟩
  · rw [if_neg direct]
    by_cases single : bn - 18 < 256
    · have path : pathOf bn = [18] ++ [bn - 18] := by
        unfold pathOf
        rw [if_neg direct, if_pos single]
        rfl
      have valid := blockPath_pathOf bn
      unfold mapped
      rw [path] at valid ⊢
      rw [if_pos single, wp_bind]
      refine wp_mono (wp_run (laid.bmapSlot nolost (by decide))) ?_
      rintro o t ⟨⟨bs', laid', grows, answer, same, answered⟩, ran⟩
      have comes : unread ip bn rw s ↔ ∃ nb t, Fuzix.bmapSlot ip 18 rw s = .ok (some nb, t) ∧
          (t.io t.xfers).fails = true := by
        unfold unread
        rw [if_neg direct, if_pos single]
      have on : [18] <+: [18] ++ [bn - 18] := List.prefix_append _ _
      cases o with
      | none =>
        refine ⟨bs', laid', grows.mono on, Or.inr ⟨?_, (answer_below (by simp) answer.symm).symm, ?_, answered⟩⟩
        · rw [comes, ran]
          rintro ⟨_, _, no, _⟩
          cases no
        · exact fun reading => ⟨0, same reading⟩
      | some nb =>
        obtain ⟨here, index⟩ := block_of_answer answer.symm
        dsimp only
        rw [← grows.dev]
        refine wp_mono (laid'.bmapIndirect (grows.nolost nolost) here index valid) ?_
        rintro o u ⟨bs'', laid'', grows', outcome⟩
        refine ⟨bs'', laid'', (grows.mono on).trans grows', ?_⟩
        rcases outcome with ⟨fails, zero⟩ | ⟨reads, answer', same', answered'⟩
        · exact Or.inl ⟨comes.mpr ⟨nb, t, ran, fails⟩, zero⟩
        · refine Or.inr ⟨?_, answer', ?_, answered'.after grows.cur (answered.1 (by simp))⟩
          · rw [comes, ran]
            rintro ⟨_, _, found, no⟩
            injection found with found
            injection found with _ last
            rw [← last, reads] at no
            cases no
          · intro reading
            rw [same' reading, same reading]
            exact ⟨1, rfl⟩
    · have path : pathOf bn = [19, (bn - 18 - 256) / 256 % 256] ++ [(bn - 18 - 256) % 256] := by
        unfold pathOf
        rw [if_neg direct, if_neg single]
        rfl
      have valid := blockPath_pathOf bn
      unfold mapped
      rw [path] at valid ⊢
      have valid' : BlockPath ([19] ++ [(bn - 18 - 256) / 256 % 256]) := blockPath_init valid
      rw [if_neg single, wp_bind]
      refine wp_mono (wp_run (laid.bmapSlot nolost (by decide))) ?_
      rintro o t ⟨⟨bs', laid', grows, answer, same, answered⟩, ran⟩
      have comes : unread ip bn rw s ↔ ∃ nb t, Fuzix.bmapSlot ip 19 rw s = .ok (some nb, t) ∧
          ((t.io t.xfers).fails = true ∨ ∃ nb' u, nb' ≠ 0 ∧
            Fuzix.bmapIndirect (s.itab ip).dev nb ((bn - 18 - 256) / 256 % 256) rw t = .ok (some nb', u) ∧
            (u.io u.xfers).fails = true) := by
        unfold unread
        rw [if_neg direct, if_neg single]
      have on : [19, (bn - 18 - 256) / 256 % 256] <+:
          [19, (bn - 18 - 256) / 256 % 256] ++ [(bn - 18 - 256) % 256] := List.prefix_append _ _
      have on' : [19] <+: [19, (bn - 18 - 256) / 256 % 256] ++ [(bn - 18 - 256) % 256] :=
        List.prefix_append [19] _
      cases o with
      | none =>
        have below := answer_below (k := (bn - 18 - 256) / 256 % 256) (List.cons_ne_nil 19 []) answer.symm
        refine ⟨bs', laid', grows.mono on', Or.inr ⟨?_, (answer_below (by simp) below).symm, ?_, answered⟩⟩
        · rw [comes, ran]
          rintro ⟨_, _, no, _⟩
          cases no
        · exact fun reading => ⟨0, same reading⟩
      | some nb =>
        obtain ⟨here, index⟩ := block_of_answer answer.symm
        dsimp only
        rw [← grows.dev, wp_bind]
        refine wp_mono (wp_run (laid'.bmapIndirect (grows.nolost nolost) here index valid')) ?_
        rintro o u ⟨⟨bs'', laid'', grows', outcome⟩, ran'⟩
        have both := (grows.mono on').trans (grows'.mono on)
        have device : (u.itab ip).dev = (t.itab ip).dev := grows'.dev
        rw [grows.dev] at ran'
        rcases outcome with ⟨fails, zero⟩ | ⟨reads, answer', same', answered'⟩
        · rw [zero]
          exact ⟨bs'', laid'', both, Or.inl ⟨comes.mpr ⟨nb, t, ran, Or.inl fails⟩, rfl⟩⟩
        · -- the index block of the first level could be read
          have later : unread ip bn rw s ↔ ∃ nb' v, nb' ≠ 0 ∧ o = some nb' ∧ u = v ∧ (v.io v.xfers).fails = true := by
            rw [comes, ran]
            constructor
            · rintro ⟨_, _, found, no⟩
              injection found with found
              injection found with first last
              injection first with first
              rw [← first, ← last, ran', reads] at no
              rcases no with no | ⟨nb', v, real, found, fails⟩
              · cases no
              · injection found with found
                injection found with first last
                exact ⟨nb', v, real, first, last, fails⟩
            · rintro ⟨nb', v, real, first, last, fails⟩
              rw [first, last] at ran'
              exact ⟨nb, t, rfl, Or.inr ⟨nb', v, real, ran', fails⟩⟩
          have found := answered.1 (by simp)
          cases o with
          | none =>
            refine ⟨bs'', laid'', both, Or.inr ⟨?_, (answer_below (by simp) answer'.symm).symm, ?_,
              answered'.after grows.cur found⟩⟩
            · rw [later]
              rintro ⟨_, _, _, no, _⟩
              cases no
            · intro reading
              rw [same' reading, same reading]
              exact ⟨1, rfl⟩
          | some nb' =>
            obtain ⟨here', index'⟩ := block_of_answer answer'.symm
            cases nb' with
            | zero => exact absurd rfl index'
            | succ n =>
              rw [← device]
              refine wp_mono (laid''.bmapIndirect (both.nolost nolost) here' index' valid) ?_
              rintro o v ⟨bs₃, laid₃, grows₃, outcome⟩
              refine ⟨bs₃, laid₃, both.trans grows₃, ?_⟩
              rcases outcome with ⟨fails, zero⟩ | ⟨reads', answer₃, same₃, answered₃⟩
              · exact Or.inl ⟨later.mpr ⟨n + 1, u, index', rfl, rfl, fails⟩, zero⟩
              · refine Or.inr ⟨?_, answer₃, ?_, (answered₃.after grows'.cur (answered'.1 (by simp))).after grows.cur found⟩
                · rw [later]
                  rintro ⟨_, v', _, _, last, no⟩
                  rw [← last, reads'] at no
                  cases no
                · intro reading
                  rw [same₃ reading, same' reading, same reading]
                  exact ⟨2, rfl⟩

end Specs

/-- The call answers with the block that is mapped at `bn`, or with none, leaves all others as
they are, and changes nothing when it looks up. -/
structure MapsRight (s t : Kernel) (ip m bn : Nat) (foreign : Nat → Prop) (rwflg : Bool) (r : Nat) : Prop where
  range : r = NULLBLK ∨ ((s.fstab m).fs.isize ≤ r ∧ r < (s.fstab m).fs.fsize) ∧ ¬ foreign r
  answer : r = (mapped t ip bn).getD NULLBLK
  stays : ∀ b, mapped s ip bn = some b → mapped t ip bn = some b
  others : ∀ bn' < 65536, bn' ≠ bn → mapped t ip bn' = mapped s ip bn'
  distinct : ∀ bn₁ < 65536, ∀ bn₂ < 65536, bn₁ ≠ bn₂ → ∀ b, mapped t ip bn₁ = some b → mapped t ip bn₂ ≠ some b
  lookup : rwflg = true → Looked s t

section Calls
variable {s t : Kernel} {ip m bn : Nat} {bs : List Nat} {foreign : Nat → Prop}

/-- Two blocks of a file lie in different places. -/
theorem Laid.distinct (laid : Laid s ip m bs foreign) : ∀ bn₁ < 65536, ∀ bn₂ < 65536, bn₁ ≠ bn₂ →
    ∀ b, mapped s ip bn₁ = some b → mapped s ip bn₂ ≠ some b := by
  intro bn₁ small₁ bn₂ small₂ other b first second
  obtain ⟨here, real⟩ := block_of_answer first
  obtain ⟨here', _⟩ := block_of_answer second
  have same := laid.apart (pathOf bn₁) (pathOf bn₂) (blockPath_pathOf bn₁) (blockPath_pathOf bn₂)
    (here.trans here'.symm) (fun no => real (by
      have null := here.symm.trans no
      injection null))
  exact other (pathOf_inj small₂ small₁ (same ▸ List.prefix_refl _))

omit [Build] in
theorem Grows.others_mapped (grows : Grows s t ip m foreign (pathOf bn)) (small : bn < 65536) :
    ∀ bn' < 65536, bn' ≠ bn → mapped t ip bn' = mapped s ip bn' := by
  intro bn' small' other
  exact congrArg Node.answer (grows.others (pathOf bn') (blockPath_pathOf bn')
    fun h => other (pathOf_inj small small' h))

/-- A call of `bmap` returns. It keeps the file and the free list sound and the blocks of other
files as they are, and it is right unless it comes to an index block that it cannot read. On a
block device it is the identity. -/
theorem bmap_maps (laid : Laid s ip m bs foreign) (nolost : NoLost s) (small : bn < 65536) (rwflg : Bool) :
    ∃ r t, bmap ip bn rwflg s = .ok (r, t) ∧
      (isBdev (s.itab ip) = true → r = bn ∧ t = s) ∧
      (isBdev (s.itab ip) = false → (∃ bs', Laid t ip m bs' foreign) ∧
        (∀ b, foreign b → t.disk (s.itab ip).dev b = s.disk (s.itab ip).dev b) ∧
        (MapsRight s t ip m bn foreign rwflg r ↔ ¬ unread ip bn rwflg s)) := by
  have spec : wp (fun _ => False) (bmap ip bn rwflg) (fun r t =>
      (isBdev (s.itab ip) = true → r = bn ∧ t = s) ∧
      (isBdev (s.itab ip) = false → (∃ bs', Laid t ip m bs' foreign) ∧
        (∀ b, foreign b → t.disk (s.itab ip).dev b = s.disk (s.itab ip).dev b) ∧
        (MapsRight s t ip m bn foreign rwflg r ↔ ¬ unread ip bn rwflg s))) s := by
    unfold bmap
    rw [wp_bind, wp_get]
    by_cases device : isBdev (s.itab ip) = true
    · rw [if_pos device, wp_pure]
      refine ⟨fun _ => ⟨rfl, rfl⟩, fun no => ?_⟩
      rw [device] at no
      cases no
    · rw [if_neg device, wp_bind]
      refine wp_mono (laid.bmapTree nolost bn) ?_
      rintro o t ⟨bs', laid', grows, outcome⟩
      rw [wp_pure]
      refine ⟨fun no => absurd no device, fun _ => ⟨⟨bs', laid'⟩, fun b theirs => grows.untouched b (Or.inl theirs), ?_⟩⟩
      rcases outcome with ⟨missed, zero⟩ | ⟨came, answer, looked⟩
      · refine iff_of_false ?_ (fun no => no missed)
        intro right
        rw [zero] at right
        have low := laid.low
        rcases right.range with no | ⟨⟨no, _⟩, _⟩
        · cases no
        · exact absurd no (Nat.not_le_of_lt low)
      · refine iff_of_true ?_ came
        refine ⟨?_, by rw [answer], ?_, grows.others_mapped small, laid'.distinct, looked.1⟩
        · rw [answer]
          cases here : mapped t ip bn with
          | none => exact Or.inl rfl
          | some b =>
            obtain ⟨there, real⟩ := block_of_answer here
            have inside := laid'.inside (pathOf bn) b (blockPath_pathOf bn) there real
            rw [grows.isize, grows.fsize] at inside
            exact Or.inr ⟨inside.1, inside.2.2⟩
        · intro b here
          obtain ⟨there, real⟩ := block_of_answer here
          have same := grows.stays (pathOf bn) (blockPath_pathOf bn) (by
            rw [there]
            intro no
            injection no with no
            exact real no)
          exact (congrArg Node.answer same).trans here
  exact wp_returns spec

end Calls

/-! ## A file with one block -/

section Single
variable {s : Kernel} {ip m b j : Nat} {bs : List Nat} {foreign : Nat → Prop} {p : List Nat}

omit [Build] in
/-- With one slot filled, and a clear block there when it is an index block, there are two places. -/
theorem node_single (addr : ∀ k < 20, (s.itab ip).node.addr k = if k = j then b else 0)
    (clear : 17 < j → ∀ k < 256, word (s.disk (s.itab ip).dev b) k = 0) (valid : BlockPath p)
    (real : nodeAt s ip p ≠ .block 0) : p = [] ∨ p = [j] := by
  cases p with
  | nil => exact Or.inl rfl
  | cons k ks =>
    obtain ⟨less, deep, small⟩ := valid
    change Trie.find (.block 0) (entries _ _) (.block ((s.itab ip).node.addr k)) ks ≠ _ at real
    rw [addr k less] at real
    by_cases here : k = j
    · rw [if_pos here] at real
      cases ks with
      | nil => exact Or.inr (by rw [here])
      | cons j ks =>
        rw [List.length_cons] at deep
        have null : (if Node.block b = Node.block 0 then Node.block 0
            else Trie.find (.block 0) (entries (s.disk (s.itab ip).dev) (s.itab ip).node)
              (.block (word (s.disk (s.itab ip).dev b) j)) ks) = .block 0 := by
          rw [clear (by omega) j (small j List.mem_cons_self), Trie.find_null]
          exact ite_self _
        exact absurd null real
    · rw [if_neg here] at real
      exact absurd Trie.find_null real

/-- A file with one block in one slot. -/
theorem laid_single (found : fsTabGet s (s.itab ip).dev = some m) (pool : Pool (s.disk (s.itab ip).dev) (s.fstab m).fs bs)
    (low : 0 < (s.fstab m).fs.isize) (high : (s.fstab m).fs.fsize < 65536)
    (addr : ∀ k < 20, (s.itab ip).node.addr k = if k = j then b else 0)
    (clear : 17 < j → ∀ k < 256, word (s.disk (s.itab ip).dev b) k = 0)
    (inside : (s.fstab m).fs.isize ≤ b ∧ b < (s.fstab m).fs.fsize) (used : b ∉ bs) (ours : ¬ foreign b)
    (spare : ∀ b ∈ bs, ¬ foreign b) : Laid s ip m bs foreign where
  found := found
  mounted := by
    rw [pool.mounted]
    decide
  pool _ := pool
  low := low
  high := high
  apart := by
    intro p q valid valid' same real
    change nodeAt s ip p = nodeAt s ip q at same
    have real' : nodeAt s ip q ≠ .block 0 := same ▸ real
    rcases node_single addr clear valid real with nil | one
    · rcases node_single addr clear valid' real' with nil' | one'
      · rw [nil, nil']
      · rw [nil, one'] at same
        cases same
    · rcases node_single addr clear valid' real' with nil' | one'
      · rw [one, nil'] at same
        cases same
      · rw [one, one']
  inside := by
    intro p b' valid here real
    have some : nodeAt s ip p ≠ .block 0 := by
      rw [here]
      intro no
      injection no with no
      exact real no
    rcases node_single addr clear valid some with nil | one
    · rw [nil] at here
      cases here
    · rw [one] at here valid
      injection here with here
      rw [addr j valid.1, if_pos rfl] at here
      rw [← here]
      exact ⟨inside, used, ours⟩
  spare := spare

end Single

/-! ## A file with an index block -/

/-- Inode 0 has the index block 10 in slot 18, which is empty. The device reads or fails. -/
def indexed (fails : Bool) : Kernel :=
  { oneFile with
    io := fun _ => ⟨none, fails, zeroBlock, 0⟩
    itab := fun _ => { oneNode with node := { oneNode.node with addr := fun k => if k = 18 then 10 else 0 } }
    fstab := fun _ => ⟨0, false, false, { Filesys.load zeroBlock with
      mounted := SMOUNTED, isize := 4, fsize := 20, nfree := 1 }⟩ }

omit [Build] in
theorem indexed_laid (fails : Bool) : @Laid tiny (indexed fails) 0 0 [] fun _ => False := by
  let _ := tiny
  have chain : Chain.Yields FILESYS_TABSIZE 0 (fun j => chainBatch ((indexed fails).disk 0 j))
      ((indexed fails).fstab 0).fs.batch [] := .done Nat.one_pos (Nat.le_add_left 1 49) rfl
  refine laid_single (b := 10) (j := 18) rfl ⟨rfl, chain, ?_, List.nodup_nil, rfl⟩ (Nat.le_add_left 1 3)
    (by show 20 < 65536; decide) (fun _ _ => rfl) (fun _ _ _ => rfl) ⟨Nat.le_add_left 4 6, Nat.le_add_left 11 9⟩
    (by simp) (fun no => no) ?_
  all_goals
    intro b no
    cases no

omit [Build] in
set_option maxRecDepth 10000 in
theorem bmap_maps_lookup : ∃ t, @bmap tiny 0 18 true (indexed false) = .ok (NULLBLK, t) ∧
    @MapsRight (indexed false) t 0 0 18 (fun _ => False) true NULLBLK := by
  let _ := tiny
  have ran : ∃ t, bmap 0 18 true (indexed false) = .ok (NULLBLK, t) := ⟨_, rfl⟩
  obtain ⟨t, ran⟩ := ran
  obtain ⟨r, u, ran', _, file⟩ := bmap_maps (indexed_laid false) (fun _ => rfl) (by decide : 18 < 65536) true
  rw [ran] at ran'
  injection ran' with same
  injection same with answer after
  refine ⟨t, ran, ?_⟩
  rw [answer, after]
  refine (file rfl).2.2.mpr ?_
  have slot : bmapSlot 0 18 true (indexed false) = .ok (some 10, indexed false) := rfl
  change ¬ ∃ nb t, bmapSlot 0 18 true (indexed false) = .ok (some nb, t) ∧ (t.io t.xfers).fails = true
  rw [slot]
  rintro ⟨_, _, same, no⟩
  injection same with same
  injection same with _ same
  rw [← same] at no
  cases no

omit [Build] in
set_option maxRecDepth 10000 in
/-- A write at block 18 is sent to block 0 of the device. -/
theorem bmap_block_zero : ∃ (_ : Build) (s t : Kernel), Laid s 0 0 [] (fun _ => False) ∧ NoLost s ∧
    isBdev (s.itab 0) = false ∧ bmap 0 18 false s = .ok (0, t) ∧ (s.fstab 0).fs.isize = 4 :=
  ⟨tiny, indexed true, _, indexed_laid true, fun _ => rfl, rfl, rfl, rfl⟩

end Fuzix
