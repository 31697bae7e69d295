import Fuzix.FamilyPids
import Fuzix.Vmmu

/-!
# Processes that cannot be made

`ptab_alloc` and `_fork` on the flat memory manager, with the ways in which they fail. The memory
manager copies the list of a process, and the platform copies the process itself, in whatever way
they do. A store through a null pointer is only counted.
-/

set_option linter.unusedSectionVars false

namespace Forking

open Table
open Family (Entry freeSlot pickPid PTABSIZE MAXPID)
open Vmmu (Map Node freelist moveblks setNext)

def EAGAIN : Nat := 11
def ENOMEM : Nat := 12
def EINVAL : Nat := 22

/-- The fields `u_page` and `u_top` are those of the running process. -/
structure State (B : Type) extends Family.State where
  p_top : Nat → Nat
  p_name : Nat → List Char
  u_page : Nat
  u_top : Nat
  uError : Nat
  nready : Nat
  last_context : Nat
  mem : Map B
  nullStores : Nat

/-- What is not portable. `vmmu_dup` tells whether there was memory, and a `dofork` that returns
-1 has left everything as it was. -/
structure Platform (B : Type) where
  platform_mmu_setup : Nat → Map B → Option (Map B)
  vmmu_dup : Nat → Nat → Map B → Bool × Map B
  dofork : Nat → State B → Option (Nat × State B)

section
variable [Family.Machine] [Vmmu.Machine] {B : Type}

def modify (s : State B) (p : Nat) (f : Entry → Entry) : State B :=
  { s with ptab := put s.ptab p (f (s.ptab p)) }

/-- The number of the list of a process. -/
def mmu_context (p : Nat) : Nat := p + 1

/-! ## Memory -/

/-- The process with the number 1 is init. -/
def pagemap_alloc (plat : Platform B) (p : Nat) (s : State B) : Option (Bool × State B) :=
  let s := modify s p fun q => { q with page := p }
  if (s.ptab p).pid = 1 then
    (plat.platform_mmu_setup (mmu_context p) s.mem).map fun mem => (true, { s with mem := mem })
  else
    let out := plat.vmmu_dup (mmu_context s.u_page) (mmu_context p) s.mem
    some (out.1, { s with mem := out.2 })

def listlen (s : Map B) : Nat → Option Nat → Option Nat
  | _, none => some 0
  | 0, some _ => none
  | fuel + 1, some b => (listlen s fuel (s.next (.blk b))).map (· + 1)

def vmmu_free (fuel list : Nat) (s : Map B) : Option (Map B) :=
  match s.next (.head list) with
  | none => some s
  | some b =>
    (listlen s fuel (some b)).bind fun n =>
      (moveblks fuel list freelist b n s).map fun s => setNext s (.head list) none

/-- The entry for which it is called is not used. -/
def pagemap_free (fuel : Nat) (_ : Nat) (s : State B) : Option (State B) :=
  (vmmu_free fuel (mmu_context s.u_page) s.mem).map fun mem => { s with mem := mem, last_context := 65535 }

/-! ## Entries -/

/-- `memset`, the number of the process and `p_top`. -/
def clear (p pid : Nat) (s : State B) : State B :=
  { s with
    nextpid := pid
    ptab := put s.ptab p { Family.blank pid 0 0 with status := .empty }
    p_top := put s.p_top p s.u_top
    p_name := put s.p_name p [] }

def ptab_alloc (plat : Platform B) (s : State B) : Option (Option Nat × State B) :=
  match freeSlot s.toState with
  | none => some (none, { s with uError := EAGAIN })
  | some p =>
    (pickPid s.toState (PTABSIZE + 1) s.nextpid).bind fun pid =>
      (pagemap_alloc plat p (clear p pid { s with uError := EAGAIN })).map fun out =>
        let s := out.2
        if out.1 then
          let s := modify s p fun q => { q with status := .forking }
          let s := modify { s with nproc := (s.nproc + 1) % 65536 } p fun q => { q with
            pgrp := (s.ptab s.cur).pgrp }
          (some p, { s with p_name := put s.p_name p (s.p_name s.cur), uError := 0 })
        else
          -- The group and the name of the parent are stored in an entry that is not there.
          (none, { s with uError := ENOMEM, nullStores := s.nullStores + 2 })

/-- No result stands for -1. -/
def fork (plat : Platform B) (fuel flags : Nat) (s : State B) : Option (Option Nat × State B) :=
  if flags ≠ 0 then some (none, { s with uError := EINVAL })
  else
    (ptab_alloc plat s).bind fun out =>
      match out.1 with
      | none => some (none, out.2)
      | some p =>
        let s := modify out.2 out.2.cur fun q => { q with status := .ready }
        match plat.dofork p s with
        | some (r, s) => some (some r, s)
        | none =>
          let s := modify s s.cur fun q => { q with status := .running }
          (pagemap_free fuel p s).map fun s =>
            let s := modify s p fun q => { q with status := .empty }
            (none, { s with
              uError := ENOMEM
              nproc := (s.nproc + 65535) % 65536
              nready := (s.nready + 255) % 256 })

/-! ## What a failure leaves -/

/-- No slot is taken, no process has lost memory or another part of its entry, the counts are as
before and no store went through a null pointer. -/
structure Untouched (s t : State B) : Prop where
  slots : ∀ p, (t.ptab p).status = (s.ptab p).status
  entries : ∀ p, (s.ptab p).status ≠ .empty →
    t.ptab p = s.ptab p ∧ t.p_top p = s.p_top p ∧ t.p_name p = s.p_name p
  memory : t.mem = s.mem
  nproc : t.nproc = s.nproc
  nready : t.nready = s.nready
  nullStores : t.nullStores = s.nullStores

theorem Untouched.error (s : State B) (e : Nat) : Untouched s { s with uError := e } where
  slots _ := rfl
  entries _ _ := ⟨rfl, rfl, rfl⟩
  memory := rfl
  nproc := rfl
  nready := rfl
  nullStores := rfl

variable {plat : Platform B} {s t m : State B} {p : Nat}

theorem pagemap_alloc_counts {out : Bool × State B} (done : pagemap_alloc plat p s = some out) :
    out.2.nready = s.nready ∧ out.2.nullStores = s.nullStores ∧ out.2.u_page = s.u_page := by
  unfold pagemap_alloc at done
  dsimp only at done
  by_cases first : ((modify s p fun q => { q with page := p }).ptab p).pid = 1
  · rw [if_pos first] at done
    obtain ⟨mem, setup, rfl⟩ := Option.map_eq_some_iff.mp done
    exact ⟨rfl, rfl, rfl⟩
  · rw [if_neg first] at done
    cases done
    exact ⟨rfl, rfl, rfl⟩

theorem ptab_alloc_full (full : freeSlot s.toState = none) :
    ptab_alloc plat s = some (none, { s with uError := EAGAIN }) := by
  unfold ptab_alloc
  rw [full]

/-- The answer when there is a slot, with what the memory manager has done. -/
theorem ptab_alloc_slot {answer : Option Nat} (slot : freeSlot s.toState = some p)
    (done : ptab_alloc plat s = some (answer, t)) : t.nready = s.nready ∧ t.u_page = s.u_page ∧
      (answer = none ∧ t.uError = ENOMEM ∧ t.nullStores = s.nullStores + 2 ∨
        answer = some p ∧ t.uError = 0 ∧ t.nullStores = s.nullStores) := by
  unfold ptab_alloc at done
  rw [slot] at done
  obtain ⟨pid, picked, done⟩ := Option.bind_eq_some_iff.mp done
  obtain ⟨out, mapped, done⟩ := Option.map_eq_some_iff.mp done
  obtain ⟨ready, stores, page⟩ := pagemap_alloc_counts mapped
  by_cases memory : out.1 = true
  · rw [if_pos memory] at done
    cases done
    exact ⟨ready, page, Or.inr ⟨rfl, rfl, stores⟩⟩
  · rw [if_neg memory] at done
    cases done
    exact ⟨ready, page, Or.inl ⟨rfl, rfl, by rw [← show out.2.nullStores = s.nullStores from stores]⟩⟩

theorem ptab_alloc_returns (setup : ∀ list mem, (plat.platform_mmu_setup list mem).isSome)
    (counter : s.nextpid ≤ MAXPID + 1) : ∃ answer t, ptab_alloc plat s = some (answer, t) := by
  have mapped : ∀ p (s : State B), ∃ out, pagemap_alloc plat p s = some out := by
    intro p s
    unfold pagemap_alloc
    dsimp only
    split_ifs
    · obtain ⟨mem, done⟩ := Option.isSome_iff_exists.mp (setup (mmu_context p) (modify s p _).mem)
      rw [done]
      exact ⟨_, rfl⟩
    · exact ⟨_, rfl⟩
  unfold ptab_alloc
  split
  · exact ⟨_, _, rfl⟩
  · rename_i p slot
    obtain ⟨pid, picked⟩ := Family.pickPid_some s.toState counter
    obtain ⟨out, done⟩ := mapped p (clear p pid { s with uError := EAGAIN })
    rw [picked, Option.bind_some, done]
    exact ⟨_, _, rfl⟩

/-- A copy of the process that fails takes the list of the parent away, and one of the
processes that are ready. -/
theorem fork_uncopied {fuel : Nat} {answer : Option Nat} (slot : ptab_alloc plat s = some (some p, m))
    (uncopied : plat.dofork p (modify m m.cur fun q => { q with status := .ready }) = none)
    (done : fork plat fuel 0 s = some (answer, t)) :
    answer = none ∧ t.mem.next (.head (mmu_context m.u_page)) = none ∧ t.nready = (m.nready + 255) % 256 := by
  unfold fork at done
  rw [if_neg (by omega), slot, Option.bind_some] at done
  dsimp only at done
  rw [uncopied] at done
  obtain ⟨u, freed, done⟩ := Option.map_eq_some_iff.mp done
  obtain ⟨mem, free, rfl⟩ := Option.map_eq_some_iff.mp freed
  cases done
  refine ⟨rfl, ?_, rfl⟩
  change mem.next _ = none
  unfold vmmu_free at free
  split at free
  · rename_i empty
    cases free
    exact empty
  · obtain ⟨n, length, free⟩ := Option.bind_eq_some_iff.mp free
    obtain ⟨moved, _, rfl⟩ := Option.map_eq_some_iff.mp free
    exact put_same _ _ _

theorem fork_slot {fuel : Nat} (slot : freeSlot s.toState = some p)
    (done : fork plat fuel 0 s = some (none, t)) :
    t.nullStores = s.nullStores + 2 ∨ t.nready = (s.nready + 255) % 256 := by
  have rest := done
  unfold fork at done
  obtain ⟨⟨answer, m⟩, taken, _⟩ := Option.bind_eq_some_iff.mp done
  obtain ⟨ready, page, ⟨rfl, _, stores⟩ | ⟨rfl, _, _⟩⟩ := ptab_alloc_slot slot taken
  · left
    unfold fork at rest
    rw [if_neg (by omega), taken] at rest
    cases rest
    exact stores
  · right
    cases copied : plat.dofork p (modify m m.cur fun q => { q with status := .ready }) with
    | none => rw [(fork_uncopied taken copied rest).2.2, ready]
    | some out =>
      unfold fork at rest
      rw [if_neg (by omega), taken, Option.bind_some] at rest
      dsimp only at rest
      rw [copied] at rest
      cases rest

/-- A process that cannot be made changes nothing but the error if flags are given or no slot is
empty, and only then. -/
theorem forks_untouched (plat : Platform B) (fuel flags : Nat) (s t : State B) :
    (ptab_alloc plat s = some (none, t) → (Untouched s t ↔ freeSlot s.toState = none) ∧
      (freeSlot s.toState = none → t = { s with uError := EAGAIN })) ∧
    (fork plat fuel flags s = some (none, t) → (Untouched s t ↔ flags ≠ 0 ∨ freeSlot s.toState = none) ∧
      (flags ≠ 0 ∨ freeSlot s.toState = none → t = { s with uError := t.uError })) := by
  constructor
  · intro failed
    cases slot : freeSlot s.toState with
    | none =>
      rw [ptab_alloc_full slot] at failed
      cases failed
      exact ⟨⟨fun _ => rfl, fun _ => .error s EAGAIN⟩, fun _ => rfl⟩
    | some p =>
      obtain ⟨_, _, ⟨_, _, stores⟩ | ⟨no, _⟩⟩ := ptab_alloc_slot slot failed
      · refine ⟨⟨fun untouched => ?_, fun no => by cases no⟩, fun no => by cases no⟩
        have same := untouched.nullStores
        omega
      · cases no
  · intro failed
    by_cases flagged : flags = 0
    · subst flagged
      cases slot : freeSlot s.toState with
      | none =>
        unfold fork at failed
        rw [if_neg (by omega), ptab_alloc_full slot] at failed
        cases failed
        exact ⟨⟨fun _ => Or.inr rfl, fun _ => .error s EAGAIN⟩, fun _ => rfl⟩
      | some p =>
        have damage := fork_slot slot failed
        refine ⟨⟨fun untouched => ?_, ?_⟩, ?_⟩
        · have stores := untouched.nullStores
          have ready := untouched.nready
          omega
        · rintro (no | no)
          · omega
          · cases no
        · rintro (no | no)
          · omega
          · cases no
    · unfold fork at failed
      rw [if_pos flagged] at failed
      cases failed
      exact ⟨⟨fun _ => Or.inl flagged, fun _ => .error s EINVAL⟩, fun _ => rfl⟩

end

/-! ## Runs -/

/-- Init has the only block. -/
def busy [Family.Machine] : State Nat where
  ptab := put (fun _ => { Family.blank 0 0 0 with status := .empty }) 0 { Family.blank 1 1 0 with status := .running }
  udata := fun _ => ⟨0, 0, 0, 0, fun _ => none⟩
  cur := 0
  nproc := 1
  nextpid := 1
  ticks_this_dsecond := 0
  pfree := []
  exiting := false
  p_top := fun _ => 8192
  p_name := fun _ => []
  u_page := 0
  u_top := 8192
  uError := 0
  nready := 1
  last_context := 0
  mem := ⟨put (fun _ => none) (.head 1) (some 0), fun _ => .head 1, fun _ => 98304, fun _ => 1, fun _ => 0, 0, fun _ => 0⟩
  nullStores := 0

/-- There is no free block. -/
def crowded : Platform Nat where
  platform_mmu_setup _ mem := some mem
  vmmu_dup _ dest mem := (false, { mem with next := put mem.next (.head dest) none })
  dofork p s := some ((s.ptab p).pid, s)

theorem forks_untouched_full : ∃ (_ : Family.Machine) (_ : Vmmu.Machine) (t : State Nat),
    fork crowded 1 0 busy = some (none, t) ∧ Untouched busy t := by
  let table : Family.Machine :=
    { PTABSIZE := 1
      ticks_per_dsecond := 10
      uargSize := 2 ^ 32
      littleEndian := false
      pendingAt := 1
      aligned := Or.inl rfl
      tableBound := by decide }
  let memory : Vmmu.Machine := { membase := 98304, MMU_BLKSIZE := 8192, nblks := 1, whole := by decide }
  have full : freeSlot busy.toState = none := by decide +kernel
  have failed : fork crowded 1 0 busy = some (none, { busy with uError := EAGAIN }) := by
    unfold fork
    rw [if_neg (by omega), ptab_alloc_full full]
    rfl
  exact ⟨table, memory, _, failed, ((forks_untouched crowded 1 0 busy _).2 failed).1.mpr (Or.inr full)⟩

/-- There is a slot but no memory for the child. -/
theorem forks_untouched_null : ∃ (_ : Family.Machine) (t : State Nat),
    ptab_alloc crowded busy = some (none, t) ∧ t.uError = ENOMEM ∧ t.nullStores = 2 ∧ ¬ Untouched busy t := by
  let table : Family.Machine :=
    { PTABSIZE := 2
      ticks_per_dsecond := 10
      uargSize := 2 ^ 32
      littleEndian := false
      pendingAt := 1
      aligned := Or.inl rfl
      tableBound := by decide }
  have runs : (ptab_alloc crowded busy).map (fun out => (out.1, out.2.uError, out.2.nullStores)) =
      some (none, ENOMEM, 2) := by decide +kernel
  obtain ⟨⟨answer, t⟩, failed, facts⟩ := Option.map_eq_some_iff.mp runs
  obtain ⟨none', facts⟩ := Prod.mk.inj facts
  obtain ⟨error, stores⟩ := Prod.mk.inj facts
  rw [show answer = none from none'] at failed
  refine ⟨table, t, failed, error, stores, fun untouched => ?_⟩
  have same : (2 : Nat) = 0 := stores.symm.trans untouched.nullStores
  cases same

end Forking
