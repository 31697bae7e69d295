import Fuzix.Lib.Pool
import Fuzix.Lib.Run

/-!
# 32K banks

The page stack of bank32k.c and the pairs of pages that the processes have. There is no
`swapout` for these banks, so they are allocated as in a build without swap.
-/

set_option linter.unusedSectionVars false

namespace Bank32k

open Table Pool Run

class Build where
  PTABSIZE : Nat
  MAX_MAPS : Nat
  PROGLOAD : Nat
  PROGTOP : Nat
  /-- `CONFIG_COMMON_COPY` is defined. -/
  commonCopy : Bool
  mapsBound : MAX_MAPS < 256
  topBound : PROGTOP < 65536
  /-- The boot does not cross a bank. -/
  initBank : (0x8000 ≤ (PROGLOAD + 4096 + 0xFFFF - PROGTOP) % 65536) ↔ 0x8000 ≤ (0xFFFF - PROGTOP) % 65536

export Build (PTABSIZE MAX_MAPS PROGLOAD PROGTOP)

/-- The two bytes of a page map, the low bank first. -/
structure Maps where
  low : Nat
  high : Nat
deriving DecidableEq

/-- An entry of the process table with the `udata` of the process. `used` says that the
process has memory. -/
structure Proc where
  used : Bool
  p_top : Nat
  p_page : Maps
  u_top : Nat
  u_page : Maps

structure State where
  pfree : Nat → Nat
  pfptr : Nat
  cachedPage : Nat
  ptab : Nat → Proc

def modifyProc (p : Nat) (f : Proc → Proc) (s : State) : State :=
  { s with ptab := put s.ptab p (f (s.ptab p)) }

variable [Build]

/-! ## The page stack -/

/-- False when it panics. -/
def pagemapAdd (page : Nat) (s : State) : Option State :=
  if s.pfptr = MAX_MAPS then none
  else some { s with pfree := put s.pfree s.pfptr page, pfptr := (s.pfptr + 1) % 256 }

/-- `pfree[pfptr--] = page`. -/
def putPage (page : Nat) (s : State) : State :=
  { s with pfree := put s.pfree s.pfptr page, pfptr := (s.pfptr + 255) % 256 }

/-- `pfree[pfptr++] = page`. -/
def pushPage (page : Nat) (s : State) : State :=
  { s with pfree := put s.pfree s.pfptr page, pfptr := (s.pfptr + 1) % 256 }

/-- The stack pointer of `pfree[--pfptr]`. -/
def popPage (s : State) : State := { s with pfptr := (s.pfptr + 255) % 256 }

def invalidateCache (page : Nat) (s : State) : State :=
  if Build.commonCopy ∧ s.cachedPage = page then { s with cachedPage := 0xFF } else s

def pagemapFree (p : Nat) (s : State) : State :=
  let maps := (s.ptab p).p_page
  let s := putPage maps.low s
  if maps.low ≠ maps.high then invalidateCache maps.high (putPage maps.high s) else s

/-- In 16 bits. -/
def mapsNeeded (top : Nat) : Nat := if 0x8000 ≤ (top + 0xFFFF - PROGTOP) % 65536 then 2 else 1

/-- None when there are too few pages. -/
def pagemapAlloc (p : Nat) (s : State) : Option State :=
  let needed := mapsNeeded (s.ptab p).p_top
  if s.pfptr < needed then none
  else
    let s := popPage s
    let low := s.pfree s.pfptr
    if needed = 1 then some (modifyProc p (fun q => { q with p_page := ⟨low, low⟩ }) s)
    else
      let s := popPage s
      some (modifyProc p (fun q => { q with p_page := ⟨low, s.pfree s.pfptr⟩ }) s)

/-- For the running process `p`. None when there are too few pages. -/
def pagemapRealloc (p size : Nat) (s : State) : Option State :=
  let have' := mapsNeeded (s.ptab p).u_top
  let want := mapsNeeded size
  let maps := (s.ptab p).u_page
  if want = have' then some s
  else if want < have' then
    some (modifyProc p (fun q => { q with
      u_page := ⟨maps.low, maps.low⟩
      p_page := ⟨maps.low, maps.low⟩ }) (pushPage maps.high s))
  else if s.pfptr < want - have' then none
  else
    let s := popPage s
    some (modifyProc p (fun q => { q with
      u_page := ⟨s.pfree s.pfptr, maps.high⟩
      p_page := ⟨s.pfree s.pfptr, maps.high⟩ }) s)

/-! ## Runs -/

/-- `ptab_alloc` for a parent with this `u_top`, and `newproc`. -/
def create (p top : Nat) (s : State) : State :=
  match pagemapAlloc p (modifyProc p (fun q => { q with p_top := top }) s) with
  | none => modifyProc p (fun q => { q with p_top := top }) s
  | some s => modifyProc p (fun q => { q with used := true, u_page := q.p_page, u_top := top }) s

/-- `create_init` sets the top when the process has its pages. -/
def createInit (p : Nat) (s : State) : State :=
  let s := create p 0 s
  if (s.ptab p).used then
    modifyProc p (fun q => { q with u_top := PROGLOAD + 4096, p_top := PROGLOAD + 4096 }) s
  else s

/-- What `_execve` does to the memory. -/
def exec (p size : Nat) (s : State) : State :=
  match pagemapRealloc p size s with
  | none => s
  | some s => modifyProc p (fun q => { q with u_top := size, p_top := size }) s

/-- `pagemap_free` at an exit, or after a fork that has failed. -/
def release (p : Nat) (s : State) : State :=
  modifyProc p (fun q => { q with used := false }) (pagemapFree p s)

inductive Action where
  | add (page : Nat)
  | init (p : Nat)
  | alloc (parent p : Nat)
  | realloc (p size : Nat)
  | free (p : Nat)

def freeList (s : State) : List Nat := pile s.pfree s.pfptr

/-- The distinct pages of a map. -/
def Maps.pages (m : Maps) : List Nat := if m.low = m.high then [m.low] else [m.low, m.high]

def held (q : Proc) : List Nat := if q.used then q.p_page.pages else []

def idle (s : State) : Prop := ∀ p < PTABSIZE, (s.ptab p).used = false

instance (s : State) : Decidable (idle s) := by unfold idle; infer_instance

/-- Pages are added at boot, none twice. -/
def Action.apply (s : State) : Action → Option State
  | .add page => if idle s ∧ page ∉ freeList s then pagemapAdd page s else none
  | .init p => if idle s ∧ p < PTABSIZE then some (createInit p s) else none
  | .alloc parent p =>
    if parent < PTABSIZE ∧ (s.ptab parent).used ∧ p < PTABSIZE ∧ (s.ptab p).used = false then
      some (create p (s.ptab parent).u_top s)
    else none
  | .realloc p size => if p < PTABSIZE ∧ (s.ptab p).used then some (exec p size s) else none
  | .free p => if p < PTABSIZE ∧ (s.ptab p).used then some (release p s) else none

def Action.frees : Action → Prop
  | .free _ => True
  | _ => False

instance (a : Action) : Decidable a.frees := by cases a <;> unfold Action.frees <;> infer_instance

def Action.adds : Action → List Nat
  | .add page => [page]
  | _ => []

/-- The pages that a list of steps adds. -/
def added (as : List Action) : List Nat := as.flatMap Action.adds

/-! ## The pages are kept -/

/-- Every page is free or held, and a process and its `udata` have the same ones. -/
structure Conserved (pool : List Nat) (s : State) : Prop where
  pages : (freeList s ++ (List.range PTABSIZE).flatMap (fun p => held (s.ptab p))).Perm pool
  room : s.pfptr ≤ MAX_MAPS
  pair : ∀ p < PTABSIZE, (s.ptab p).used = true → (s.ptab p).u_page = (s.ptab p).p_page

/-- The pages that are new to a process come from the stack. -/
def Taken (s t : State) : Prop :=
  ∀ p < PTABSIZE, ∀ x ∈ held (t.ptab p), x ∉ held (s.ptab p) → x ∈ freeList s

/-- What holds between any two steps that free no pages. -/
structure Sound (pool : List Nat) (s : State) : Prop where
  unique : pool.Nodup
  size : pool.length ≤ MAX_MAPS
  shared : Shared pool (freeList s) PTABSIZE (fun p => held (s.ptab p))
  pair : ∀ p < PTABSIZE, (s.ptab p).used = true → (s.ptab p).u_page = (s.ptab p).p_page
  shape : ∀ p < PTABSIZE, (s.ptab p).used = true →
    (mapsNeeded (s.ptab p).u_top = 1 ↔ (s.ptab p).p_page.low = (s.ptab p).p_page.high)

section Facts
variable {pool : List Nat} {s t : State} {p : Nat}

theorem Sound.height (sound : Sound pool s) : s.pfptr + total PTABSIZE (fun p => (held (s.ptab p)).length) ≤ MAX_MAPS := by
  have length := sound.shared.length
  have size := sound.size
  unfold freeList at length
  rw [pile_length] at length
  omega

theorem Sound.conserved (sound : Sound pool s) : Conserved pool s := by
  have height := sound.height
  exact ⟨shared_iff_perm.mp sound.shared, by omega, sound.pair⟩

theorem mapsNeeded_cases (top : Nat) : mapsNeeded top = 1 ∨ mapsNeeded top = 2 := by
  unfold mapsNeeded
  split
  · exact Or.inr rfl
  · exact Or.inl rfl

theorem modifyProc_same (f : Proc → Proc) : (modifyProc p f s).ptab p = f (s.ptab p) := put_same _ _ _

theorem modifyProc_ne (f : Proc → Proc) {r : Nat} (other : r ≠ p) :
    (modifyProc p f s).ptab r = s.ptab r := put_ne _ _ other

theorem freeList_modifyProc (f : Proc → Proc) : freeList (modifyProc p f s) = freeList s := rfl

theorem held_unused {q : Proc} (unused : q.used = false) : held q = [] := by
  unfold held
  rw [unused, if_neg Bool.false_ne_true]

@[simp] theorem popPage_ptab : (popPage s).ptab = s.ptab := rfl

@[simp] theorem popPage_pfree : (popPage s).pfree = s.pfree := rfl

@[simp] theorem modifyProc_pfree (f : Proc → Proc) : (modifyProc p f s).pfree = s.pfree := rfl

theorem modifyProc_ptab (f : Proc → Proc) : (modifyProc p f s).ptab = put s.ptab p (f (s.ptab p)) := rfl

theorem popPage_ptr (some : 0 < s.pfptr) (small : s.pfptr < 256) : (popPage s).pfptr = s.pfptr - 1 := by
  show (s.pfptr + 255) % 256 = s.pfptr - 1
  omega

/-- A pop takes the page on top. -/
theorem freeList_popPage (some : 0 < s.pfptr) (small : s.pfptr < 256) :
    freeList s = freeList (popPage s) ++ [s.pfree (popPage s).pfptr] := by
  unfold freeList
  rw [popPage_ptr some small]
  exact pile_pop s.pfree some

theorem freeList_pushPage {page : Nat} (small : s.pfptr + 1 < 256) :
    freeList (pushPage page s) = freeList s ++ [page] := by
  have next : (s.pfptr + 1) % 256 = s.pfptr + 1 := by omega
  unfold freeList pushPage
  dsimp only
  rw [next]
  exact pile_put s.pfree s.pfptr page

/-! ## Adding -/

theorem idle_held (none : idle s) (k : Nat) (hk : k < PTABSIZE) : held (s.ptab k) = [] :=
  held_unused (none k hk)

theorem Sound.free_all (sound : Sound pool s) (none : idle s) (x : Nat) : (freeList s).count x = pool.count x := by
  have all := sound.shared x
  have nothing : total PTABSIZE (fun k => (held (s.ptab k)).count x) = 0 := by
    rw [total_congr (g := fun _ => 0), total_zero]
    intro k hk
    rw [idle_held none k hk, List.count_nil]
  dsimp only at all
  omega

theorem Sound.add {page : Nat} (sound : Sound pool s) (none : idle s) (new : page ∉ freeList s)
    (done : pagemapAdd page s = some t) : Sound (pool ++ [page]) t := by
  unfold pagemapAdd at done
  split at done
  · cases done
  · rename_i room
    injection done with same
    have bound := Build.mapsBound
    have height := sound.height
    have free : freeList t = freeList s ++ [page] := by
      rw [← same]
      exact freeList_pushPage (by omega)
    have table : t.ptab = s.ptab := by rw [← same]
    have notIn : page ∉ pool := by
      intro member
      apply new
      rw [← List.count_pos_iff, sound.free_all none, List.count_pos_iff]
      exact member
    have length := sound.shared.length
    have nothing : total PTABSIZE (fun k => (held (s.ptab k)).length) = 0 := by
      rw [total_congr (g := fun _ => 0), total_zero]
      intro k hk
      rw [idle_held none k hk, List.length_nil]
    constructor
    · rw [List.nodup_append]
      refine ⟨sound.unique, List.nodup_singleton _, ?_⟩
      intro a member b here same
      rw [List.mem_singleton.mp here] at same
      exact notIn (same ▸ member)
    · unfold freeList at length
      rw [pile_length] at length
      rw [List.length_append, List.length_singleton]
      omega
    · rw [free, table]
      exact shared_add sound.shared page
    · rw [table]
      exact sound.pair
    · rw [table]
      exact sound.shape

/-! ## Allocation -/

/-- A map for `n` pages comes off the stack, and nothing else changes. -/
structure Pops (n : Nat) (maps : Maps) (s t : State) : Prop where
  free : ∀ x, (freeList s).count x = (freeList t).count x + maps.pages.count x
  shape : n = 1 ↔ maps.low = maps.high

theorem pages_one (low : Nat) : (Maps.mk low low).pages = [low] := if_pos rfl

theorem pages_two {low high : Nat} (other : low ≠ high) : (Maps.mk low high).pages = [low, high] := if_neg other

theorem pops_alloc (small : s.pfptr < 256) (once : (freeList s).Nodup) (done : pagemapAlloc p s = some t) :
    ∃ maps, Pops (mapsNeeded (s.ptab p).p_top) maps s t ∧
      t.ptab = put s.ptab p { s.ptab p with p_page := maps } ∧ t.pfree = s.pfree := by
  unfold pagemapAlloc at done
  dsimp only at done
  split at done
  · cases done
  · rename_i enough
    have some : 0 < s.pfptr := by
      rcases mapsNeeded_cases (s.ptab p).p_top with one | two <;> omega
    have first := freeList_popPage some small
    split at done
    · rename_i one
      injection done with same
      rw [one]
      refine ⟨⟨s.pfree (popPage s).pfptr, s.pfree (popPage s).pfptr⟩, ⟨?_, ?_⟩, ?_, ?_⟩
      · intro x
        rw [← same, pages_one, first, List.count_append]
        rfl
      · exact ⟨fun _ => rfl, fun _ => rfl⟩
      · rw [← same]
        rfl
      · rw [← same]
        rfl
    · rename_i more
      injection done with same
      have two : mapsNeeded (s.ptab p).p_top = 2 :=
        (mapsNeeded_cases (s.ptab p).p_top).resolve_left more
      have one_less := popPage_ptr some small
      have second := freeList_popPage (s := popPage s) (by omega) (by omega)
      have other : s.pfree (popPage s).pfptr ≠ s.pfree (popPage (popPage s)).pfptr := by
        intro equal
        rw [first, second] at once
        have apart := (List.nodup_append.mp once).2.2
        exact apart (s.pfree (popPage (popPage s)).pfptr) (List.mem_append_right _ (List.mem_singleton.mpr rfl))
          (s.pfree (popPage s).pfptr) (List.mem_singleton.mpr rfl) equal.symm
      refine ⟨⟨s.pfree (popPage s).pfptr, s.pfree (popPage (popPage s)).pfptr⟩, ⟨?_, ?_⟩, ?_, ?_⟩
      · intro x
        rw [← same, pages_two other, first, second, List.count_append, List.count_append]
        show _ = (freeList (popPage (popPage s))).count x + _
        have cons : [s.pfree (popPage s).pfptr, s.pfree (popPage (popPage s)).pfptr] =
          [s.pfree (popPage s).pfptr] ++ [s.pfree (popPage (popPage s)).pfptr] := rfl
        rw [cons, List.count_append]
        show _ + List.count x [s.pfree (popPage (popPage s)).pfptr] + _ = _
        omega
      · rw [two]
        exact ⟨fun no => absurd no (by decide), fun equal => absurd equal other⟩
      · rw [← same, modifyProc_ptab]
        simp
      · rw [← same]
        simp

theorem pops_realloc {size : Nat} (small : s.pfptr < 255) (pair : (s.ptab p).u_page = (s.ptab p).p_page)
    (shape : mapsNeeded (s.ptab p).u_top = 1 ↔ (s.ptab p).p_page.low = (s.ptab p).p_page.high)
    (apart : (s.ptab p).p_page.high ∉ freeList s) (done : pagemapRealloc p size s = some t) :
    ∃ maps : Maps, t.ptab = put s.ptab p { s.ptab p with u_page := maps, p_page := maps } ∧
      (∀ x, (freeList t).count x + maps.pages.count x =
        (freeList s).count x + (s.ptab p).p_page.pages.count x) ∧
      (mapsNeeded size = 1 ↔ maps.low = maps.high) := by
  unfold pagemapRealloc at done
  dsimp only at done
  rw [pair] at done
  split at done
  · rename_i same
    injection done with equal
    refine ⟨(s.ptab p).p_page, ?_, ?_, ?_⟩
    · have kept : ∀ q : Proc, q.u_page = q.p_page → { q with u_page := q.p_page, p_page := q.p_page } = q := by
        rintro ⟨⟩ same
        cases same
        rfl
      rw [kept _ pair, put_self, equal]
    · intro x
      rw [equal]
    · rw [same]
      exact shape
  · rename_i differ
    split at done
    · rename_i fewer
      have want : mapsNeeded size = 1 := by
        rcases mapsNeeded_cases size with one | two
        · exact one
        · rcases mapsNeeded_cases (s.ptab p).u_top with one' | two' <;> omega
      have two : mapsNeeded (s.ptab p).u_top ≠ 1 := fun one => differ (want.trans one.symm)
      have other : (s.ptab p).p_page.low ≠ (s.ptab p).p_page.high := fun equal => two (shape.mpr equal)
      injection done with same
      refine ⟨⟨(s.ptab p).p_page.low, (s.ptab p).p_page.low⟩, ?_, ?_, ?_⟩
      · rw [← same]
        rfl
      · intro x
        rw [← same, freeList_modifyProc, freeList_pushPage (by omega), List.count_append, pages_one]
        have old : (s.ptab p).p_page.pages = [(s.ptab p).p_page.low] ++ [(s.ptab p).p_page.high] := pages_two other
        rw [old, List.count_append]
        omega
      · rw [want]
        exact ⟨fun _ => rfl, fun _ => rfl⟩
    · split at done
      · cases done
      · rename_i few enough
        have one : mapsNeeded (s.ptab p).u_top = 1 := by
          rcases mapsNeeded_cases (s.ptab p).u_top with one | two
          · exact one
          · rcases mapsNeeded_cases size with one' | two' <;> omega
        have want : mapsNeeded size = 2 := (mapsNeeded_cases size).resolve_left (fun no => differ (no.trans one.symm))
        have some : 0 < s.pfptr := by omega
        have equal := shape.mp one
        have first := freeList_popPage some (by omega)
        have other : s.pfree (popPage s).pfptr ≠ (s.ptab p).p_page.high := by
          intro same
          apply apart
          rw [first, ← same]
          exact List.mem_append_right _ (List.mem_singleton.mpr rfl)
        injection done with same
        refine ⟨⟨s.pfree (popPage s).pfptr, (s.ptab p).p_page.high⟩, ?_, ?_, ?_⟩
        · rw [← same, modifyProc_ptab]
          simp
        · intro x
          have old : (s.ptab p).p_page.pages = [(s.ptab p).p_page.high] := by
            unfold Maps.pages
            rw [if_pos equal, equal]
          have new : (Maps.mk (s.pfree (popPage s).pfptr) (s.ptab p).p_page.high).pages =
            [s.pfree (popPage s).pfptr] ++ [(s.ptab p).p_page.high] := pages_two other
          rw [← same, freeList_modifyProc, new, old, first, List.count_append, List.count_append]
          omega
        · rw [want]
          exact ⟨fun no => absurd no (by decide), fun same => absurd same other⟩

/-! ## Steps -/

/-- Process `p` and the stack trade pages. -/
structure Trades (p : Nat) (s t : State) : Prop where
  others : ∀ r, r ≠ p → t.ptab r = s.ptab r
  count : ∀ x, (freeList t).count x + (held (t.ptab p)).count x =
    (freeList s).count x + (held (s.ptab p)).count x
  pair : (t.ptab p).used = true → (t.ptab p).u_page = (t.ptab p).p_page
  shape : (t.ptab p).used = true →
    (mapsNeeded (t.ptab p).u_top = 1 ↔ (t.ptab p).p_page.low = (t.ptab p).p_page.high)

theorem Trades.taken (trades : Trades p s t) : Taken s t := by
  intro r _ x new old
  by_cases self : r = p
  · subst self
    have count := trades.count x
    have some := List.count_pos_iff.mpr new
    have none := List.count_eq_zero.mpr old
    apply List.count_pos_iff.mp
    omega
  · rw [trades.others r self] at new
    exact absurd new old

theorem Sound.trade (sound : Sound pool s) (hp : p < PTABSIZE) (trades : Trades p s t) : Sound pool t := by
  constructor
  · exact sound.unique
  · exact sound.size
  · refine sound.shared.move hp (fun r other => ?_) trades.count
    rw [trades.others r other]
  · intro r hr
    by_cases self : r = p
    · subst self
      exact trades.pair
    · rw [trades.others r self]
      exact sound.pair r hr
  · intro r hr
    by_cases self : r = p
    · subst self
      exact trades.shape
    · rw [trades.others r self]
      exact sound.shape r hr

theorem held_used {q : Proc} (used : q.used = true) : held q = q.p_page.pages := if_pos used

theorem Sound.free_nodup (sound : Sound pool s) : (freeList s).Nodup := by
  rw [List.nodup_iff_count_le_one]
  intro x
  have most := sound.shared.count_le sound.unique x
  omega

theorem Sound.small (sound : Sound pool s) : s.pfptr < 256 := by
  have height := sound.height
  have bound := Build.mapsBound
  omega

theorem held_pos {q : Proc} (used : q.used = true) : 0 < (held q).length := by
  rw [held_used used]
  unfold Maps.pages
  split
  · exact Nat.one_pos
  · exact Nat.two_pos

/-- A process with memory leaves room on the stack. -/
theorem Sound.smaller (sound : Sound pool s) (hp : p < PTABSIZE) (used : (s.ptab p).used = true) :
    s.pfptr < 255 := by
  have height := sound.height
  have bound := Build.mapsBound
  have part := le_total (f := fun p => (held (s.ptab p)).length) hp
  have some := held_pos used
  omega

theorem trades_quiet (ptab : ∀ r, r ≠ p → t.ptab r = s.ptab r) (free : freeList t = freeList s)
    (before : (s.ptab p).used = false) (after : (t.ptab p).used = false) : Trades p s t := by
  constructor
  · exact ptab
  · intro x
    rw [free, held_unused before, held_unused after]
  · intro used
    rw [after] at used
    cases used
  · intro used
    rw [after] at used
    cases used

theorem trades_create (top : Nat) (sound : Sound pool s) (unused : (s.ptab p).used = false) :
    Trades p s (create p top s) ∧
      (((create p top s).ptab p).used = true → ((create p top s).ptab p).u_top = top) := by
  have others : ∀ r, r ≠ p → (modifyProc p (fun q => { q with p_top := top }) s).ptab r = s.ptab r :=
    fun r other => modifyProc_ne _ other
  have here : ((modifyProc p (fun q => { q with p_top := top }) s).ptab p) = { s.ptab p with p_top := top } :=
    modifyProc_same _
  unfold create
  cases done : pagemapAlloc p (modifyProc p (fun q => { q with p_top := top }) s) with
  | none =>
    dsimp only
    have after : ((modifyProc p (fun q => { q with p_top := top }) s).ptab p).used = false := by
      rw [here]
      exact unused
    refine ⟨trades_quiet others rfl unused after, fun used => ?_⟩
    rw [after] at used
    cases used
  | some u =>
    dsimp only
    obtain ⟨maps, pops, table, _⟩ := pops_alloc (s := modifyProc p (fun q => { q with p_top := top }) s)
      sound.small sound.free_nodup done
    rw [here] at pops table
    have slot : (modifyProc p (fun q => { q with used := true, u_page := q.p_page, u_top := top }) u).ptab p =
        { s.ptab p with used := true, p_top := top, p_page := maps, u_page := maps, u_top := top } := by
      rw [modifyProc_same, table, put_same]
    refine ⟨⟨fun r other => ?_, fun x => ?_, fun _ => ?_, fun _ => ?_⟩, fun _ => ?_⟩
    · rw [modifyProc_ne _ other, table, put_ne _ _ other]
      exact others r other
    · have count : (freeList s).count x = (freeList u).count x + maps.pages.count x := pops.free x
      have new := held_used (q := { s.ptab p with
        used := true, p_top := top, p_page := maps, u_page := maps, u_top := top }) rfl
      rw [slot, new, held_unused unused, List.count_nil, freeList_modifyProc]
      exact count.symm
    · rw [slot]
    · rw [slot]
      exact pops.shape
    · rw [slot]

theorem mapsNeeded_init : mapsNeeded (PROGLOAD + 4096) = mapsNeeded 0 := by
  have bank := Build.initBank
  unfold mapsNeeded
  rw [Nat.zero_add]
  by_cases high : 0x8000 ≤ (0xFFFF - PROGTOP) % 65536
  · rw [if_pos high, if_pos (bank.mpr high)]
  · rw [if_neg high, if_neg (fun no => high (bank.mp no))]

theorem trades_init (sound : Sound pool s) (unused : (s.ptab p).used = false) :
    Trades p s (createInit p s) := by
  obtain ⟨trades, top⟩ := trades_create 0 sound unused
  unfold createInit
  dsimp only
  split
  · rename_i used
    have slot : (modifyProc p (fun q => { q with u_top := PROGLOAD + 4096, p_top := PROGLOAD + 4096 })
        (create p 0 s)).ptab p = { (create p 0 s).ptab p with
          u_top := PROGLOAD + 4096, p_top := PROGLOAD + 4096 } := modifyProc_same _
    constructor
    · intro r other
      rw [modifyProc_ne _ other]
      exact trades.others r other
    · intro x
      rw [slot]
      exact trades.count x
    · intro _
      rw [slot]
      exact trades.pair used
    · intro _
      have shape := trades.shape used
      rw [top used] at shape
      rw [slot]
      show mapsNeeded (PROGLOAD + 4096) = 1 ↔ _
      rw [mapsNeeded_init]
      exact shape
  · exact trades

theorem Trades.refl (sound : Sound pool s) (hp : p < PTABSIZE) : Trades p s s :=
  ⟨fun _ _ => rfl, fun _ => rfl, sound.pair p hp, sound.shape p hp⟩

theorem trades_exec (sound : Sound pool s) (hp : p < PTABSIZE) (used : (s.ptab p).used = true) (size : Nat) :
    Trades p s (exec p size s) := by
  unfold exec
  cases done : pagemapRealloc p size s with
  | none => exact Trades.refl sound hp
  | some u =>
    dsimp only
    have apart : (s.ptab p).p_page.high ∉ freeList s := by
      apply sound.shared.not_free sound.unique hp
      rw [held_used used]
      unfold Maps.pages
      split
      · rename_i equal
        rw [equal]
        exact List.mem_singleton.mpr rfl
      · exact List.mem_cons_of_mem _ (List.mem_singleton.mpr rfl)
    obtain ⟨maps, table, count, shape⟩ := pops_realloc (sound.smaller hp used) (sound.pair p hp used)
      (sound.shape p hp used) apart done
    have slot : (modifyProc p (fun q => { q with u_top := size, p_top := size }) u).ptab p =
        { s.ptab p with p_page := maps, u_page := maps, u_top := size, p_top := size } := by
      rw [modifyProc_same, table, put_same]
    constructor
    · intro r other
      rw [modifyProc_ne _ other, table, put_ne _ _ other]
    · intro x
      have new := held_used (q := { s.ptab p with
        p_page := maps, u_page := maps, u_top := size, p_top := size }) used
      rw [slot, new, held_used used, freeList_modifyProc]
      exact count x
    · intro _
      rw [slot]
    · intro _
      rw [slot]
      exact shape

/-! ## Freeing -/

/-- A page that is freed leaves the stack one lower. -/
theorem pagemapFree_ptr : (pagemapFree p s).pfptr = (s.pfptr + 255 * (s.ptab p).p_page.pages.length) % 256 := by
  unfold pagemapFree Maps.pages
  dsimp only
  by_cases same : (s.ptab p).p_page.low = (s.ptab p).p_page.high
  · rw [if_pos same, if_neg (fun no => no same)]
    rfl
  · have cached : ∀ page u, (invalidateCache page u).pfptr = u.pfptr := by
      intro page u
      unfold invalidateCache
      split
      · rfl
      · rfl
    rw [if_neg same, if_pos same, cached]
    show ((s.pfptr + 255) % 256 + 255) % 256 = (s.pfptr + 255 * 2) % 256
    omega

theorem pagemapFree_ptab : (pagemapFree p s).ptab = s.ptab := by
  unfold pagemapFree invalidateCache
  dsimp only
  split
  · split
    · rfl
    · rfl
  · rfl

/-- The pages of a process that is freed are lost. -/
theorem release_lost (sound : Sound pool s) (hp : p < PTABSIZE) (used : (s.ptab p).used = true) :
    ¬ Conserved pool (release p s) := by
  intro kept
  have before := sound.shared.length
  have after := (shared_iff_perm.mpr kept.pages).length
  unfold freeList at before after
  rw [pile_length] at before after
  have ptr : (release p s).pfptr = (s.pfptr + 255 * (held (s.ptab p)).length) % 256 := by
    rw [held_used used]
    exact pagemapFree_ptr
  have change := total_change (f := fun p => (held (s.ptab p)).length)
    (g := fun r => (held ((release p s).ptab r)).length) hp (fun r _ other => by
      have same : (release p s).ptab r = s.ptab r := by
        unfold release
        rw [modifyProc_ne _ other, pagemapFree_ptab]
      rw [same])
  have none : (held ((release p s).ptab p)).length = 0 := by
    unfold release
    rw [modifyProc_same, held_unused rfl, List.length_nil]
  have some := held_pos used
  have few : (held (s.ptab p)).length ≤ 2 := by
    rw [held_used used]
    unfold Maps.pages
    split
    · exact Nat.le_succ 1
    · exact Nat.le_refl 2
  have height := sound.height
  have bound := Build.mapsBound
  omega

theorem Sound.step {a : Action} (sound : Sound pool s) (kind : ¬ a.frees) (step : a.apply s = some t) :
    Sound (pool ++ a.adds) t ∧ Taken s t := by
  have traded : ∀ p, p < PTABSIZE → Trades p s t → Sound (pool ++ []) t ∧ Taken s t := by
    intro p hp trades
    rw [List.append_nil]
    exact ⟨sound.trade hp trades, trades.taken⟩
  cases a with
  | add page =>
    obtain ⟨⟨none, new⟩, done⟩ := Option.ite_none_right_eq_some.mp step
    refine ⟨sound.add none new done, ?_⟩
    have table : t.ptab = s.ptab := by
      unfold pagemapAdd at done
      split at done
      · cases done
      · injection done with same
        rw [← same]
    intro p hp x member
    rw [table, idle_held none p hp] at member
    cases member
  | init p =>
    obtain ⟨⟨none, hp⟩, same⟩ := Option.ite_none_right_eq_some.mp step
    injection same with same
    exact traded p hp (same ▸ trades_init sound (none p hp))
  | alloc parent p =>
    obtain ⟨⟨_, _, hp, unused⟩, same⟩ := Option.ite_none_right_eq_some.mp step
    injection same with same
    exact traded p hp (same ▸ (trades_create _ sound unused).1)
  | realloc p size =>
    obtain ⟨⟨hp, used⟩, same⟩ := Option.ite_none_right_eq_some.mp step
    injection same with same
    exact traded p hp (same ▸ trades_exec sound hp used size)
  | free p => exact absurd trivial kind

end Facts

/-- The kernel has just been loaded. -/
structure Cold (s : State) : Prop where
  pfptr : s.pfptr = 0
  idle : idle s

theorem Cold.sound {s : State} (cold : Cold s) : Sound [] s := by
  constructor
  · exact List.nodup_nil
  · exact Nat.zero_le _
  · intro x
    have free : freeList s = [] := by
      unfold freeList pile
      rw [cold.pfptr]
      rfl
    have nothing : total PTABSIZE (fun k => (held (s.ptab k)).count x) = 0 := by
      rw [total_congr (g := fun _ => 0), total_zero]
      intro k hk
      rw [idle_held cold.idle k hk, List.count_nil]
    rw [free, nothing]
    rfl
  · intro p hp used
    rw [cold.idle p hp] at used
    cases used
  · intro p hp used
    rw [cold.idle p hp] at used
    cases used

theorem added_snoc (as : List Action) (a : Action) : added (as ++ [a]) = added as ++ a.adds := by
  simp [added]

/-- A step that frees no pages. -/
def keepsPages (s : State) (a : Action) (t : State) : Prop := ¬ a.frees ∧ a.apply s = some t

theorem Sound.run {s t : State} {as : List Action} (sound : Sound [] s)
    (run : Steps keepsPages s as t) : Sound (added as) t := by
  induction run with
  | nil => exact sound
  | snoc _ last ih =>
    rw [added_snoc]
    exact (ih.step last.1 last.2).1

/-- The pages are kept as long as none is freed, and freeing loses them. -/
theorem pages_conserved (s t : State) (as : List Action) (cold : Cold s)
    (run : Steps keepsPages s as t) :
    Conserved (added as) t ∧ ∀ a u, a.apply t = some u →
      (Conserved (added (as ++ [a])) u ∧ Taken t u ↔ ¬ a.frees) := by
  have sound := cold.sound.run run
  refine ⟨sound.conserved, fun a u step => ⟨?_, fun kind => ?_⟩⟩
  · rintro ⟨kept, _⟩ kind
    rw [added_snoc] at kept
    cases a with
    | free p =>
      obtain ⟨⟨hp, used⟩, same⟩ := Option.ite_none_right_eq_some.mp step
      injection same with same
      have none : added as ++ (Action.free p).adds = added as := List.append_nil _
      rw [← same, none] at kept
      exact release_lost sound hp used kept
    | _ => exact kind
  · rw [added_snoc]
    have after := sound.step kind step
    exact ⟨after.1.conserved, after.2⟩

/-- The eight banks of z80pack, and two processes. -/
@[reducible] def z80pack32 : Build where
  PTABSIZE := 2
  MAX_MAPS := 7
  PROGLOAD := 0x100
  PROGTOP := 0xBC00
  commonCopy := true
  mapsBound := by decide
  topBound := by decide
  initBank := by decide

def off : State where
  pfree := fun _ => 0
  pfptr := 0
  cachedPage := 0xFF
  ptab := fun _ => ⟨false, 0, ⟨0, 0⟩, 0, ⟨0, 0⟩⟩

theorem off_cold : @Cold z80pack32 off := by
  let _ := z80pack32
  exact ⟨rfl, fun _ _ => rfl⟩

omit [Build] in
/-- Init grows, forks, and shrinks. -/
theorem pages_conserved_fork : ∃ (_ : Build) (t : State), Steps keepsPages off
    [.add 1, .add 2, .add 3, .add 4, .init 0, .realloc 0 0xB000, .alloc 0 1, .realloc 0 0x2000] t ∧
    (freeList t ++ (List.range 2).flatMap (fun p => held (t.ptab p))).Perm [1, 2, 3, 4] := by
  let m := z80pack32
  have runs : (perform Action.apply (fun _ a => ¬ a.frees) [.add 1, .add 2, .add 3, .add 4, .init 0,
      .realloc 0 0xB000, .alloc 0 1, .realloc 0 0x2000] off).isSome := by decide +kernel
  obtain ⟨t, done⟩ := Option.isSome_iff_exists.mp runs
  have run := perform_steps done
  exact ⟨m, t, run, (pages_conserved off t _ off_cold run).1.pages⟩

omit [Build] in
/-- Init forks, and the child exits. -/
theorem pages_lost : ∃ (_ : Build) (t : State), Cold off ∧
    Steps (fun s (a : Action) t => a.apply s = some t) off [.add 1, .add 2, .init 0, .alloc 0 1, .free 1] t ∧
    ¬ (freeList t ++ (List.range PTABSIZE).flatMap (fun p => held (t.ptab p))).Perm
      (added [.add 1, .add 2, .init 0, .alloc 0 1, .free 1]) := by
  let m := z80pack32
  have runs : (perform Action.apply (fun _ _ => True) [.add 1, .add 2, .init 0, .alloc 0 1, .free 1] off).map
      (fun t => (freeList t ++ (List.range 2).flatMap (fun p => held (t.ptab p))).length) = some 256 := by
    decide +kernel
  obtain ⟨t, done, length⟩ := Option.map_eq_some_iff.mp runs
  refine ⟨m, t, off_cold, (perform_steps done).mono fun _ _ _ step => step.2, fun perm => ?_⟩
  have same : 256 = 2 := length.symm.trans perm.length_eq
  cases same

end Bank32k
