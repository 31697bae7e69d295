import Fuzix.Lib.Run
import Fuzix.Usermem

/-!
# The break

`_brk` and `_sbrk` of syscall_proc.c, over the checked `uzero`, and the lines of `_execve`
that set the first break. What `brk_limit()` returns is given with each call, since it
depends on the stack of the process.
-/

namespace Brk

open Usermem Run

def ENOMEM : Nat := 12

structure State where
  space : Space
  u_break : Uaddr
  /-- The end of the loaded image. -/
  image : Uaddr

/-- The end of `_execve`, behind the last byte of the file. -/
def loaded (even : Bool) (progptr bss : Uaddr) (u : Space) : State :=
  let aligned := if even then (progptr + bss + 1) &&& ~~~(1 : Uaddr) else progptr + bss
  ⟨(uzero u progptr bss).2, aligned, progptr + bss⟩

def State.brk (s : State) (limit addr : Uaddr) : Uaddr × State :=
  if limit ≤ addr then (-1, { s with space := { s.space with uError := ENOMEM } })
  else
    let space :=
      if s.u_break < addr then (uzero s.space s.u_break (addr - s.u_break)).2 else s.space
    (0, { s with space := space, u_break := addr })

def State.sbrk (s : State) (limit incr : Uaddr) : Uaddr × State :=
  let oldbrk := s.u_break
  let r := s.brk limit (incr + oldbrk)
  if r.1 ≠ 0 then (-1, r.2) else (oldbrk, r.2)

/-! ## Calls in turn -/

/-- Between its calls the process stores bytes in its memory. -/
inductive Call where
  | store (a : Uaddr) (b : UInt8)
  | brk (limit addr : Uaddr)
  | sbrk (limit incr : Uaddr)

/-- `unix_syscall` clears the error before a call. -/
def State.enter (s : State) : State := { s with space := { s.space with uError := 0 } }

def State.call (s : State) : Call → Uaddr × State
  | Call.store a b => (0, { s.enter with space := Usermem.store s.enter.space a b })
  | Call.brk limit addr => s.enter.brk limit addr
  | Call.sbrk limit incr => s.enter.sbrk limit incr

def State.step (s : State) (c : Call) : State := (s.call c).2

/-- What the process is told. -/
def State.fails (s : State) (c : Call) : Prop := (s.step c).space.uError ≠ 0

/-- The address that a call asks for, and the limit it finds. -/
def State.request (s : State) : Call → Option (Uaddr × Uaddr)
  | Call.store _ _ => none
  | Call.brk limit addr => some (limit, addr)
  | Call.sbrk limit incr => some (limit, incr + s.u_break)

structure Right (s : State) (c : Call) : Prop where
  failing : s.fails c → (s.step c).u_break = s.u_break
  within : ∀ limit addr, s.request c = some (limit, addr) → ¬ s.fails c →
    s.image ≤ (s.step c).u_break ∧ (s.step c).u_break < limit
  fresh : ∀ x, s.u_break ≤ x → x < (s.step c).u_break → (s.step c).space.mem x = 0
  current : ∀ limit, c = Call.sbrk limit 0 → ¬ s.fails c ∧ (s.call c).1 = s.u_break

/-- `brk_limit()` is an address inside the process. -/
def Limited (s : State) (c : Call) : Prop :=
  ∀ limit addr, s.request c = some (limit, addr) → s.space.progbase ≤ limit ∧ limit ≤ s.space.uTop

/-- The new break is not below the image, the old one is an address of the process where
there is memory to clear, and is below the limit where it is asked for. -/
def Clean (s : State) (c : Call) : Prop :=
  (∀ limit addr, s.request c = some (limit, addr) → addr < limit →
    s.image ≤ addr ∧ (s.u_break < addr → s.u_break ≠ 0 ∧ s.space.progbase ≤ s.u_break)) ∧
  ∀ limit, c = Call.sbrk limit 0 → s.u_break < limit

/-! ## Clearing -/

theorem rawPut_bounds (source : List UInt8) (a : Uaddr) (u : Space) :
    (rawPut source a u).progbase = u.progbase ∧ (rawPut source a u).uTop = u.uTop ∧
      (rawPut source a u).uError = u.uError := by
  induction source generalizing a u with
  | nil => exact ⟨rfl, rfl, rfl⟩
  | cons b source ih => exact ih (a + 1) (store u a b)

/-- A byte that is cleared stays clear. -/
theorem rawZero_mem (n : Nat) (a x : Uaddr) (u : Space) (clear : InSpan a n x ∨ u.mem x = 0) :
    (rawZero n a u).mem x = 0 := by
  induction n generalizing a u with
  | zero =>
    rcases clear with ⟨i, less, _⟩ | zero
    · omega
    · exact zero
  | succ n ih =>
    apply ih (a + 1) (store u a 0)
    by_cases here : x = a
    · right
      exact if_pos here
    · rcases clear with inside | zero
      · rw [inSpan_succ] at inside
        exact Or.inl (inside.resolve_left here)
      · right
        exact (if_neg here).trans zero

theorem uzero_refused {u : Space} {user count : Uaddr} (refused : Refused u user count) :
    (uzero u user count).2 = fault u := by
  have zero := valaddr_refused refused
  have second : (valaddr u user count).2 = fault u := by
    unfold valaddr at *
    rw [if_pos refused]
    rfl
  unfold uzero
  rw [if_pos zero, second]

theorem uzero_whole {u : Space} {user count : Uaddr} (fine : ¬ Refused u user count)
    (more : count ≠ 0) (room : user + count ≤ u.uTop) :
    (uzero u user count).2 = rawZero count.toNat user u := by
  have whole := valaddr_whole fine room
  have second : (valaddr u user count).2 = u := by
    unfold valaddr
    simp only [if_neg fine, if_neg (BitVec.not_lt.mpr room), if_neg more]
  simp only [uzero, whole, if_neg more, second]

/-! ## What a request does -/

/-- Memory from the old break to the new one can be cleared. -/
def Clearable (s : State) : Prop := s.u_break ≠ 0 ∧ s.space.progbase ≤ s.u_break

theorem distance {a b : Uaddr} (less : a < b) :
    b - a ≠ 0 ∧ a + (b - a) = b ∧ ∀ x, a ≤ x → x < b → InSpan a (b - a).toNat x := by
  refine ⟨by bv_omega, by bv_omega, ?_⟩
  intro x low high
  exact ⟨x.toNat - a.toNat, by bv_omega, by bv_omega⟩

theorem refused_iff {s : State} {addr : Uaddr} (raising : s.u_break < addr) :
    Refused s.space s.u_break (addr - s.u_break) ↔ ¬ Clearable s := by
  have whole := (distance raising).2.1
  unfold Refused Clearable
  rw [whole]
  constructor
  · rintro (null | early | wrapped) ⟨there, late⟩
    · exact there null
    · bv_omega
    · bv_omega
  · intro bad
    by_cases null : s.u_break = 0
    · exact Or.inl null
    · right
      left
      by_contra late
      exact bad ⟨null, BitVec.not_lt.mp late⟩

theorem brk_refused {s : State} {limit addr : Uaddr} (above : limit ≤ addr) :
    (s.brk limit addr).1 = -1 ∧ (s.brk limit addr).2.u_break = s.u_break ∧
      (s.brk limit addr).2.space.uError = ENOMEM := by
  unfold State.brk
  rw [if_pos above]
  exact ⟨rfl, rfl, rfl⟩

theorem brk_sets {s : State} {limit addr : Uaddr} (below : ¬ limit ≤ addr) :
    (s.brk limit addr).1 = 0 ∧ (s.brk limit addr).2.u_break = addr ∧
      (s.brk limit addr).2.image = s.image := by
  unfold State.brk
  rw [if_neg below]
  exact ⟨rfl, rfl, rfl⟩

theorem brk_lowers {s : State} {limit addr : Uaddr} (below : ¬ limit ≤ addr)
    (lowering : ¬ s.u_break < addr) : (s.brk limit addr).2.space = s.space := by
  unfold State.brk
  rw [if_neg below]
  exact if_neg lowering

theorem brk_raises {s : State} {limit addr : Uaddr} (below : ¬ limit ≤ addr)
    (raising : s.u_break < addr) :
    (s.brk limit addr).2.space = (uzero s.space s.u_break (addr - s.u_break)).2 := by
  unfold State.brk
  rw [if_neg below]
  exact if_pos raising

/-- The process is told of an error although the break was moved. -/
theorem brk_blind {s : State} {limit addr : Uaddr} (below : ¬ limit ≤ addr)
    (raising : s.u_break < addr) (bad : ¬ Clearable s) :
    (s.brk limit addr).2.space.uError = EFAULT := by
  rw [brk_raises below raising, uzero_refused ((refused_iff raising).mpr bad)]
  rfl

theorem brk_clears {s : State} {limit addr : Uaddr} (below : ¬ limit ≤ addr)
    (inside : limit ≤ s.space.uTop) (clearable : s.u_break < addr → Clearable s) :
    (s.brk limit addr).2.space.uError = s.space.uError ∧
      ∀ x, s.u_break ≤ x → x < addr → (s.brk limit addr).2.space.mem x = 0 := by
  by_cases raising : s.u_break < addr
  · obtain ⟨more, whole, spans⟩ := distance raising
    have fine : ¬ Refused s.space s.u_break (addr - s.u_break) :=
      fun refused => (refused_iff raising).mp refused (clearable raising)
    have room : s.u_break + (addr - s.u_break) ≤ s.space.uTop := by
      rw [whole]
      bv_omega
    rw [brk_raises below raising, uzero_whole fine more room]
    constructor
    · exact (rawPut_bounds _ _ _).2.2
    · intro x low high
      exact rawZero_mem _ _ x _ (Or.inl (spans x low high))
  · rw [brk_lowers below raising]
    refine ⟨rfl, ?_⟩
    intro x low high
    bv_omega

/-! ## What a call does -/

theorem sbrk_eq (s : State) (limit incr : Uaddr) :
    s.sbrk limit incr =
      if (s.brk limit (incr + s.u_break)).1 ≠ 0 then (-1, (s.brk limit (incr + s.u_break)).2)
      else (s.u_break, (s.brk limit (incr + s.u_break)).2) := rfl

theorem step_request {s : State} {c : Call} {limit addr : Uaddr}
    (asks : s.request c = some (limit, addr)) : s.step c = (s.enter.brk limit addr).2 := by
  cases c with
  | store a b => cases asks
  | brk l a =>
    cases asks
    rfl
  | sbrk l i =>
    cases asks
    show (s.enter.sbrk limit i).2 = (s.enter.brk limit (i + s.u_break)).2
    rw [sbrk_eq]
    split <;> rfl

theorem current_request {s : State} {limit : Uaddr} :
    s.request (Call.sbrk limit 0) = some (limit, s.u_break) := by
  exact congrArg (fun addr => some (limit, addr)) (BitVec.zero_add s.u_break)

theorem right_of_clean {s : State} {c : Call} {limit addr : Uaddr}
    (asks : s.request c = some (limit, addr)) (limited : Limited s c) (clean : Clean s c) :
    Right s c := by
  have step := step_request asks
  have inside := (limited limit addr asks).2
  have wanted := clean.1 limit addr asks
  by_cases above : limit ≤ addr
  · obtain ⟨_, same, error⟩ := brk_refused (s := s.enter) above
    rw [← step] at same error
    have failed : s.fails c := by
      unfold State.fails
      rw [error]
      decide
    constructor
    · intro _
      exact same
    · intro _ _ _ well
      exact absurd failed well
    · intro x low high
      rw [same] at high
      have here : s.u_break ≤ x := low
      have there : x < s.u_break := high
      bv_omega
    · intro l is
      rw [is, current_request] at asks
      cases asks
      have below := clean.2 limit is
      bv_omega
  · have lower : addr < limit := BitVec.not_le.mp above
    obtain ⟨image, clearable⟩ := wanted lower
    obtain ⟨zero, set, _⟩ := brk_sets (s := s.enter) above
    obtain ⟨error, clears⟩ := brk_clears (s := s.enter) above inside clearable
    rw [← step] at set error clears
    have well : ¬ s.fails c := fun failed => failed error
    constructor
    · intro failed
      exact absurd failed well
    · intro l a same _
      rw [asks] at same
      cases same
      rw [set]
      exact ⟨image, lower⟩
    · intro x low high
      rw [set] at high
      exact clears x low high
    · intro l is
      refine ⟨well, ?_⟩
      subst is
      rw [current_request] at asks
      cases asks
      show (s.enter.sbrk limit 0).1 = s.u_break
      have asked : (0 : Uaddr) + s.enter.u_break = s.u_break := BitVec.zero_add _
      rw [sbrk_eq, asked, if_neg (not_not.mpr zero)]
      rfl

theorem clean_of_right {s : State} {c : Call} {limit addr : Uaddr}
    (asks : s.request c = some (limit, addr)) (limited : Limited s c) (right : Right s c) :
    Clean s c := by
  have step := step_request asks
  have inside := (limited limit addr asks).2
  constructor
  · intro l a same lower
    rw [asks] at same
    cases same
    have below : ¬ limit ≤ addr := BitVec.not_le.mpr lower
    obtain ⟨_, set, _⟩ := brk_sets (s := s.enter) below
    rw [← step] at set
    have clearable : s.u_break < addr → Clearable s := by
      intro raising
      by_contra bad
      have error := brk_blind (s := s.enter) below raising bad
      rw [← step] at error
      have failed : s.fails c := by
        unfold State.fails
        rw [error]
        decide
      have kept := right.failing failed
      rw [set] at kept
      bv_omega
    refine ⟨?_, clearable⟩
    have error := (brk_clears (s := s.enter) below inside clearable).1
    rw [← step] at error
    have image := (right.within limit addr asks (fun failed => failed error)).1
    rw [set] at image
    exact image
  · intro l is
    have well := (right.current l is).1
    rw [is, current_request] at asks
    cases asks
    by_contra below
    have error := (brk_refused (s := s.enter) (BitVec.not_lt.mp below)).2.2
    rw [← step] at error
    apply well
    unfold State.fails
    rw [error]
    decide

theorem store_right (s : State) (a : Uaddr) (b : UInt8) : Right s (Call.store a b) := by
  constructor
  · intro _
    rfl
  · intro _ _ none
    cases none
  · intro x low high
    have here : x < s.u_break := high
    bv_omega
  · intro _ other
    cases other

theorem right_iff {s : State} {c : Call} (limited : Limited s c) : Right s c ↔ Clean s c := by
  cases c with
  | store a b =>
    constructor
    · intro _
      refine ⟨?_, ?_⟩
      · intro _ _ none
        cases none
      · intro _ other
        cases other
    · intro _
      exact store_right s a b
  | brk limit addr => exact ⟨clean_of_right rfl limited, right_of_clean rfl limited⟩
  | sbrk limit incr => exact ⟨clean_of_right rfl limited, right_of_clean rfl limited⟩

/-- From every state, such as the one that `_execve` leaves, the break and the fresh memory
are right as long as no request goes below the image or starts from where there is no
memory, and the break is only asked for below the limit; and not beyond. -/
theorem breaks_kept (s : State) (calls : List Call) :
    Throughout State.step (fun s c => Limited s c ∧ Right s c) s calls ↔
      Throughout State.step (fun s c => Limited s c ∧ Clean s c) s calls := by
  apply throughout_iff (I := fun _ => True) (fun _ _ _ _ => trivial) _ trivial calls
  intro s c _
  constructor
  · rintro ⟨limited, right⟩
    exact ⟨limited, (right_iff limited).mp right⟩
  · rintro ⟨limited, clean⟩
    exact ⟨limited, (right_iff limited).mpr clean⟩

/-- A program loaded at 0x0100 with an image up to 0x0A00, in memory that was used. -/
def small : State := loaded false 0x0900 0x0100 ⟨0x0100, 0xED00, fun _ => 0xFF, 0, []⟩

/-- The break goes below the image, even below the memory of the process; from there it
comes back over bytes that are not cleared, with an error. -/
theorem break_below_image :
    Throughout State.step Limited small [Call.brk 0xE000 0x80, Call.brk 0xE000 0x200] ∧
      ¬ Throughout State.step Right small [Call.brk 0xE000 0x80, Call.brk 0xE000 0x200] ∧
      ((small.step (Call.brk 0xE000 0x80)).step (Call.brk 0xE000 0x200)).u_break = 0x200 ∧
      ((small.step (Call.brk 0xE000 0x80)).step (Call.brk 0xE000 0x200)).space.uError = EFAULT ∧
      ((small.step (Call.brk 0xE000 0x80)).step (Call.brk 0xE000 0x200)).space.mem 0x100 = 0xFF := by
  refine ⟨⟨?_, ?_, trivial⟩, ?_, by decide +kernel, by decide +kernel, by decide +kernel⟩
  · rintro _ _ ⟨⟩
    decide +kernel
  · rintro _ _ ⟨⟩
    decide +kernel
  · intro right
    have well : ¬ small.fails (Call.brk 0xE000 0x80) := by
      unfold State.fails
      decide +kernel
    have image := (right.1.within 0xE000 0x80 rfl well).1
    exact absurd image (by decide +kernel)

end Brk
