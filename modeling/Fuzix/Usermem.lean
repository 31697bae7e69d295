import Mathlib.Tactic.Common

/-!
# User memory access

`valaddr` and the copy helpers of usermem.c, for the builds with a 16-bit
`usize_t`; the flat-memory builds replace `valaddr` and are not covered. The raw
copies are those of `CONFIG_USERMEM_DIRECT`. Every user address that a raw
copy reads or writes is logged, so that confinement speaks about accesses and
not about return codes.
-/

namespace Usermem

/-- `usize_t`, `uaddr_t` and a user pointer. -/
abbrev Uaddr := BitVec 16

def EFAULT : Nat := 14

/-- The bounds and the memory of the calling process, with `u_error`. -/
structure Space where
  progbase : Uaddr
  uTop : Uaddr
  mem : Uaddr → UInt8
  uError : Nat
  touched : List Uaddr

def fault (u : Space) : Space := { u with uError := EFAULT }

/-- The request is turned down before it is compared with the top. -/
def Refused (u : Space) (base size : Uaddr) : Prop :=
  base = 0 ∨ base < u.progbase ∨ base + size < base

instance (u : Space) (base size : Uaddr) : Decidable (Refused u base size) :=
  inferInstanceAs (Decidable (_ ∨ _ ∨ _))

def valaddr (u : Space) (base size : Uaddr) : Uaddr × Space :=
  let size :=
    if Refused u base size then 0
    else if u.uTop < base + size then u.uTop - base
    else size
  (size, if size = 0 then fault u else u)

/-! ## The raw copies -/

def load (u : Space) (a : Uaddr) : UInt8 × Space :=
  (u.mem a, { u with touched := a :: u.touched })

def store (u : Space) (a : Uaddr) (b : UInt8) : Space :=
  { u with
    mem := fun x => if x = a then b else u.mem x
    touched := a :: u.touched }

/-- `_uget`: memcpy from user space. -/
def rawGet : Nat → Uaddr → Space → List UInt8 × Space
  | 0, _, u => ([], u)
  | n + 1, user, u =>
    let first := load u user
    let rest := rawGet n (user + 1) first.2
    (first.1 :: rest.1, rest.2)

/-- `_uput`: memcpy to user space. -/
def rawPut : List UInt8 → Uaddr → Space → Space
  | [], _, u => u
  | b :: source, user, u => rawPut source (user + 1) (store u user b)

/-- `_uzero`: memset of user space. -/
def rawZero (count : Nat) (user : Uaddr) (u : Space) : Space :=
  rawPut (List.replicate count 0) user u

/-- `_ugets`: copy up to and including the NUL; without one the last byte
copied is overwritten by the terminator and the copy fails. -/
def rawGets : Nat → Uaddr → Space → Option (List UInt8) × Space
  | 0, _, u => (none, u)
  | n + 1, user, u =>
    let first := load u user
    if first.1 = 0 then (some [], first.2)
    else
      let rest := rawGets n (user + 1) first.2
      (rest.1.map (first.1 :: ·), rest.2)

def word : List UInt8 → Nat
  | [lo, hi] => lo.toNat + 256 * hi.toNat
  | _ => 0

/-! ## The checked copies -/

def uget (u : Space) (user count : Uaddr) : Option (List UInt8) × Space :=
  let v := valaddr u user count
  if v.1 = 0 then (none, v.2)
  else
    let r := rawGet count.toNat user v.2
    (some r.1, r.2)

def uput (u : Space) (source : Nat → UInt8) (user count : Uaddr) : Int × Space :=
  let v := valaddr u user count
  if v.1 = 0 then (-1, v.2)
  else (0, rawPut ((List.range count.toNat).map source) user v.2)

def uzero (u : Space) (user count : Uaddr) : Int × Space :=
  let v := valaddr u user count
  if v.1 = 0 then (-1, v.2)
  else (0, rawZero count.toNat user v.2)

def ugets (u : Space) (user maxlen : Uaddr) : Option (List UInt8) × Space :=
  let v := valaddr u user maxlen
  if v.1 = 0 then (none, v.2)
  else
    let r := rawGets v.1.toNat user v.2
    if r.1 = none then (none, fault r.2) else r

/-- The failure value `-1` is a word like any other. -/
def ugetw (u : Space) (user : Uaddr) : Nat × Space :=
  let v := valaddr u user 2
  if v.1 = 0 then (0xFFFF, v.2)
  else
    let r := rawGet 2 user v.2
    (word r.1, r.2)

def uputw (u : Space) (value : UInt16) (user : Uaddr) : Int × Space :=
  let v := valaddr u user 2
  if v.1 = 0 then (-1, v.2)
  else (0, rawPut [value.toUInt8, (value >>> 8).toUInt8] user v.2)

/-! ## Confinement -/

def Inside (u : Space) (a : Uaddr) : Prop := u.progbase ≤ a ∧ a < u.uTop

/-- One request of kernel code for user memory. -/
inductive Call where
  | valaddr (base size : Uaddr)
  | uget (user count : Uaddr)
  | uput (source : Nat → UInt8) (user count : Uaddr)
  | uzero (user count : Uaddr)
  | ugets (user maxlen : Uaddr)
  | ugetw (user : Uaddr)
  | uputw (value : UInt16) (user : Uaddr)

/-- The user addresses that the call reads or writes. -/
def Call.touches (u : Space) (c : Call) : List Uaddr :=
  let u := { u with touched := [] }
  match c with
  | .valaddr base size => (Usermem.valaddr u base size).2.touched
  | .uget user count => (Usermem.uget u user count).2.touched
  | .uput source user count => (Usermem.uput u source user count).2.touched
  | .uzero user count => (Usermem.uzero u user count).2.touched
  | .ugets user maxlen => (Usermem.ugets u user maxlen).2.touched
  | .ugetw user => (Usermem.ugetw u user).2.touched
  | .uputw value user => (Usermem.uputw u value user).2.touched

/-- A positive answer of `valaddr` names a range inside the process, and every
address touched is inside the process. -/
def Call.Confined (u : Space) (c : Call) : Prop :=
  (∀ base size, c = .valaddr base size → (Usermem.valaddr u base size).1 ≠ 0 →
    u.progbase ≤ base ∧
      base.toNat + (Usermem.valaddr u base size).1.toNat ≤ u.uTop.toNat) ∧
  ∀ a ∈ c.touches u, Inside u a

/-- A copy of `count` bytes that does not honour the trimmed length. -/
def Fits (u : Space) (user count : Uaddr) : Prop :=
  Refused u user count ∨ count = 0 ∨ user = u.uTop ∨ user + count ≤ u.uTop

/-- A request for whose start the trimming arithmetic does not wrap. -/
def StartsBelow (u : Space) (base size : Uaddr) : Prop :=
  Refused u base size ∨ base ≤ u.uTop

def Call.Safe (u : Space) : Call → Prop
  | .valaddr base size => StartsBelow u base size
  | .uget user count => Fits u user count
  | .uput _ user count => Fits u user count
  | .uzero user count => Fits u user count
  | .ugets user maxlen => StartsBelow u user maxlen
  | .ugetw user => Fits u user 2
  | .uputw _ user => Fits u user 2

section Valaddr
variable {u : Space} {base size : Uaddr}

theorem valaddr_refused (h : Refused u base size) : (valaddr u base size).1 = 0 := by
  simp [valaddr, h]

theorem valaddr_trimmed (h : ¬ Refused u base size) (past : u.uTop < base + size) :
    (valaddr u base size).1 = u.uTop - base := by
  simp [valaddr, h, past]

theorem valaddr_whole (h : ¬ Refused u base size) (room : base + size ≤ u.uTop) :
    (valaddr u base size).1 = size := by
  simp [valaddr, h, BitVec.not_lt.mpr room]

@[simp] theorem valaddr_touched : (valaddr u base size).2.touched = u.touched := by
  unfold valaddr
  split
  · rfl
  · split <;> simp only <;> split <;> rfl

theorem not_refused_bounds (h : ¬ Refused u base size) :
    u.progbase ≤ base ∧ base.toNat + size.toNat < 65536 := by
  simp only [Refused, not_or, BitVec.not_lt] at h
  obtain ⟨_, hb, hw⟩ := h
  refine ⟨hb, ?_⟩
  bv_omega

/-- A request answered with zero is refused, empty, or starts at the top. -/
theorem valaddr_zero (h : (valaddr u base size).1 = 0) :
    Refused u base size ∨ size = 0 ∨ base = u.uTop := by
  by_cases refused : Refused u base size
  · exact Or.inl refused
  · by_cases past : u.uTop < base + size
    · rw [valaddr_trimmed refused past] at h
      exact Or.inr (Or.inr (by bv_omega))
    · rw [valaddr_whole refused (BitVec.not_lt.mp past)] at h
      exact Or.inr (Or.inl h)

/-- The answer names a range inside the process exactly when the subtraction
that trims it does not wrap. -/
theorem valaddr_confined_iff :
    ((valaddr u base size).1 ≠ 0 →
      u.progbase ≤ base ∧
        base.toNat + (valaddr u base size).1.toNat ≤ u.uTop.toNat) ↔
      StartsBelow u base size := by
  by_cases refused : Refused u base size
  · simp [StartsBelow, refused, valaddr_refused refused]
  · obtain ⟨low, small⟩ := not_refused_bounds refused
    by_cases past : u.uTop < base + size
    · rw [valaddr_trimmed refused past]
      constructor
      · intro h
        refine Or.inr ?_
        by_contra above
        have nonzero : u.uTop - base ≠ 0 := by bv_omega
        have inside := (h nonzero).2
        bv_omega
      · rintro (bad | below) _
        · exact absurd bad refused
        · exact ⟨low, by bv_omega⟩
    · have room := BitVec.not_lt.mp past
      rw [valaddr_whole refused room]
      have below : base ≤ u.uTop := by bv_omega
      exact ⟨fun _ => Or.inr below, fun _ _ => ⟨low, by bv_omega⟩⟩

end Valaddr

/-! ## Which addresses a raw copy touches -/

/-- The address `x` is one of the `n` addresses from `a` on, wrapping. -/
def InSpan (a : Uaddr) (n : Nat) (x : Uaddr) : Prop :=
  ∃ i, i < n ∧ x = a + BitVec.ofNat 16 i

theorem inSpan_succ (a : Uaddr) (n : Nat) (x : Uaddr) :
    InSpan a (n + 1) x ↔ x = a ∨ InSpan (a + 1) n x := by
  constructor
  · rintro ⟨i, hi, hx⟩
    cases i with
    | zero => exact Or.inl (by bv_omega)
    | succ i => exact Or.inr ⟨i, by omega, by bv_omega⟩
  · rintro (rfl | ⟨i, hi, hx⟩)
    · exact ⟨0, by omega, by bv_omega⟩
    · exact ⟨i + 1, by omega, by bv_omega⟩

theorem rawGet_touched (n : Nat) (a : Uaddr) (u : Space) (x : Uaddr) :
    x ∈ (rawGet n a u).2.touched ↔ InSpan a n x ∨ x ∈ u.touched := by
  induction n generalizing a u with
  | zero => simp [rawGet, InSpan]
  | succ n ih =>
    simp only [rawGet, ih, load, List.mem_cons, inSpan_succ]
    tauto

theorem rawPut_touched (source : List UInt8) (a : Uaddr) (u : Space) (x : Uaddr) :
    x ∈ (rawPut source a u).touched ↔
      InSpan a source.length x ∨ x ∈ u.touched := by
  induction source generalizing a u with
  | nil => simp [rawPut, InSpan]
  | cons b source ih =>
    simp only [rawPut, ih, store, List.mem_cons, List.length_cons, inSpan_succ]
    tauto

theorem rawGets_touched (n : Nat) (a : Uaddr) (u : Space) (x : Uaddr)
    (h : x ∈ (rawGets n a u).2.touched) : InSpan a n x ∨ x ∈ u.touched := by
  induction n generalizing a u with
  | zero => exact Or.inr h
  | succ n ih =>
    rw [inSpan_succ]
    by_cases nul : u.mem a = 0
    · have hx : x = a ∨ x ∈ u.touched := by simpa [rawGets, load, nul] using h
      tauto
    · have later := ih (a + 1) (load u a).2 (by simpa [rawGets, load, nul] using h)
      simp only [load, List.mem_cons] at later
      tauto

theorem rawGets_touches_first (n : Nat) (a : Uaddr) (u : Space) :
    a ∈ (rawGets (n + 1) a u).2.touched := by
  have kept : ∀ n (b : Uaddr) (v : Space), a ∈ v.touched →
      a ∈ (rawGets n b v).2.touched := by
    intro n
    induction n with
    | zero => exact fun _ _ h => h
    | succ n ih =>
      intro b v h
      have inner : a ∈ (load v b).2.touched := List.mem_cons_of_mem _ h
      by_cases nul : v.mem b = 0
      · simpa [rawGets, load, nul] using inner
      · simpa [rawGets, load, nul] using ih (b + 1) _ inner
  have first : a ∈ (load u a).2.touched := List.mem_cons_self
  by_cases nul : u.mem a = 0
  · simp [rawGets, load, nul]
  · simpa [rawGets, load, nul] using kept n (a + 1) _ first

/-! ## Exactly when a call is confined -/

section Confined
variable {u : Space} {user count : Uaddr}

theorem fits_of_zero (h : (valaddr u user count).1 = 0) : Fits u user count := by
  rcases valaddr_zero h with refused | empty | top
  · exact Or.inl refused
  · exact Or.inr (Or.inl empty)
  · exact Or.inr (Or.inr (Or.inl top))

theorem span_inside (low : u.progbase ≤ user) {n : Nat}
    (room : user.toNat + n ≤ u.uTop.toNat) {x : Uaddr} (h : InSpan user n x) :
    Inside u x := by
  obtain ⟨i, hi, rfl⟩ := h
  have := u.uTop.isLt
  constructor <;> bv_omega

/-- A copy of all `count` bytes stays inside exactly when they fit. -/
theorem span_confined_iff (accepted : (valaddr u user count).1 ≠ 0) :
    (∀ x, InSpan user count.toNat x → Inside u x) ↔ Fits u user count := by
  have refused : ¬ Refused u user count := fun h => accepted (valaddr_refused h)
  obtain ⟨low, small⟩ := not_refused_bounds refused
  constructor
  · intro h
    by_contra bad
    simp only [Fits, not_or, BitVec.not_le] at bad
    obtain ⟨_, nonempty, atTop, past⟩ := bad
    by_cases above : u.uTop < user
    · have first := (h user ⟨0, by bv_omega, by bv_omega⟩).2
      bv_omega
    · -- the byte at the top itself is copied
      have last := (h u.uTop ⟨u.uTop.toNat - user.toNat, by bv_omega, by bv_omega⟩).2
      bv_omega
  · rintro (bad | empty | top | room) x hx
    · exact absurd bad refused
    · obtain ⟨i, hi, _⟩ := hx
      subst empty
      simp at hi
    · subst top
      by_cases past : u.uTop < u.uTop + count
      · exact absurd (by simp [valaddr_trimmed refused past]) accepted
      · obtain ⟨i, hi, _⟩ := hx
        bv_omega
    · exact span_inside low (by bv_omega) hx

theorem gets_confined_iff (accepted : (valaddr u user count).1 ≠ 0)
    (fresh : u.touched = []) :
    (∀ x ∈ (rawGets (valaddr u user count).1.toNat user
        (valaddr u user count).2).2.touched, Inside u x) ↔
      StartsBelow u user count := by
  constructor
  · intro h
    by_contra bad
    simp only [StartsBelow, not_or, BitVec.not_le] at bad
    have positive : 0 < (valaddr u user count).1.toNat := by bv_omega
    obtain ⟨n, hn⟩ := Nat.exists_eq_succ_of_ne_zero (Nat.ne_of_gt positive)
    rw [hn] at h
    have first := (h user (rawGets_touches_first n user _)).2
    bv_omega
  · intro h x hx
    have inside := (valaddr_confined_iff.mpr h) accepted
    rcases rawGets_touched _ _ _ _ hx with span | old
    · exact span_inside inside.1 inside.2 span
    · simp [fresh] at old

end Confined

/-- Whichever helper does the copying, all `count` bytes are touched. -/
theorem copy_confined_iff {u : Space} {user count : Uaddr} {t : List Uaddr}
    (turnedDown : (valaddr u user count).1 = 0 → t = [])
    (copied : (valaddr u user count).1 ≠ 0 →
      ∀ x, x ∈ t ↔ InSpan user count.toNat x) :
    (∀ x ∈ t, Inside u x) ↔ Fits u user count := by
  by_cases zero : (valaddr u user count).1 = 0
  · simp [turnedDown zero, fits_of_zero zero]
  · rw [← span_confined_iff zero]
    exact forall_congr' fun x => by rw [copied zero x]

theorem uget_confined_iff {u : Space} (fresh : u.touched = []) (user count : Uaddr) :
    (∀ x ∈ (uget u user count).2.touched, Inside u x) ↔ Fits u user count := by
  apply copy_confined_iff
  · intro zero
    simp only [uget, if_pos zero, valaddr_touched, fresh]
  · intro accepted x
    simp only [uget, if_neg accepted, rawGet_touched, valaddr_touched, fresh]
    simp

theorem uput_confined_iff {u : Space} (fresh : u.touched = [])
    (source : Nat → UInt8) (user count : Uaddr) :
    (∀ x ∈ (uput u source user count).2.touched, Inside u x) ↔ Fits u user count := by
  apply copy_confined_iff
  · intro zero
    simp only [uput, if_pos zero, valaddr_touched, fresh]
  · intro accepted x
    simp only [uput, if_neg accepted, rawPut_touched, valaddr_touched, fresh]
    simp

theorem uzero_confined_iff {u : Space} (fresh : u.touched = []) (user count : Uaddr) :
    (∀ x ∈ (uzero u user count).2.touched, Inside u x) ↔ Fits u user count := by
  apply copy_confined_iff
  · intro zero
    simp only [uzero, if_pos zero, valaddr_touched, fresh]
  · intro accepted x
    simp only [uzero, if_neg accepted, rawZero, rawPut_touched, valaddr_touched, fresh]
    simp

theorem ugetw_confined_iff {u : Space} (fresh : u.touched = []) (user : Uaddr) :
    (∀ x ∈ (ugetw u user).2.touched, Inside u x) ↔ Fits u user 2 := by
  apply copy_confined_iff
  · intro zero
    simp only [ugetw, if_pos zero, valaddr_touched, fresh]
  · intro accepted x
    simp only [ugetw, if_neg accepted, rawGet_touched, valaddr_touched, fresh]
    simp

theorem uputw_confined_iff {u : Space} (fresh : u.touched = []) (value : UInt16)
    (user : Uaddr) :
    (∀ x ∈ (uputw u value user).2.touched, Inside u x) ↔ Fits u user 2 := by
  apply copy_confined_iff
  · intro zero
    simp only [uputw, if_pos zero, valaddr_touched, fresh]
  · intro accepted x
    simp only [uputw, if_neg accepted, rawPut_touched, valaddr_touched, fresh]
    simp

theorem ugets_confined_iff {u : Space} (fresh : u.touched = []) (user maxlen : Uaddr) :
    (∀ x ∈ (ugets u user maxlen).2.touched, Inside u x) ↔
      StartsBelow u user maxlen := by
  by_cases zero : (valaddr u user maxlen).1 = 0
  · have below : StartsBelow u user maxlen :=
      valaddr_confined_iff.mp (fun h => absurd zero h)
    simp [ugets, zero, fresh, below]
  · rw [← gets_confined_iff zero fresh]
    -- setting `u_error` afterwards touches nothing
    have same : (ugets u user maxlen).2.touched =
        (rawGets (valaddr u user maxlen).1.toNat user
          (valaddr u user maxlen).2).2.touched := by
      simp only [ugets, if_neg zero]
      split <;> rfl
    rw [same]

theorem confined_of_copy {u : Space} {c : Call}
    (copy : ∀ base size, c ≠ .valaddr base size) :
    c.Confined u ↔ ∀ a ∈ c.touches u, Inside u a :=
  ⟨fun h => h.2, fun h => ⟨fun base size eq => absurd eq (copy base size), h⟩⟩

/-- The calls confined to `[progbase, uTop)` are exactly the safe ones. -/
theorem confined_iff_safe (u : Space) (c : Call) : c.Confined u ↔ c.Safe u := by
  let v : Space := { u with touched := [] }
  have fresh : v.touched = [] := rfl
  cases c with
  | valaddr base size =>
    have quiet : (Call.valaddr base size).touches u = [] := valaddr_touched (u := v)
    have range := @valaddr_confined_iff u base size
    simpa [Call.Confined, Call.Safe, quiet] using range
  | uget user count =>
    exact (confined_of_copy (by simp)).trans (uget_confined_iff fresh user count)
  | uput source user count =>
    exact (confined_of_copy (by simp)).trans (uput_confined_iff fresh source user count)
  | uzero user count =>
    exact (confined_of_copy (by simp)).trans (uzero_confined_iff fresh user count)
  | ugets user maxlen =>
    exact (confined_of_copy (by simp)).trans (ugets_confined_iff fresh user maxlen)
  | ugetw user =>
    exact (confined_of_copy (by simp)).trans (ugetw_confined_iff fresh user)
  | uputw value user =>
    exact (confined_of_copy (by simp)).trans (uputw_confined_iff fresh value user)

/-- A process with 56K of memory from 0x0100 on. -/
def smallProcess : Space :=
  ⟨0x0100, 0xE000, fun _ => 0, 0, []⟩

/-- A base above the top is trimmed to a wrapped length, and a range across
the top is copied whole. -/
theorem not_always_confined :
    ¬ (∀ u c, Call.Confined u c) ∧
      (valaddr smallProcess 0xF000 0x10).1 = 0xF000 ∧
      0xE000 ∈ (Call.uget 0xDFFF 2).touches smallProcess := by
  refine ⟨fun all => ?_, by decide, by decide⟩
  have range := (all smallProcess (.valaddr 0xF000 0x10)).1 _ _ rfl (by decide)
  exact absurd range.2 (by decide)

end Usermem
