import Fuzix.Lib.Memory
import Fuzix.Lib.Run
import Fuzix.Usermem

/-!
# Resource limits

`_getrlimit` and `_setrlimit` of syscall_level2.c on a machine with banked memory, the
kind that is built with `CONFIG_LEVEL_2`. Kernel and process have memories of their own
up to `common`; from there on both see the same, and the user data of the kernel, with
`u_rlimit`, is there.
-/

namespace Rlimit

open Memory Run Usermem

def NRLIMIT : Nat := 9
def EPERM : Nat := 1
def EINVAL : Nat := 22

def Valid (res : BitVec 16) : Prop := ¬ (res.toInt < 0 ∨ NRLIMIT ≤ res.toInt)

theorem valid_small {res : BitVec 16} (valid : Valid res) : res.toNat < NRLIMIT := by
  unfold Valid at valid
  have word := BitVec.toInt_eq_toNat_cond res
  have bound := res.isLt
  unfold NRLIMIT at *
  split at word <;> omega

class Platform where
  PROGBASE : Uaddr
  common : Uaddr
  u_rlimit : Uaddr
  below : PROGBASE ≤ common
  shared : common ≤ u_rlimit
  room : u_rlimit.toNat + 72 < 65536

export Platform (PROGBASE common u_rlimit)

structure Machine [Platform] where
  /-- The memory of the kernel, with the common part. -/
  bank : Bytes 16
  proc : Bytes 16
  u_top : Uaddr
  u_euid : BitVec 16
  u_error : Nat
  below : u_top < common

section
variable [Platform]

/-- What the process sees. -/
def Machine.view (m : Machine) : Bytes 16 := fun a => if a < common then m.proc a else m.bank a

def Machine.store (m : Machine) (a : Uaddr) (b : UInt8) : Machine :=
  if a < common then { m with proc := fun x => if x = a then b else m.proc x }
  else { m with bank := fun x => if x = a then b else m.bank x }

def Machine.space (m : Machine) : Space := ⟨PROGBASE, m.u_top, m.view, m.u_error, []⟩

def Machine.valaddr (m : Machine) (base size : Uaddr) : Uaddr := (Usermem.valaddr m.space base size).1

def Machine.fail (m : Machine) (error : Nat) : BitVec 16 × Machine := (-1, { m with u_error := error })

/-- `_uput`: each byte is read in the bank of the kernel and written in that of the
process. -/
def Machine.copyout : Nat → Uaddr → Uaddr → Machine → Machine
  | 0, _, _, m => m
  | n + 1, source, user, m => copyout n (source + 1) (user + 1) (m.store user (m.bank source))

def Machine.uput (m : Machine) (source user count : Uaddr) : BitVec 16 × Machine :=
  if m.valaddr user count = 0 then m.fail EFAULT else (0, m.copyout count.toNat source user)

/-- `udata.u_rlimit + res` -/
def slot (res : Nat) : Uaddr := u_rlimit + BitVec.ofNat 16 (8 * res)

def Machine.getrlimit (m : Machine) (res rlim : BitVec 16) : BitVec 16 × Machine :=
  if res.toInt < 0 ∨ NRLIMIT ≤ res.toInt then m.fail EINVAL
  else m.uput rlim (slot res.toNat) 8

/-- The two numbers of a `struct rlimit`. -/
def rlim_cur (r : List UInt8) : Nat := value (r.take 4)

def rlim_max (r : List UInt8) : Nat := value (r.drop 4)

def Machine.rlimit (m : Machine) (res : Nat) : List UInt8 := get m.bank (slot res) 8

/-- `_setrlimit` from the comparison on. -/
def Machine.limit (m : Machine) (res : Nat) (r : List UInt8) : BitVec 16 × Machine :=
  let o := m.rlimit res
  if rlim_max r < rlim_cur r then m.fail EINVAL
  else if (rlim_max o < rlim_cur r ∨ rlim_max o < rlim_max r) ∧ m.u_euid ≠ 0 then m.fail EPERM
  else (0, { m with bank := put m.bank (slot res) r })

def Machine.setrlimit (m : Machine) (res rlim : BitVec 16) : BitVec 16 × Machine :=
  if res.toInt < 0 ∨ NRLIMIT ≤ res.toInt then m.fail EINVAL
  else if m.valaddr rlim 8 = 0 then m.fail EFAULT
  else m.limit res.toNat (get m.view rlim 8)

/-! ## Calls in turn -/

/-- Between its calls the process stores bytes in its memory. -/
inductive Call where
  | store (a : Uaddr) (b : UInt8)
  | setrlimit (euid res rlim : BitVec 16)
  | getrlimit (res rlim : BitVec 16)

/-- The machine, and the values that were last accepted for each resource. -/
structure World where
  machine : Machine
  accepted : Nat → List UInt8

def World.call (w : World) : Call → BitVec 16 × Machine
  | Call.store a b => (0, if a < w.machine.u_top then w.machine.store a b else w.machine)
  | Call.setrlimit euid res rlim => { w.machine with u_euid := euid }.setrlimit res rlim
  | Call.getrlimit res rlim => w.machine.getrlimit res rlim

def World.record (w : World) (result : BitVec 16) : Call → Nat → List UInt8
  | Call.setrlimit _ res rlim => fun r =>
    if result = 0 ∧ r = res.toNat then get w.machine.view rlim 8 else w.accepted r
  | _ => w.accepted

def World.step (w : World) (c : Call) : World := ⟨(w.call c).2, w.record (w.call c).1 c⟩

/-- All limits are zero at first. -/
def boot (m : Machine) : World :=
  ⟨{ m with bank := fun a => if Span u_rlimit 72 a then 0 else m.bank a }, fun _ => List.replicate 8 0⟩

def Call.privileged : Call → Prop
  | Call.setrlimit euid _ _ => euid = 0
  | _ => False

/-- The structure lies in the memory of the process. -/
def Inside (m : Machine) (rlim : Uaddr) : Prop :=
  rlim ≠ 0 ∧ PROGBASE ≤ rlim ∧ rlim.toNat + 8 ≤ m.u_top.toNat

/-- `getrlimit` stores the accepted values at the address and nothing else, or fails. -/
structure Answered (w : World) (res rlim : BitVec 16) : Prop where
  kernel : (w.machine.getrlimit res rlim).2.bank = w.machine.bank
  others : ∀ x, ¬ Span rlim 8 x → (w.machine.getrlimit res rlim).2.proc x = w.machine.proc x
  values : Valid res ∧ Inside w.machine rlim → (w.machine.getrlimit res rlim).1 = 0 ∧
    get (w.machine.getrlimit res rlim).2.proc rlim 8 = w.accepted res.toNat
  fails : ¬ (Valid res ∧ Inside w.machine rlim) → (w.machine.getrlimit res rlim).1 = -1 ∧
    (w.machine.getrlimit res rlim).2.proc = w.machine.proc

structure Right (w : World) (c : Call) : Prop where
  kept : ∀ r < NRLIMIT, (w.step c).machine.rlimit r = (w.step c).accepted r
  soft : ∀ r < NRLIMIT, rlim_cur ((w.step c).machine.rlimit r) ≤ rlim_max ((w.step c).machine.rlimit r)
  hard : ¬ c.privileged → ∀ r < NRLIMIT,
    rlim_max ((w.step c).machine.rlimit r) ≤ rlim_max (w.machine.rlimit r)
  answered : ∀ res rlim, c = Call.getrlimit res rlim → Answered w res rlim

/-- The copy the wrong way round changes nothing, and leaves what it should. -/
def Clean (w : World) (c : Call) : Prop :=
  ∀ res rlim, c = Call.getrlimit res rlim → Valid res → Inside w.machine rlim ∧
    get w.machine.proc rlim 8 = w.accepted res.toNat ∧
    get w.machine.bank rlim 8 = w.accepted res.toNat

/-! ## The place of the limits -/

theorem slot_toNat {r : Nat} (small : r < NRLIMIT) : (slot r).toNat = u_rlimit.toNat + 8 * r := by
  have room := Platform.room
  unfold NRLIMIT at small
  rw [slot, BitVec.toNat_add, BitVec.toNat_ofNat]
  omega

theorem slots_apart {r r' : Nat} {x : Uaddr} (small : r < NRLIMIT) (small' : r' < NRLIMIT)
    (other : r' ≠ r) (inside : Span (slot r') 8 x) : ¬ Span (slot r) 8 x := by
  have room := Platform.room
  have place := slot_toNat small
  have place' := slot_toNat small'
  unfold NRLIMIT at small small'
  unfold Span at *
  rw [BitVec.toNat_sub] at *
  have bound := x.isLt
  omega

/-- The limits are behind the memory of the process. -/
theorem slot_common {m : Machine} {r : Nat} {x : Uaddr} (small : r < NRLIMIT) (inside : Span (slot r) 8 x) :
    ¬ x < common ∧ m.u_top < x := by
  have room := Platform.room
  have shared := BitVec.le_def.mp Platform.shared
  have below := BitVec.lt_def.mp m.below
  have place := slot_toNat small
  unfold NRLIMIT at small
  unfold Span at inside
  rw [BitVec.toNat_sub] at inside
  have bound := x.isLt
  constructor
  · rw [BitVec.lt_def]
    omega
  · rw [BitVec.lt_def]
    omega

theorem view_inside {m : Machine} {rlim : Uaddr} (inside : Inside m rlim) {x : Uaddr} (here : Span rlim 8 x) :
    x < common ∧ m.view x = m.proc x := by
  have below := BitVec.lt_def.mp m.below
  have upper := inside.2.2
  unfold Span at here
  rw [BitVec.toNat_sub] at here
  have bound := x.isLt
  have low : x < common := by
    rw [BitVec.lt_def]
    omega
  exact ⟨low, if_pos low⟩

/-! ## What `setrlimit` does -/

/-- Nothing is changed but the error, or the values that were read are stored. -/
theorem limit_cases (m : Machine) (res : Nat) (r : List UInt8) :
    (m.limit res r).1 = -1 ∧ (m.limit res r).2.bank = m.bank ∧ (m.limit res r).2.proc = m.proc ∨
    (m.limit res r).1 = 0 ∧ (m.limit res r).2.bank = put m.bank (slot res) r ∧
      (m.limit res r).2.proc = m.proc ∧ rlim_cur r ≤ rlim_max r ∧
      (m.u_euid ≠ 0 → rlim_max r ≤ rlim_max (m.rlimit res)) := by
  unfold Machine.limit
  by_cases crossed : rlim_max r < rlim_cur r
  · left
    rw [if_pos crossed]
    exact ⟨rfl, rfl, rfl⟩
  · by_cases raised : (rlim_max (m.rlimit res) < rlim_cur r ∨ rlim_max (m.rlimit res) < rlim_max r) ∧
      m.u_euid ≠ 0
    · left
      rw [if_neg crossed, if_pos raised]
      exact ⟨rfl, rfl, rfl⟩
    · right
      rw [if_neg crossed, if_neg raised]
      refine ⟨rfl, rfl, rfl, by omega, ?_⟩
      intro user
      by_contra above
      exact raised ⟨Or.inr (by omega), user⟩

theorem setrlimit_cases (m : Machine) (res rlim : BitVec 16) :
    (m.setrlimit res rlim).1 = -1 ∧ (m.setrlimit res rlim).2.bank = m.bank ∧
      (m.setrlimit res rlim).2.proc = m.proc ∨
    Valid res ∧ (m.setrlimit res rlim).1 = 0 ∧
      (m.setrlimit res rlim).2.bank = put m.bank (slot res.toNat) (get m.view rlim 8) ∧
      (m.setrlimit res rlim).2.proc = m.proc ∧
      rlim_cur (get m.view rlim 8) ≤ rlim_max (get m.view rlim 8) ∧
      (m.u_euid ≠ 0 → rlim_max (get m.view rlim 8) ≤ rlim_max (m.rlimit res.toNat)) := by
  unfold Machine.setrlimit
  by_cases invalid : res.toInt < 0 ∨ NRLIMIT ≤ res.toInt
  · left
    rw [if_pos invalid]
    exact ⟨rfl, rfl, rfl⟩
  · rw [if_neg invalid]
    by_cases refused : m.valaddr rlim 8 = 0
    · left
      rw [if_pos refused]
      exact ⟨rfl, rfl, rfl⟩
    · rw [if_neg refused]
      rcases limit_cases m res.toNat (get m.view rlim 8) with fails | sets
      · exact Or.inl fails
      · exact Or.inr ⟨invalid, sets⟩

/-! ## What `getrlimit` does -/

theorem store_common (m : Machine) {a : Uaddr} (b : UInt8) (shared : ¬ a < common) :
    m.store a b = { m with bank := put m.bank a [b] } := if_neg shared

theorem copyout_common (n : Nat) (fits : n ≤ 65536) (m : Machine) (source user : Uaddr)
    (shared : ∀ x, Span user n x → ¬ x < common ∧ ¬ Span source n x) :
    m.copyout n source user = { m with bank := put m.bank user (get m.bank source n) } := by
  induction n generalizing m source user with
  | zero => rfl
  | succ n ih =>
    have first := shared user (Span.first (Nat.succ_pos n))
    have rest : ∀ x, Span (user + 1) n x → ¬ x < common ∧ ¬ Span (source + 1) n x := by
      intro x inside
      have far := shared x (span_succ.mpr (Or.inr inside))
      exact ⟨far.1, fun near => far.2 (span_succ.mpr (Or.inr near))⟩
    have same : get (put m.bank user [m.bank source]) (source + 1) n = get m.bank (source + 1) n := by
      apply get_congr (by omega)
      intro x inside
      have other : x ≠ user := by
        intro here
        rw [here] at inside
        exact first.2 (span_succ.mpr (Or.inr inside))
      exact if_neg other
    unfold Machine.copyout
    rw [store_common m _ first.1, ih (by omega) _ _ _ rest, same]
    rfl

theorem slot_accepted (m : Machine) {r : Nat} (small : r < NRLIMIT) : m.valaddr (slot r) 8 ≠ 0 := by
  have room := Platform.room
  have low := BitVec.le_def.mp Platform.below
  have shared := BitVec.le_def.mp Platform.shared
  have below := BitVec.lt_def.mp m.below
  have place := slot_toNat small
  unfold NRLIMIT at small
  have eight : (8 : Uaddr).toNat = 8 := rfl
  have next : (slot r + 8).toNat = (slot r).toNat + 8 := by
    rw [BitVec.toNat_add, eight]
    omega
  have fine : ¬ Refused m.space (slot r) 8 := by
    rintro (null | early | wrapped)
    · have zero : (slot r).toNat = 0 := congrArg BitVec.toNat null
      omega
    · have early := BitVec.lt_def.mp early
      have base : m.space.progbase.toNat = (PROGBASE).toNat := rfl
      omega
    · have wrapped := BitVec.lt_def.mp wrapped
      omega
  have past : m.space.uTop < slot r + 8 := by
    have top : m.space.uTop.toNat = m.u_top.toNat := rfl
    rw [BitVec.lt_def]
    omega
  rw [Machine.valaddr, valaddr_trimmed fine past]
  intro none
  have top : m.space.uTop = slot r := by
    have back := BitVec.sub_add_cancel m.space.uTop (slot r)
    rw [none] at back
    exact back.symm.trans (BitVec.zero_add _)
  have same := congrArg BitVec.toNat top
  have here : m.space.uTop.toNat = m.u_top.toNat := rfl
  omega

theorem getrlimit_invalid {m : Machine} {res : BitVec 16} (rlim : BitVec 16) (invalid : ¬ Valid res) :
    m.getrlimit res rlim = m.fail EINVAL := if_pos (not_not.mp invalid)

/-- For a resource that exists, the call says that it went well. -/
theorem getrlimit_valid {m : Machine} {res : BitVec 16} (rlim : BitVec 16) (valid : Valid res) :
    m.getrlimit res rlim = (0, m.copyout 8 rlim (slot res.toNat)) := by
  have accepted := slot_accepted m (valid_small valid)
  unfold Machine.getrlimit Machine.uput
  rw [if_neg valid, if_neg accepted]
  rfl

/-- It overwrites the limits with what the kernel has at the address. -/
theorem getrlimit_overwrites {m : Machine} {res rlim : BitVec 16} (valid : Valid res)
    (inside : Inside m rlim) :
    m.getrlimit res rlim =
      (0, { m with bank := put m.bank (slot res.toNat) (get m.bank rlim 8) }) := by
  rw [getrlimit_valid rlim valid, copyout_common 8 (by omega)]
  intro x here
  have far := slot_common (m := m) (valid_small valid) here
  exact ⟨far.1, fun near => far.1 (view_inside inside near).1⟩

theorem answered_iff {w : World} {res rlim : BitVec 16}
    (kept : ∀ r < NRLIMIT, w.machine.rlimit r = w.accepted r) :
    Answered w res rlim ↔ (Valid res → Inside w.machine rlim ∧
      get w.machine.proc rlim 8 = w.accepted res.toNat ∧
      get w.machine.bank rlim 8 = w.accepted res.toNat) := by
  by_cases valid : Valid res
  · have here := kept res.toNat (valid_small valid)
    constructor
    · intro answered _
      by_cases inside : Inside w.machine rlim
      · have kernel := answered.kernel
        have values := (answered.values ⟨valid, inside⟩).2
        rw [getrlimit_overwrites valid inside] at kernel values
        change put w.machine.bank (slot res.toNat) (get w.machine.bank rlim 8) = w.machine.bank at kernel
        refine ⟨inside, values, ?_⟩
        have stored : get (put w.machine.bank (slot res.toNat) (get w.machine.bank rlim 8)) (slot res.toNat)
            (get w.machine.bank rlim 8).length = get w.machine.bank rlim 8 :=
          get_put (by rw [get_length]; decide)
        rw [get_length, kernel] at stored
        exact stored.symm.trans here
      · have failed := (answered.fails (fun both => inside both.2)).1
        rw [getrlimit_valid rlim valid] at failed
        have wrong : (0 : BitVec 16) = -1 := failed
        exact absurd wrong (by decide)
    · intro clean
      obtain ⟨inside, values, same⟩ := clean valid
      have nothing : put w.machine.bank (slot res.toNat) (get w.machine.bank rlim 8) = w.machine.bank := by
        rw [same, ← here]
        exact put_get _ _ 8
      have quiet : w.machine.getrlimit res rlim = (0, w.machine) := by
        rw [getrlimit_overwrites valid inside, nothing]
      constructor
      · rw [quiet]
      · intro x _
        rw [quiet]
      · intro _
        rw [quiet]
        exact ⟨rfl, values⟩
      · intro wrong
        exact absurd ⟨valid, inside⟩ wrong
  · have failed := getrlimit_invalid (m := w.machine) rlim valid
    constructor
    · intro _ wrong
      exact absurd wrong valid
    · intro _
      constructor
      · rw [failed]
        rfl
      · intro x _
        rw [failed]
        rfl
      · intro both
        exact absurd both.1 valid
      · intro _
        rw [failed]
        exact ⟨rfl, rfl⟩

/-! ## Runs -/

structure Inv (w : World) : Prop where
  kept : ∀ r < NRLIMIT, w.machine.rlimit r = w.accepted r
  soft : ∀ r < NRLIMIT, rlim_cur (w.machine.rlimit r) ≤ rlim_max (w.machine.rlimit r)

/-- The limits are the bytes of the kernel behind `u_rlimit`. -/
theorem rlimit_same {m m' : Machine} (same : m'.bank = m.bank) (r : Nat) : m'.rlimit r = m.rlimit r := by
  unfold Machine.rlimit
  rw [same]

theorem rlimit_put {m m' : Machine} {res : Nat} {bs : List UInt8} (small : res < NRLIMIT)
    (length : bs.length = 8) (stored : m'.bank = put m.bank (slot res) bs) {r : Nat} (here : r < NRLIMIT) :
    m'.rlimit r = if r = res then bs else m.rlimit r := by
  unfold Machine.rlimit
  rw [stored]
  by_cases own : r = res
  · rw [if_pos own, own, ← length]
    exact get_put (by omega)
  · rw [if_neg own]
    apply get_congr (by omega)
    intro x inside
    apply put_outside (by omega)
    rw [length]
    exact slots_apart small here own inside

/-- A call that leaves the memory of the kernel alone, and is not recorded. -/
theorem quiet_right {w : World} {c : Call} (inv : Inv w) (bank : (w.step c).machine.bank = w.machine.bank)
    (history : ∀ r < NRLIMIT, (w.step c).accepted r = w.accepted r)
    (answered : ∀ res rlim, c = Call.getrlimit res rlim → Answered w res rlim) : Right w c := by
  constructor
  · intro r small
    rw [rlimit_same bank, history r small]
    exact inv.kept r small
  · intro r small
    rw [rlimit_same bank]
    exact inv.soft r small
  · intro _ r _
    exact Nat.le_of_eq (congrArg rlim_max (rlimit_same bank r))
  · exact answered

theorem store_right {w : World} (a : Uaddr) (b : UInt8) (inv : Inv w) : Right w (Call.store a b) := by
  have bank : (w.step (Call.store a b)).machine.bank = w.machine.bank := by
    show (if a < w.machine.u_top then w.machine.store a b else w.machine).bank = w.machine.bank
    by_cases low : a < w.machine.u_top
    · have own : a < common := by
        have below := BitVec.lt_def.mp w.machine.below
        have low := BitVec.lt_def.mp low
        rw [BitVec.lt_def]
        omega
      rw [if_pos low, Machine.store, if_pos own]
    · rw [if_neg low]
  apply quiet_right inv bank (fun _ _ => rfl)
  intro _ _ other
  cases other

theorem setrlimit_right {w : World} (euid res rlim : BitVec 16) (inv : Inv w) :
    Right w (Call.setrlimit euid res rlim) := by
  let m : Machine := { w.machine with u_euid := euid }
  have after : (w.step (Call.setrlimit euid res rlim)).machine = (m.setrlimit res rlim).2 := rfl
  have history : (w.step (Call.setrlimit euid res rlim)).accepted = fun r =>
      if (m.setrlimit res rlim).1 = 0 ∧ r = res.toNat then get w.machine.view rlim 8 else w.accepted r := rfl
  rcases setrlimit_cases m res rlim with ⟨failed, bank, _⟩ | ⟨valid, accepted, bank, _, ordered, user⟩
  · have refused : ¬ (m.setrlimit res rlim).1 = 0 := by
      rw [failed]
      decide
    apply quiet_right (c := Call.setrlimit euid res rlim) inv bank
    · intro r _
      rw [history]
      exact if_neg (fun both => refused both.1)
    · intro _ _ other
      cases other
  · have stored {r : Nat} (small : r < NRLIMIT) := rlimit_put (m := w.machine) (valid_small valid)
      (get_length _ _ 8) bank small
    rw [← after] at stored
    constructor
    · intro r small
      rw [stored small, history]
      simp only [accepted, true_and]
      split
      · rfl
      · exact inv.kept r small
    · intro r small
      rw [stored small]
      split
      · exact ordered
      · exact inv.soft r small
    · intro unprivileged r small
      rw [stored small]
      split
      · rename_i own
        rw [own]
        exact user unprivileged
      · exact Nat.le_refl _
    · intro _ _ other
      cases other

theorem getrlimit_iff {w : World} (res rlim : BitVec 16) (inv : Inv w) :
    Right w (Call.getrlimit res rlim) ↔ Clean w (Call.getrlimit res rlim) := by
  constructor
  · rintro right _ _ ⟨⟩ valid
    exact (answered_iff inv.kept).mp (right.answered res rlim rfl) valid
  · intro clean
    have answered := (answered_iff inv.kept).mpr (clean res rlim rfl)
    apply quiet_right (c := Call.getrlimit res rlim) inv answered.kernel (fun _ _ => rfl)
    rintro _ _ ⟨⟩
    exact answered

theorem right_iff {w : World} (c : Call) (inv : Inv w) : Right w c ↔ Clean w c := by
  cases c with
  | store a b =>
    constructor
    · rintro _ _ _ ⟨⟩
    · intro _
      exact store_right a b inv
  | setrlimit euid res rlim =>
    constructor
    · rintro _ _ _ ⟨⟩
    · intro _
      exact setrlimit_right euid res rlim inv
  | getrlimit res rlim => exact getrlimit_iff res rlim inv

theorem boot_inv (m : Machine) : Inv (boot m) := by
  have zero (r : Nat) (small : r < NRLIMIT) : (boot m).machine.rlimit r = List.replicate 8 0 := by
    have room := Platform.room
    have place := slot_toNat small
    apply get_replicate (by omega)
    intro x inside
    have within : Span u_rlimit 72 x := by
      unfold NRLIMIT at small
      unfold Span at *
      rw [BitVec.toNat_sub] at *
      have bound := x.isLt
      omega
    exact if_pos within
  constructor
  · intro r small
    exact zero r small
  · intro r small
    rw [zero r small]
    decide

/-- Calls that are all right keep what every call keeps, and let no hard limit rise
without privilege. -/
theorem clean_inv {w : World} {c : Call} (inv : Inv w) (clean : Clean w c) : Inv (w.step c) := by
  have right := (right_iff c inv).mpr clean
  exact ⟨right.kept, right.soft⟩

theorem hard_falls {calls : List Call} {w : World} (clean : Throughout World.step Clean w calls)
    (inv : Inv w) (unprivileged : ∀ c ∈ calls, ¬ c.privileged) (r : Nat) (small : r < NRLIMIT) :
    rlim_max ((calls.foldl World.step w).machine.rlimit r) ≤ rlim_max (w.machine.rlimit r) := by
  induction calls generalizing w with
  | nil => exact Nat.le_refl _
  | cons c calls ih =>
    have right := (right_iff c inv).mpr clean.1
    have later := ih clean.2 (clean_inv inv clean.1)
      (fun d listed => unprivileged d (List.mem_cons_of_mem c listed))
    have now := right.hard (unprivileged c List.mem_cons_self) r small
    exact Nat.le_trans later now

/-- From the start, the calls do what they should as long as no `getrlimit` for a resource
that exists has anything to copy, and not beyond. Then no hard limit rises over calls
without privilege. -/
theorem limits_round_trip (m : Machine) :
    (∀ calls, Throughout World.step Right (boot m) calls ↔ Throughout World.step Clean (boot m) calls) ∧
    ∀ first later, Throughout World.step Clean (boot m) (first ++ later) →
      (∀ c ∈ later, ¬ c.privileged) → ∀ r < NRLIMIT,
        rlim_max (((first ++ later).foldl World.step (boot m)).machine.rlimit r) ≤
          rlim_max ((first.foldl World.step (boot m)).machine.rlimit r) := by
  constructor
  · intro calls
    exact throughout_iff (f := World.step) (I := Inv) (fun _ _ inv clean => clean_inv inv clean)
      (fun _ c inv => right_iff c inv) (boot_inv m) calls
  · intro first later clean unprivileged r small
    obtain ⟨early, late⟩ := (throughout_append later).mp clean
    have inv := early.keeps (I := Inv) (fun _ _ inv clean => clean_inv inv clean) (boot_inv m)
    rw [List.foldl_append]
    exact hard_falls late inv unprivileged r small

end

/-! ## A call that overwrites the limit -/

/-- The addresses of platform-z80pack. -/
@[reducible] def z80pack : Platform where
  PROGBASE := 0
  common := 0xF000
  u_rlimit := 0xF100
  below := by decide
  shared := by decide
  room := by decide

/-- A kernel with ones at the address that the process passes. -/
def ones : @Machine z80pack :=
  letI := z80pack
  ⟨fun _ => 1, fun _ => 0, 0xED00, 0, 0, by decide⟩

/-- The limit of files becomes what the kernel has at the address, the structure stays
as it was. -/
theorem getrlimit_writes_kernel :
    letI := z80pack
    ¬ Throughout World.step Right (boot ones) [Call.getrlimit 5 0x300] ∧
      ((boot ones).step (Call.getrlimit 5 0x300)).machine.rlimit 5 = List.replicate 8 1 := by
  let _ := z80pack
  constructor
  · intro right
    have kernel := (right.1.answered 5 0x300 rfl).kernel
    have byte := congrFun kernel (slot 5)
    exact absurd byte (by decide +kernel)
  · decide +kernel

end Rlimit
