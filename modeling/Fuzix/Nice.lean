import Fuzix.Lib.Table

/-!
# The nice value

`_nice` of syscall_other.c on the process table, with the bytes and words as the compiler
has them. Who is the superuser may change from call to call. A new process starts with a
nice value of 0 and a whole slice.
-/

namespace Nice

open Table

class Platform where
  MAXTICKS : BitVec 16
  /-- The slice of kernel.h, or the one of platform-coco2cart. -/
  slices : MAXTICKS = 10 ∨ MAXTICKS = 25

export Platform (MAXTICKS)

def EPERM : Nat := 1

structure Entry where
  p_nice : BitVec 8
  p_priority : BitVec 16

structure Udata where
  u_euid : BitVec 16
  u_error : Nat

/-- `super` the other way round: it sets the error if this is not the superuser. -/
def esuper (u : Udata) : Bool × Udata :=
  if u.u_euid ≠ 0 then (true, { u with u_error := EPERM }) else (false, u)

structure Outcome where
  result : BitVec 16
  entry : Entry
  udata : Udata

/-- The two tests on the sum in `_nice`. -/
def limit (np : BitVec 16) : BitVec 16 :=
  let np := if np.slt (-20) then -20 else np
  if (19 : BitVec 16).slt np then 19 else np

section
variable [Platform]

/-- The part of `_nice` behind its test. `p_nice` is an unsigned byte. -/
def renice (pri : BitVec 16) (p : Entry) (u : Udata) : Outcome :=
  let np := limit (p.p_nice.zeroExtend 16 + pri)
  ⟨20 + np, ⟨np.truncate 8, MAXTICKS - np.sshiftRight 2⟩, u⟩

def nice (pri : BitVec 16) (p : Entry) (u : Udata) : Outcome :=
  if pri.slt 0 then
    let (denied, u) := esuper u
    if !denied then ⟨-1, p, u⟩ else renice pri p u
  else renice pri p u

end

/-! ## Calls in turn -/

/-- A call of the process `p`, made with the effective user id it has at that time. -/
structure Call where
  p : Nat
  euid : BitVec 16
  pri : BitVec 16

abbrev Ptab := Nat → Entry

def Call.privileged (c : Call) : Prop := c.euid = 0

instance (c : Call) : Decidable c.privileged := by unfold Call.privileged; infer_instance

section
variable [Platform]

def Call.outcome (c : Call) (ptab : Ptab) : Outcome := nice c.pri (ptab c.p) ⟨c.euid, 0⟩

def call (ptab : Ptab) (c : Call) : Ptab := put ptab c.p (c.outcome ptab).entry

def boot : Ptab := fun _ => ⟨0, MAXTICKS⟩

def after (calls : List Call) : Ptab := calls.foldl call boot

/-- Each call of the list is `good` in the table it finds. -/
def Throughout (good : Ptab → Call → Prop) : Ptab → List Call → Prop
  | _, [] => True
  | ptab, c :: calls => good ptab c ∧ Throughout good (call ptab c) calls

end

def clamp (n : Int) : Int := max (-20) (min 19 n)

/-- The nice value as the signed byte that was stored. -/
def Entry.value (p : Entry) : Int := p.p_nice.toInt

/-- The value that the call is to leave: an unprivileged process may not lower it. -/
def target (old : Int) (c : Call) : Int :=
  if c.pri.toInt < 0 ∧ ¬ c.privileged then old else clamp (old + c.pri.toInt)

structure Right [Platform] (ptab : Ptab) (c : Call) : Prop where
  sums : (call ptab c c.p).value = target (ptab c.p).value c
  slice : 0 < (call ptab c c.p).p_priority.toInt
  others : ∀ q, q ≠ c.p → call ptab c q = ptab q

/-- A negative value is read back as 256 more, the sum wraps at 32767, and the test of
the superuser is the wrong way round. -/
def Clean (ptab : Ptab) (c : Call) : Prop :=
  let old := (ptab c.p).value
  let pri := c.pri.toInt
  if 0 ≤ pri then
    if 0 ≤ old then old + pri ≤ 32767 else 19 ≤ old + pri ∧ old + 256 + pri ≤ 32767
  else if c.privileged then old = -20
  else old < 0 ∧ pri ≤ -256 ∧ (pri = -256 ∨ old = -20)

/-! ## What a call stores -/

/-- The value of a signed word that the sum is stored in. -/
def word (n : Int) : Int := (n + 32768) % 65536 - 32768

theorem sum_word (b : BitVec 8) (pri : BitVec 16) :
    (b.zeroExtend 16 + pri).toInt = word (b.toNat + pri.toInt) := by
  have byte := b.isLt
  have above := BitVec.toInt_lt (x := pri)
  have below := BitVec.le_toInt pri
  rw [BitVec.toInt_add, BitVec.zeroExtend, BitVec.toInt_setWidth]
  simp only [Int.bmod_def, word]
  omega

/-- A byte read as an unsigned number. -/
theorem byte_unsigned (b : BitVec 8) :
    (b.toNat : Int) = if b.toInt < 0 then b.toInt + 256 else b.toInt := by
  have byte := b.isLt
  rw [BitVec.toInt_eq_toNat_cond]
  split <;> split <;> omega

theorem truncate_small (np : BitVec 16) (low : -20 ≤ np.toInt) (high : np.toInt ≤ 19) :
    (np.truncate 8).toInt = np.toInt := by
  rw [BitVec.truncate_eq_setWidth, BitVec.toInt_setWidth]
  rw [BitVec.toInt_eq_toNat_cond] at *
  simp only [Int.bmod_def]
  split at * <;> omega

theorem shift_quarter (np : BitVec 16) : (np.sshiftRight 2).toInt = np.toInt / 4 := by
  rw [BitVec.toInt_sshiftRight, Int.shiftRight_eq_div_pow]
  rfl

theorem slice_positive [Platform] (np : BitVec 16) (low : -20 ≤ np.toInt) (high : np.toInt ≤ 19) :
    0 < (MAXTICKS - np.sshiftRight 2).toInt := by
  have ticks : (MAXTICKS).toInt = 10 ∨ (MAXTICKS).toInt = 25 := by
    rcases Platform.slices with small | large
    · exact Or.inl (by rw [small]; rfl)
    · exact Or.inr (by rw [large]; rfl)
  rw [BitVec.toInt_sub, shift_quarter]
  simp only [Int.bmod_def]
  omega

theorem clamp_cases (n : Int) :
    n < -20 ∧ clamp n = -20 ∨ -20 ≤ n ∧ n ≤ 19 ∧ clamp n = n ∨ 19 < n ∧ clamp n = 19 := by
  unfold clamp
  simp only [Int.max_def, Int.min_def]
  split <;> split <;> omega

theorem clamp_low (n : Int) : -20 ≤ clamp n := by
  have := clamp_cases n
  omega

theorem clamp_high (n : Int) : clamp n ≤ 19 := by
  have := clamp_cases n
  omega

theorem limit_clamps (np : BitVec 16) : (limit np).toInt = clamp np.toInt := by
  have low : (-20 : BitVec 16).toInt = -20 := by decide
  have high : (19 : BitVec 16).toInt = 19 := by decide
  have cases := clamp_cases np.toInt
  unfold limit
  by_cases small : np.slt (-20) = true
  · have less := BitVec.slt_iff_toInt_lt.mp small
    have inside : ¬ (19 : BitVec 16).slt (-20) = true := by decide
    simp only [if_pos small, if_neg inside, low] at less ⊢
    omega
  · have above : ¬ np.toInt < -20 := fun less => small (BitVec.slt_iff_toInt_lt.mpr (low ▸ less))
    by_cases large : (19 : BitVec 16).slt np = true
    · have more := BitVec.slt_iff_toInt_lt.mp large
      simp only [if_neg small, if_pos large, high] at more ⊢
      omega
    · have below : ¬ 19 < np.toInt := fun less => large (BitVec.slt_iff_toInt_lt.mpr (high ▸ less))
      simp only [if_neg small, if_neg large]
      omega

theorem limit_low (np : BitVec 16) : -20 ≤ (limit np).toInt := by
  rw [limit_clamps]
  exact clamp_low _

theorem limit_high (np : BitVec 16) : (limit np).toInt ≤ 19 := by
  rw [limit_clamps]
  exact clamp_high _

section
variable [Platform]

theorem renice_value (pri : BitVec 16) (p : Entry) (u : Udata) :
    (renice pri p u).entry.value = clamp (word (p.p_nice.toNat + pri.toInt)) := by
  rw [← sum_word, ← limit_clamps]
  exact truncate_small _ (limit_low _) (limit_high _)

theorem renice_slice (pri : BitVec 16) (p : Entry) (u : Udata) :
    0 < (renice pri p u).entry.p_priority.toInt := by
  exact slice_positive _ (limit_low _) (limit_high _)

/-- The superuser is refused, and nobody else. -/
theorem nice_lowering {pri : BitVec 16} (lowering : pri.toInt < 0) (p : Entry) (u : Udata) :
    (nice pri p u).entry = if u.u_euid = 0 then p else (renice pri p u).entry := by
  have negative : pri.slt 0 = true := BitVec.slt_iff_toInt_lt.mpr lowering
  unfold nice
  rw [if_pos negative]
  by_cases root : u.u_euid = 0
  · rw [if_pos root, esuper, if_neg (not_not.mpr root)]
    rfl
  · rw [if_neg root, esuper, if_pos root]
    rfl

theorem nice_raising {pri : BitVec 16} (raising : ¬ pri.toInt < 0) (p : Entry) (u : Udata) :
    nice pri p u = renice pri p u := by
  have positive : ¬ pri.slt 0 = true := fun less => raising (BitVec.slt_iff_toInt_lt.mp less)
  unfold nice
  rw [if_neg positive]

end

/-! ## Every table that calls lead to -/

/-- The value is in its range, and the slice is positive. -/
structure Ranged (p : Entry) : Prop where
  low : -20 ≤ p.value
  high : p.value ≤ 19
  slice : 0 < p.p_priority.toInt

section
variable [Platform]

theorem renice_ranged (pri : BitVec 16) (p : Entry) (u : Udata) : Ranged (renice pri p u).entry := by
  constructor
  · rw [renice_value]
    exact clamp_low _
  · rw [renice_value]
    exact clamp_high _
  · exact renice_slice pri p u

theorem nice_ranged (pri : BitVec 16) {p : Entry} (u : Udata) (ranged : Ranged p) :
    Ranged (nice pri p u).entry := by
  by_cases lowering : pri.toInt < 0
  · rw [nice_lowering lowering]
    by_cases root : u.u_euid = 0
    · rw [if_pos root]
      exact ranged
    · rw [if_neg root]
      exact renice_ranged pri p u
  · rw [nice_raising lowering]
    exact renice_ranged pri p u

theorem call_ranged {ptab : Ptab} (c : Call) (ranged : ∀ q, Ranged (ptab q)) (q : Nat) :
    Ranged (call ptab c q) := by
  by_cases own : q = c.p
  · subst own
    rw [call, put_same]
    exact nice_ranged c.pri _ (ranged c.p)
  · rw [call, put_ne _ _ own]
    exact ranged q

theorem boot_ranged (q : Nat) : Ranged (boot q) := by
  have positive : 0 < (MAXTICKS).toInt := by
    rcases Platform.slices with small | large
    · rw [small]; decide
    · rw [large]; decide
  have zero : (boot q).value = 0 := rfl
  exact ⟨by omega, by omega, positive⟩

theorem foldl_ranged {ptab : Ptab} (calls : List Call) (ranged : ∀ q, Ranged (ptab q)) :
    ∀ q, Ranged (calls.foldl call ptab q) := by
  induction calls generalizing ptab with
  | nil => exact ranged
  | cons c calls ih => exact ih (call_ranged c ranged)

/-! ## The calls that do the sum -/

/-- An increment lands on `n` when the sum of the unsigned byte does. -/
theorem renice_lands (pri : BitVec 16) (p : Entry) (u : Udata) :
    ∃ byte : Int, (p.value < 0 ∧ byte = p.value + 256 ∨ 0 ≤ p.value ∧ byte = p.value) ∧
      (renice pri p u).entry.value = clamp (word (byte + pri.toInt)) := by
  refine ⟨p.p_nice.toNat, ?_, renice_value pri p u⟩
  have byte := byte_unsigned p.p_nice
  unfold Entry.value
  split at byte <;> omega

theorem sums_iff {ptab : Ptab} (c : Call) (ranged : Ranged (ptab c.p)) :
    (call ptab c c.p).value = target (ptab c.p).value c ↔ Clean ptab c := by
  have above := BitVec.toInt_lt (x := c.pri)
  have below := BitVec.le_toInt c.pri
  have low := ranged.low
  have high := ranged.high
  have wanted := clamp_cases ((ptab c.p).value + c.pri.toInt)
  obtain ⟨byte, read, lands⟩ := renice_lands c.pri (ptab c.p) ⟨c.euid, 0⟩
  have stored := clamp_cases (word (byte + c.pri.toInt))
  rw [call, put_same, Call.outcome]
  unfold Clean target
  by_cases lowering : c.pri.toInt < 0
  · have negative : ¬ 0 ≤ c.pri.toInt := by omega
    rw [nice_lowering lowering]
    by_cases root : c.euid = 0
    · have privileged : c.privileged := root
      simp only [root, privileged, if_true, not_true_eq_false, and_false, if_false, negative]
      omega
    · have unprivileged : ¬ c.privileged := root
      have small : word (byte + c.pri.toInt) = byte + c.pri.toInt := by
        unfold word
        omega
      simp only [root, unprivileged, if_false, not_false_eq_true, and_true, if_true, lowering, negative]
      rw [lands]
      omega
  · have positive : 0 ≤ c.pri.toInt := by omega
    have wraps : word (byte + c.pri.toInt) = byte + c.pri.toInt ∧ byte + c.pri.toInt ≤ 32767 ∨
        word (byte + c.pri.toInt) < 0 ∧ 32767 < byte + c.pri.toInt := by
      unfold word
      omega
    rw [nice_raising lowering, lands]
    simp only [lowering, false_and, if_false, positive, if_true]
    rcases read with ⟨negative, rfl⟩ | ⟨nonnegative, rfl⟩
    · have odd : ¬ 0 ≤ (ptab c.p).value := by omega
      simp only [odd, if_false]
      omega
    · simp only [nonnegative, if_true]
      omega

theorem right_iff {ptab : Ptab} (c : Call) (ranged : ∀ q, Ranged (ptab q)) :
    Right ptab c ↔ Clean ptab c := by
  constructor
  · intro right
    exact (sums_iff c (ranged c.p)).mp right.sums
  · intro clean
    exact ⟨(sums_iff c (ranged c.p)).mpr clean, (call_ranged c ranged c.p).slice,
      fun q other => put_ne _ _ other⟩

theorem throughout_iff {ptab : Ptab} (calls : List Call) (ranged : ∀ q, Ranged (ptab q)) :
    Throughout Right ptab calls ↔ Throughout Clean ptab calls := by
  induction calls generalizing ptab with
  | nil => exact Iff.rfl
  | cons c calls ih => exact and_congr (right_iff c ranged) (ih (call_ranged c ranged))

/-- From every table that calls lead to, the calls that follow all do the sum just when
each of them is clean. -/
theorem nice_sums (before calls : List Call) :
    Throughout Right (after before) calls ↔ Throughout Clean (after before) calls :=
  throughout_iff calls (foldl_ranged before boot_ranged)

end

/-- A process that is not the superuser lowers its value from 0 to -5. -/
theorem ordinary_lowers : ¬ ∀ [Platform] (calls : List Call), Throughout Right boot calls := by
  intro always
  let platform : Platform := ⟨10, Or.inl rfl⟩
  have sums := (always [⟨3, 100, -5⟩]).1.sums
  revert sums
  decide

end Nice
