import Mathlib.Algebra.Group.Nat.Defs
import Mathlib.Tactic.Common

/-!
# Bytes in a memory of words

A memory is a function from addresses of `w` bits to bytes. A run of bytes lies at an
address and the ones behind it, and may go on at address zero.
-/

namespace Memory

variable {w : Nat}

abbrev Bytes (w : Nat) := BitVec w → UInt8

/-- `x` is one of the `n` addresses from `a` on. -/
def Span (a : BitVec w) (n : Nat) (x : BitVec w) : Prop := (x - a).toNat < n

instance (a : BitVec w) (n : Nat) (x : BitVec w) : Decidable (Span a n x) := Nat.decLt _ _

def put (mem : Bytes w) : BitVec w → List UInt8 → Bytes w
  | _, [] => mem
  | a, b :: bs => put (fun x => if x = a then b else mem x) (a + 1) bs

def get (mem : Bytes w) : BitVec w → Nat → List UInt8
  | _, 0 => []
  | a, n + 1 => mem a :: get mem (a + 1) n

/-- The bytes lie at the address. -/
def Has (mem : Bytes w) : BitVec w → List UInt8 → Prop
  | _, [] => True
  | a, b :: bs => mem a = b ∧ Has mem (a + 1) bs

instance decidableHas (mem : Bytes w) : (a : BitVec w) → (bs : List UInt8) → Decidable (Has mem a bs)
  | _, [] => instDecidableTrue
  | a, b :: bs => @instDecidableAnd _ _ (instDecidableEqUInt8 (mem a) b) (decidableHas mem (a + 1) bs)

/-- The `n` lowest bytes of a number, the lowest one first. -/
def little : Nat → Nat → List UInt8
  | 0, _ => []
  | n + 1, v => UInt8.ofNat v :: little n (v / 256)

def value : List UInt8 → Nat
  | [] => 0
  | b :: bs => b.toNat + 256 * value bs

/-! ## Spans -/

section Spans
variable {a x : BitVec w} {m n : Nat}

theorem not_span_zero : ¬ Span a 0 x := Nat.not_lt_zero _

theorem Span.first (pos : 0 < n) : Span a n a := by
  unfold Span
  rw [BitVec.sub_self]
  exact pos

theorem Span.le (short : Span a m x) (le : m ≤ n) : Span a n x := Nat.lt_of_lt_of_le short le

theorem sub_add (x a b : BitVec w) : x - (a + b) = x - a - b := by
  have back : x - a - b + (a + b) = x := by
    rw [BitVec.add_comm a b, ← BitVec.add_assoc, BitVec.sub_add_cancel, BitVec.sub_add_cancel]
  have lower := congrArg (fun y => y - (a + b)) back
  rw [BitVec.add_sub_cancel] at lower
  exact lower.symm

/-- The distance from an address further on. -/
theorem distance_add (le : m ≤ (x - a).toNat) :
    (x - (a + BitVec.ofNat w m)).toNat = (x - a).toNat - m := by
  have bound := (x - a).isLt
  have regroup : x - (a + BitVec.ofNat w m) = (x - a) - BitVec.ofNat w m := sub_add x a _
  have small : (BitVec.ofNat w m).toNat = m := by
    rw [BitVec.toNat_ofNat]
    exact Nat.mod_eq_of_lt (by omega)
  rw [regroup, BitVec.toNat_sub_of_le, small]
  rw [BitVec.le_def, small]
  exact le

/-- The distance from an address that has been passed. -/
theorem distance_past (lt : (x - a).toNat < m) (fits : m < 2 ^ w) :
    (x - (a + BitVec.ofNat w m)).toNat = 2 ^ w - m + (x - a).toNat := by
  have regroup : x - (a + BitVec.ofNat w m) = (x - a) - BitVec.ofNat w m := sub_add x a _
  have small : (BitVec.ofNat w m).toNat = m := by
    rw [BitVec.toNat_ofNat]
    exact Nat.mod_eq_of_lt fits
  rw [regroup, BitVec.toNat_sub, small]
  exact Nat.mod_eq_of_lt (by omega)

theorem span_append :
    Span a (m + n) x ↔ Span a m x ∨ Span (a + BitVec.ofNat w m) n x := by
  unfold Span
  constructor
  · intro inside
    by_cases first : (x - a).toNat < m
    · exact Or.inl first
    · right
      rw [distance_add (by omega)]
      omega
  · rintro (first | second)
    · omega
    · by_cases low : (x - a).toNat < m
      · omega
      · rw [distance_add (by omega)] at second
        omega

/-- A span further on, seen from the first address. -/
theorem span_shift (fits : m + n ≤ 2 ^ w) :
    Span (a + BitVec.ofNat w m) n x ↔ m ≤ (x - a).toNat ∧ (x - a).toNat < m + n := by
  have bound := (x - a).isLt
  unfold Span
  by_cases passed : (x - a).toNat < m
  · by_cases whole : m < 2 ^ w
    · have far := distance_past passed whole
      omega
    · omega
  · have near := distance_add (Nat.le_of_not_lt passed)
    omega

/-- What comes first has no address in common with what comes next. -/
theorem span_apart (fits : m + n ≤ 2 ^ w) (first : Span a m x) : ¬ Span (a + BitVec.ofNat w m) n x := by
  rw [span_shift fits]
  unfold Span at first
  omega

theorem ofNat_one_add (n : Nat) : (1 : BitVec w) + BitVec.ofNat w n = BitVec.ofNat w (n + 1) := by
  rw [Nat.add_comm, BitVec.ofNat_add]
  rfl

theorem add_one_ofNat (n : Nat) : a + 1 + BitVec.ofNat w n = a + BitVec.ofNat w (n + 1) := by
  rw [BitVec.add_assoc, ofNat_one_add]

theorem add_ofNat_ofNat (m n : Nat) :
    a + BitVec.ofNat w m + BitVec.ofNat w n = a + BitVec.ofNat w (m + n) := by
  rw [BitVec.add_assoc, ← BitVec.ofNat_add]

theorem span_succ : Span a (n + 1) x ↔ x = a ∨ Span (a + 1) n x := by
  have split := span_append (a := a) (x := x) (m := 1) (n := n)
  rw [Nat.add_comm n 1, split]
  have one : Span a 1 x ↔ x = a := by
    unfold Span
    constructor
    · intro near
      have zero : x - a = 0 := BitVec.eq_of_toNat_eq (Nat.lt_one_iff.1 near)
      have back := BitVec.sub_add_cancel x a
      rw [zero] at back
      exact back.symm.trans (BitVec.zero_add a)
    · intro same
      rw [same, BitVec.sub_self]
      exact Nat.one_pos
  rw [one]
  exact Iff.rfl

end Spans

/-! ## What is read where it was stored -/

section Stores
variable {mem : Bytes w} {a x : BitVec w} {bs cs : List UInt8}

theorem put_outside (fits : bs.length ≤ 2 ^ w) (outside : ¬ Span a bs.length x) :
    put mem a bs x = mem x := by
  induction bs generalizing mem a with
  | nil => rfl
  | cons b bs ih =>
    have apart : ¬ (x = a ∨ Span (a + 1) bs.length x) := fun h => outside (span_succ.2 h)
    rw [not_or] at apart
    unfold put
    rw [ih (Nat.le_of_succ_le fits) apart.2, if_neg apart.1]

theorem Has.of_eq {mem' : Bytes w} (fits : bs.length ≤ 2 ^ w)
    (same : ∀ x, Span a bs.length x → mem' x = mem x) (has : Has mem a bs) : Has mem' a bs := by
  induction bs generalizing a with
  | nil => trivial
  | cons b bs ih =>
    refine ⟨(same a (Span.first (Nat.succ_pos _))).trans has.1, ?_⟩
    apply ih (Nat.le_of_succ_le fits) _ has.2
    intro x inside
    exact same x (span_succ.2 (Or.inr inside))

theorem has_put (fits : bs.length ≤ 2 ^ w) : Has (put mem a bs) a bs := by
  induction bs generalizing mem a with
  | nil => trivial
  | cons b bs ih =>
    unfold put
    refine ⟨?_, ih (Nat.le_of_succ_le fits)⟩
    have apart : ¬ Span (a + 1) bs.length a :=
      span_apart (m := 1) (by rw [Nat.add_comm]; exact fits) (Span.first Nat.one_pos)
    rw [put_outside (Nat.le_of_succ_le fits) apart, if_pos rfl]

theorem has_append : Has mem a (bs ++ cs) ↔ Has mem a bs ∧ Has mem (a + BitVec.ofNat w bs.length) cs := by
  induction bs generalizing a with
  | nil =>
    have here : a + BitVec.ofNat w 0 = a := BitVec.add_zero a
    rw [List.nil_append, List.length_nil, here]
    simp only [Has, true_and]
  | cons b bs ih =>
    rw [List.cons_append, List.length_cons, ← add_one_ofNat]
    simp only [Has, ih, and_assoc]

theorem Has.get_eq (has : Has mem a bs) : get mem a bs.length = bs := by
  induction bs generalizing a with
  | nil => rfl
  | cons b bs ih =>
    rw [List.length_cons]
    unfold get
    rw [ih has.2, has.1]

theorem get_length (mem : Bytes w) (a : BitVec w) (n : Nat) : (get mem a n).length = n := by
  induction n generalizing a with
  | zero => rfl
  | succ n ih =>
    unfold get
    rw [List.length_cons, ih]

/-- What is read depends on the bytes of the span. -/
theorem get_congr {mem' : Bytes w} {n : Nat} (fits : n ≤ 2 ^ w) (same : ∀ x, Span a n x → mem' x = mem x) :
    get mem' a n = get mem a n := by
  induction n generalizing a with
  | zero => rfl
  | succ n ih =>
    have rest : get mem' (a + 1) n = get mem (a + 1) n := by
      apply ih (Nat.le_of_succ_le fits)
      intro x inside
      exact same x (span_succ.2 (Or.inr inside))
    unfold get
    rw [rest, same a (Span.first (Nat.succ_pos n))]

theorem get_put (fits : bs.length ≤ 2 ^ w) : get (put mem a bs) a bs.length = bs :=
  (has_put fits).get_eq

/-- To store what is there changes nothing. -/
theorem put_get (mem : Bytes w) (a : BitVec w) (n : Nat) : put mem a (get mem a n) = mem := by
  induction n generalizing a with
  | zero => rfl
  | succ n ih =>
    have first : (fun x => if x = a then mem a else mem x) = mem := by
      funext x
      by_cases here : x = a
      · rw [if_pos here, here]
      · exact if_neg here
    unfold get put
    rw [first, ih]

/-- All bytes of a span are one byte. -/
theorem get_replicate {n : Nat} {b : UInt8} (fits : n ≤ 2 ^ w) (same : ∀ x, Span a n x → mem x = b) :
    get mem a n = List.replicate n b := by
  induction n generalizing a with
  | zero => rfl
  | succ n ih =>
    have rest : get mem (a + 1) n = List.replicate n b := by
      apply ih (Nat.le_of_succ_le fits)
      intro x inside
      exact same x (span_succ.2 (Or.inr inside))
    unfold get
    rw [rest, same a (Span.first (Nat.succ_pos n)), List.replicate_succ]

end Stores

/-! ## Numbers -/

theorem little_length (n v : Nat) : (little n v).length = n := by
  induction n generalizing v with
  | zero => rfl
  | succ n ih =>
    unfold little
    rw [List.length_cons, ih]

theorem value_little (n v : Nat) (small : v < 256 ^ n) : value (little n v) = v := by
  induction n generalizing v with
  | zero =>
    have zero : v = 0 := by omega
    rw [zero]
    rfl
  | succ n ih =>
    have quotient : v / 256 < 256 ^ n := by
      rw [Nat.div_lt_iff_lt_mul (by omega), ← Nat.pow_succ]
      exact small
    have low : (UInt8.ofNat v).toNat = v % 256 := UInt8.toNat_ofNat'
    unfold little value
    rw [ih _ quotient, low]
    omega

theorem value_replicate_zero (n : Nat) : value (List.replicate n 0) = 0 := by
  induction n with
  | zero => rfl
  | succ n ih =>
    rw [List.replicate_succ]
    unfold value
    rw [ih]
    rfl

theorem value_replicate_pos (n : Nat) (b : UInt8) (nonzero : b ≠ 0) (pos : 0 < n) :
    0 < value (List.replicate n b) := by
  cases n with
  | zero => exact absurd pos (Nat.lt_irrefl 0)
  | succ n =>
    have byte : 0 < b.toNat := by
      rcases Nat.eq_zero_or_pos b.toNat with zero | pos
      · exact absurd (UInt8.toNat_inj.1 zero) nonzero
      · exact pos
    rw [List.replicate_succ]
    unfold value
    omega

theorem value_lt (bs : List UInt8) : value bs < 256 ^ bs.length := by
  induction bs with
  | nil => exact Nat.one_pos
  | cons b bs ih =>
    have byte := b.toNat_lt
    unfold value
    rw [List.length_cons, Nat.pow_succ]
    omega

end Memory
