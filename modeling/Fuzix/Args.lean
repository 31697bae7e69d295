import Fuzix.Lib.Memory

/-!
# The arguments of `execve`

Before the old program goes, `rargs` copies the strings of an argument list into the buffer
of a `struct s_argblk`; `wargs` then lays them out in the new process, below an address of
its stack, with an array of pointers under them. Both loaders have their own copies of the
two functions. The buffer is a function from indices to bytes that goes on behind its end,
and every index that is written is kept.
-/

set_option linter.unusedSectionVars false

namespace Args

open Memory

def E2BIG : Nat := 7
def EFAULT : Nat := 14

/-- Which loader runs, and on what processor. -/
class Target where
  /-- `syscall_exec32.c` -/
  wide : Bool
  /-- `sizeof(int)` is 4 and not 2. -/
  longInt : Bool
  littleEndian : Bool
  /-- `ALIGNUP` makes an even number. -/
  even : Bool

export Target (wide longInt littleEndian even)

section Target
variable [Target]

/-- `sizeof(uptr_t)` -/
def ptrSize : Nat := if wide then 4 else 2

def intSize : Nat := if longInt then 4 else 2

abbrev Addr := BitVec (8 * ptrSize)

def alignUp (n : Nat) : Nat := if even then (n + 1) / 2 * 2 else n

/-! ## User memory -/

def order (bs : List UInt8) : List UInt8 := if littleEndian then bs else bs.reverse

/-- A pointer as bytes of memory. -/
def bytesOf (p : Addr) : List UInt8 := order (little ptrSize p.toNat)

def wordAt (mem : Bytes (8 * ptrSize)) (a : Addr) : Addr :=
  BitVec.ofNat _ (value (order (get mem a ptrSize)))

/-- The memory of a process, and whether `valaddr` answers other than zero. It accepts no
null pointer and nothing that runs past the last address. -/
structure Space where
  mem : Bytes (8 * ptrSize)
  valid : Addr → Nat → Bool
  sound : ∀ a n, n < 2 ^ (8 * ptrSize) → valid a n = true → ¬ Span a n 0

/-- `valaddr` of usermem.c. -/
def valaddr (progbase top base size : Addr) : Addr :=
  if base = 0 ∨ base < progbase ∨ base + size < base then 0
  else if top < base + size then top - base
  else size

theorem valaddr_sound {progbase top a : Addr} {n : Nat} (small : n < 2 ^ (8 * ptrSize))
    (accepted : valaddr progbase top a (BitVec.ofNat _ n) ≠ 0) : ¬ Span a n 0 := by
  have kept : ¬ (a = 0 ∨ a < progbase ∨ a + BitVec.ofNat _ n < a) := by
    intro refused
    apply accepted
    unfold valaddr
    rw [if_pos refused]
  rw [not_or, not_or] at kept
  obtain ⟨nonnull, _, forward⟩ := kept
  have bound := a.isLt
  have pos : 0 < a.toNat := Nat.pos_of_ne_zero fun zero => nonnull (BitVec.eq_of_toNat_eq zero)
  have ends : a.toNat ≤ (a.toNat + n) % 2 ^ (8 * ptrSize) := by
    have le := Nat.le_of_not_lt forward
    rw [BitVec.toNat_add, BitVec.toNat_ofNat, Nat.add_mod_mod] at le
    exact le
  have short : a.toNat + n < 2 ^ (8 * ptrSize) := by
    by_contra wraps
    have wrapped : (a.toNat + n) % 2 ^ (8 * ptrSize) = a.toNat + n - 2 ^ (8 * ptrSize) := by
      rw [Nat.mod_eq_sub_mod (by omega), Nat.mod_eq_of_lt (by omega)]
    omega
  have distance : ((0 : Addr) - a).toNat = 2 ^ (8 * ptrSize) - a.toNat := by
    have null : (0 : Addr).toNat = 0 := Nat.zero_mod _
    rw [BitVec.toNat_sub, null, Nat.mod_eq_of_lt (by omega), Nat.add_zero]
  unfold Span
  omega

/-- A process of usermem.c. -/
def Space.user (progbase top : Addr) (mem : Bytes (8 * ptrSize)) : Space where
  mem := mem
  valid a n := decide (n < 2 ^ (8 * ptrSize) ∧ valaddr progbase top a (BitVec.ofNat _ n) ≠ 0)
  sound _ _ small accepted := valaddr_sound small (of_decide_eq_true accepted).2

/-- The pointer, and whether `err` is set. -/
def Space.ugetp (s : Space) (a : Addr) : Addr × Bool :=
  if s.valid a ptrSize then (wordAt s.mem a, false) else (BitVec.allOnes _, true)

def Space.ugetc (s : Space) (a : Addr) : UInt8 := if s.valid a 1 then s.mem a else 255

def Space.uput (s : Space) (bs : List UInt8) (a : Addr) : Space :=
  if s.valid a bs.length then { s with mem := put s.mem a bs } else s

def Space.uputp (s : Space) (p a : Addr) : Space := s.uput (bytesOf p) a

/-! ## `rargs` -/

/-- `struct s_argblk` is three `int`s and `a_buf`. -/
def sizeofArgblk : Nat := 512

def offsetBuf : Nat := 3 * intSize

def sizeofBuf : Nat := 512 - 3 * intSize

structure Argblk where
  argc : Nat
  arglen : Nat
  buf : Nat → UInt8
  /-- The indices of `a_buf` that were written. -/
  wrote : List Nat

def Argblk.put (b : Argblk) (bufp : Nat) (c : UInt8) : Argblk :=
  { b with buf := fun i => if i = bufp then c else b.buf i, wrote := bufp :: b.wrote }

/-- `ARGBUF_SIZE - 12`, or the constant of the other loader. -/
def limit : Nat := if wide then 512 - 12 else 500

/-- The inner loop: where the string ends in the buffer. -/
def copyString (s : Space) : Nat → Addr → Nat → Argblk → Option Nat × Argblk
  | 0, _, _, b => (none, b)
  | fuel + 1, ptr, bufp, b =>
    let c := s.ugetc ptr
    let b := b.put bufp c
    if limit < bufp + 1 then (none, b)
    else if c = 0 then (some (bufp + 1), b)
    else copyString s fuel (ptr + 1) (bufp + 1) b

/-- The outer loop, with the error if it fails. -/
def readArgs (s : Space) : Nat → Addr → Nat → Argblk → Option Nat × Argblk
  | 0, _, _, b => (some E2BIG, b)
  | fuel + 1, up, bufp, b =>
    let ptr := s.ugetp up
    if ptr.1 = 0 then (none, { b with arglen := if wide then bufp + bufp % 2 else bufp })
    else if wide ∧ ptr.2 then (some EFAULT, b)
    else
      let copied := copyString s (limit + 1) ptr.1 bufp { b with argc := b.argc + 1 }
      match copied.1 with
      | none => (some E2BIG, copied.2)
      | some bufp => readArgs s fuel (up + BitVec.ofNat _ ptrSize) bufp copied.2

/-- `buf` is what the buffer held before. -/
def rargs (s : Space) (argv : Addr) (buf : Nat → UInt8) : Option Nat × Argblk :=
  readArgs s (limit + 1) argv 0 ⟨0, 0, buf, []⟩

/-! ## Lists of strings in memory -/

/-- A string without its zero. -/
structure CString where
  bytes : List UInt8
  clean : 0 ∉ bytes

def CString.packed (s : CString) : List UInt8 := s.bytes ++ [0]

def packed (ss : List CString) : List UInt8 := ss.flatMap CString.packed

/-- The strings with their terminators. -/
def total (ss : List CString) : Nat := (packed ss).length

/-- The pointers from `a` on lead to the strings, and a null pointer is behind them. -/
def Listed (word : Addr → Addr × Bool) (byte : Bytes (8 * ptrSize)) : Addr → List CString → Prop
  | a, [] => word a = (0, false)
  | a, s :: ss => ∃ p, p ≠ 0 ∧ word a = (p, false) ∧ Has byte p s.packed ∧
      Listed word byte (a + BitVec.ofNat _ ptrSize) ss

/-- What the kernel finds in the memory of the caller. -/
def Space.Holds (s : Space) (argv : Addr) (ss : List CString) : Prop := Listed s.ugetp s.ugetc argv ss

end Target

/-! ## What the loops leave -/

section Read
variable [Target] {s : Space} {b : Argblk} {ptr up : Addr} {cs ds : List UInt8} {k r : Nat}
  {ss : List CString}

theorem limit_eq : limit = 500 := by
  unfold limit
  split
  · rfl
  · rfl

def Argblk.putAll (b : Argblk) : Nat → List UInt8 → Argblk
  | _, [] => b
  | k, c :: cs => (b.put k c).putAll (k + 1) cs

theorem putAll_append (k : Nat) : b.putAll k (cs ++ ds) = (b.putAll k cs).putAll (k + cs.length) ds := by
  induction cs generalizing b k with
  | nil => rfl
  | cons c cs ih =>
    have next : k + (cs.length + 1) = k + 1 + cs.length := by omega
    rw [List.length_cons, next]
    exact ih (k + 1)

theorem putAll_argc (k n : Nat) : ({ b with argc := n }).putAll k cs = { b.putAll k cs with argc := n } := by
  induction cs generalizing b k with
  | nil => rfl
  | cons c cs ih => exact ih (b := b.put k c) (k + 1)

@[simp] theorem argc_putAll (k : Nat) : (b.putAll k cs).argc = b.argc := by
  induction cs generalizing b k with
  | nil => rfl
  | cons c cs ih => exact ih (k + 1)

theorem mem_putAll (k i : Nat) : i ∈ (b.putAll k cs).wrote ↔ i ∈ b.wrote ∨ k ≤ i ∧ i < k + cs.length := by
  induction cs generalizing b k with
  | nil =>
    simp only [Argblk.putAll, List.length_nil]
    constructor
    · exact Or.inl
    · rintro (old | new)
      · exact old
      · omega
  | cons c cs ih =>
    have first : i ∈ (b.put k c).wrote ↔ i = k ∨ i ∈ b.wrote := List.mem_cons
    have here : b.putAll k (c :: cs) = (b.put k c).putAll (k + 1) cs := rfl
    rw [here, ih, first, List.length_cons]
    constructor
    · rintro ((same | old) | new)
      · exact Or.inr (by omega)
      · exact Or.inl old
      · exact Or.inr (by omega)
    · rintro (old | new)
      · exact Or.inl (Or.inr old)
      · by_cases same : i = k
        · exact Or.inl (Or.inl same)
        · exact Or.inr (by omega)

section Bytes
variable {c : UInt8}

/-- The byte that shows that the string does not fit is stored all the same. -/
theorem copyString_past (here : s.ugetc ptr = c) (past : limit < k + 1) :
    copyString s (r + 1) ptr k b = (none, b.put k c) := by
  simp only [copyString, here, if_pos past]

theorem copyString_end (here : s.ugetc ptr = 0) (inside : ¬ limit < k + 1) :
    copyString s (r + 1) ptr k b = (some (k + 1), b.put k 0) := by
  simp only [copyString, here, if_neg inside, if_true]

theorem copyString_next (here : s.ugetc ptr = c) (nonzero : c ≠ 0) (inside : ¬ limit < k + 1) :
    copyString s (r + 1) ptr k b = copyString s r (ptr + 1) (k + 1) (b.put k c) := by
  simp only [copyString, here, if_neg inside, if_neg nonzero]

end Bytes

/-- The string fits. -/
theorem copyString_fits (has : Has s.ugetc ptr (cs ++ [0])) (clean : 0 ∉ cs) (fuelled : limit < r + k)
    (fits : k + (cs.length + 1) ≤ limit) :
    copyString s r ptr k b = (some (k + (cs.length + 1)), b.putAll k (cs ++ [0])) := by
  induction cs generalizing r ptr k b with
  | nil =>
    cases r with
    | zero => omega
    | succ r =>
      have inside : ¬ limit < k + 1 := by simp only [List.length_nil] at fits; omega
      exact copyString_end has.1 inside
  | cons c cs ih =>
    rw [List.length_cons] at fits
    cases r with
    | zero => omega
    | succ r =>
      have nonzero : c ≠ 0 := fun zero => clean (zero ▸ List.mem_cons_self)
      have inside : ¬ limit < k + 1 := by omega
      have rest := ih (r := r) (k := k + 1) (b := b.put k c) has.2
        (fun zero => clean (List.mem_cons_of_mem c zero)) (by omega) (by omega)
      have next : k + 1 + (cs.length + 1) = k + (cs.length + 1 + 1) := by omega
      rw [copyString_next has.1 nonzero inside, rest, next]
      rfl

/-- The string does not fit. -/
theorem copyString_big (has : Has s.ugetc ptr (cs ++ [0])) (clean : 0 ∉ cs) (fuelled : limit < r + k)
    (start : k ≤ limit) (big : limit < k + (cs.length + 1)) :
    copyString s r ptr k b = (none, b.putAll k ((cs ++ [0]).take (limit + 1 - k))) := by
  induction cs generalizing r ptr k b with
  | nil =>
    cases r with
    | zero => omega
    | succ r =>
      have past : limit < k + 1 := by simpa using big
      have left : limit + 1 - k = 1 := by omega
      rw [copyString_past has.1 past, left]
      rfl
  | cons c cs ih =>
    rw [List.length_cons] at big
    cases r with
    | zero => omega
    | succ r =>
      by_cases past : limit < k + 1
      · have left : limit + 1 - k = 1 := by omega
        rw [copyString_past has.1 past, left]
        rfl
      · have nonzero : c ≠ 0 := fun zero => clean (zero ▸ List.mem_cons_self)
        have rest := ih (r := r) (k := k + 1) (b := b.put k c) has.2
          (fun zero => clean (List.mem_cons_of_mem c zero)) (by omega) (by omega) (by omega)
        have left : limit + 1 - k = limit + 1 - (k + 1) + 1 := by omega
        rw [copyString_next has.1 nonzero past, rest, left]
        rfl

theorem packed_cons (t : CString) : packed (t :: ss) = t.packed ++ packed ss := List.flatMap_cons

theorem packed_length (t : CString) : t.packed.length = t.bytes.length + 1 := List.length_append

theorem total_cons (t : CString) : total (t :: ss) = t.bytes.length + 1 + total ss := by
  unfold total
  rw [packed_cons, List.length_append, packed_length]

theorem putAll_packed (t : CString) (k : Nat) : b.putAll k (t.packed ++ cs) =
    (b.putAll k (t.bytes ++ [0])).putAll (k + (t.bytes.length + 1)) cs := by
  have split : b.putAll k (t.packed ++ cs) = (b.putAll k t.packed).putAll (k + t.packed.length) cs :=
    putAll_append k
  rw [packed_length] at split
  exact split

/-- `a_arglen` after the call. -/
def padded (n : Nat) : Nat := if wide then n + n % 2 else n

section Rounds
variable {p : Addr} {j : Nat} {b' : Argblk}

theorem readArgs_stuck (nonzero : p ≠ 0) (word : s.ugetp up = (p, false))
    (copied : copyString s (limit + 1) p k { b with argc := b.argc + 1 } = (none, b')) :
    readArgs s (r + 1) up k b = (some E2BIG, b') := by
  have sure : ¬ (wide = true ∧ (p, false).2 = true) := fun err => Bool.false_ne_true err.2
  simp only [readArgs, word, if_neg nonzero, if_neg sure, copied]

theorem readArgs_next (nonzero : p ≠ 0) (word : s.ugetp up = (p, false))
    (copied : copyString s (limit + 1) p k { b with argc := b.argc + 1 } = (some j, b')) :
    readArgs s (r + 1) up k b = readArgs s r (up + BitVec.ofNat _ ptrSize) j b' := by
  have sure : ¬ (wide = true ∧ (p, false).2 = true) := fun err => Bool.false_ne_true err.2
  simp only [readArgs, word, if_neg nonzero, if_neg sure, copied]

end Rounds

/-- The list fits: the buffer holds the strings one behind the other. -/
theorem readArgs_fits (held : Listed s.ugetp s.ugetc up ss) (fuelled : limit < r + k)
    (fits : k + total ss ≤ limit) :
    readArgs s r up k b = (none, { b.putAll k (packed ss) with
      argc := b.argc + ss.length, arglen := padded (k + total ss) }) := by
  induction ss generalizing r up k b with
  | nil =>
    cases r with
    | zero => omega
    | succ r =>
      have null : s.ugetp up = (0, false) := held
      simp only [readArgs, null, if_true]
      rfl
  | cons t ss ih =>
    rw [total_cons] at fits
    cases r with
    | zero => omega
    | succ r =>
      obtain ⟨p, nonzero, word, string, rest⟩ := held
      have copied := copyString_fits (r := limit + 1) (k := k) (b := { b with argc := b.argc + 1 })
        string t.clean (by omega) (by omega)
      have later := ih (r := r) (k := k + (t.bytes.length + 1))
        (b := ({ b with argc := b.argc + 1 }).putAll k (t.bytes ++ [0])) rest (by omega) (by omega)
      have sum : k + (t.bytes.length + 1) + total ss = k + total (t :: ss) := by
        rw [total_cons]
        omega
      have count : b.argc + 1 + ss.length = b.argc + (t :: ss).length := by
        rw [List.length_cons]
        omega
      rw [readArgs_next nonzero word copied, later, sum, argc_putAll, count]
      simp only [putAll_argc, packed_cons, putAll_packed]

/-- The list does not fit. -/
theorem readArgs_big (held : Listed s.ugetp s.ugetc up ss) (fuelled : limit < r + k)
    (start : k ≤ limit) (big : limit < k + total ss) :
    ∃ n, readArgs s r up k b =
      (some E2BIG, { b.putAll k ((packed ss).take (limit + 1 - k)) with argc := n }) := by
  induction ss generalizing r up k b with
  | nil =>
    have zero : total [] = 0 := rfl
    omega
  | cons t ss ih =>
    rw [total_cons] at big
    cases r with
    | zero => omega
    | succ r =>
      obtain ⟨p, nonzero, word, string, rest⟩ := held
      by_cases fits : k + (t.bytes.length + 1) ≤ limit
      · have copied := copyString_fits (r := limit + 1) (k := k)
          (b := { b with argc := b.argc + 1 }) string t.clean (by omega) fits
        obtain ⟨n, later⟩ := ih (r := r) (k := k + (t.bytes.length + 1))
          (b := ({ b with argc := b.argc + 1 }).putAll k (t.bytes ++ [0])) rest (by omega) fits (by omega)
        have whole : t.packed.take (limit + 1 - k) = t.packed := by
          apply List.take_of_length_le
          rw [packed_length]
          omega
        have left : limit + 1 - k - t.packed.length = limit + 1 - (k + (t.bytes.length + 1)) := by
          rw [packed_length]
          omega
        refine ⟨n, ?_⟩
        rw [readArgs_next nonzero word copied, later, packed_cons, List.take_append, whole, left]
        simp only [putAll_argc, putAll_packed]
      · have copied := copyString_big (r := limit + 1) (k := k)
          (b := { b with argc := b.argc + 1 }) string t.clean (by omega) start (by omega)
        have short : limit + 1 - k ≤ t.packed.length := by
          rw [packed_length]
          omega
        refine ⟨b.argc + 1, ?_⟩
        rw [readArgs_stuck nonzero word copied, putAll_argc, packed_cons, List.take_append_of_le_length short]
        rfl

end Read

/-! ## The bound -/

section Bound
variable [Target] {s : Space} {argv : Addr} {buf : Nat → UInt8} {ss : List CString}

theorem rargs_fits (held : s.Holds argv ss) (fits : total ss ≤ limit) :
    rargs s argv buf = (none, { (Argblk.mk 0 0 buf []).putAll 0 (packed ss) with
      argc := ss.length, arglen := padded (total ss) }) := by
  have answer := readArgs_fits (b := ⟨0, 0, buf, []⟩) (k := 0) (r := limit + 1) held (by omega) (by omega)
  rw [Nat.zero_add, Nat.zero_add] at answer
  exact answer

theorem rargs_big (held : s.Holds argv ss) (big : limit < total ss) :
    ∃ n, rargs s argv buf =
      (some E2BIG, { (Argblk.mk 0 0 buf []).putAll 0 ((packed ss).take (limit + 1)) with argc := n }) := by
  have answer := readArgs_big (b := ⟨0, 0, buf, []⟩) (k := 0) (r := limit + 1) held (by omega)
    (by omega) (by omega)
  exact answer

/-- Every byte is written inside the structure, and a list that is longer than the buffer is
turned down. -/
def Bounded (s : Space) (argv : Addr) (buf : Nat → UInt8) (ss : List CString) : Prop :=
  (∀ i ∈ (rargs s argv buf).2.wrote, offsetBuf + i < sizeofArgblk) ∧
    (sizeofBuf < total ss → (rargs s argv buf).1 ≠ none)

/-- With a short `int` always, with a long one if the list is accepted. -/
theorem rargs_bounded (s : Space) (argv : Addr) (buf : Nat → UInt8) (ss : List CString)
    (held : s.Holds argv ss) : Bounded s argv buf ss ↔ intSize = 2 ∨ total ss ≤ 500 := by
  have ints : intSize = 2 ∨ intSize = 4 := by
    unfold intSize
    cases longInt with
    | true => exact Or.inr rfl
    | false => exact Or.inl rfl
  unfold Bounded offsetBuf sizeofArgblk sizeofBuf
  by_cases fits : total ss ≤ limit
  · have answer := @rargs_fits _ s argv buf ss held fits
    rw [limit_eq] at fits
    have written : ∀ i, i ∈ (rargs s argv buf).2.wrote → i < total ss := by
      intro i inside
      rw [answer] at inside
      rcases (mem_putAll 0 i).1 inside with old | new
      · exact absurd old List.not_mem_nil
      · rw [Nat.zero_add] at new
        exact new.2
    constructor
    · intro _
      exact Or.inr fits
    · intro _
      constructor
      · intro i inside
        have low := written i inside
        omega
      · intro big
        omega
  · have long : limit < total ss := Nat.lt_of_not_le fits
    obtain ⟨n, answer⟩ := @rargs_big _ s argv buf ss held long
    rw [limit_eq] at long answer
    have taken : ((packed ss).take 501).length = 501 := List.length_take_of_le (by unfold total at long; omega)
    have written : ∀ i, i ∈ (rargs s argv buf).2.wrote ↔ i < 501 := by
      intro i
      rw [answer]
      have wrote := @mem_putAll _ ⟨0, 0, buf, []⟩ ((packed ss).take 501) 0 i
      rw [taken] at wrote
      constructor
      · intro inside
        rcases wrote.1 inside with old | new
        · exact absurd old List.not_mem_nil
        · omega
      · intro low
        exact wrote.2 (Or.inr (by omega))
    constructor
    · rintro ⟨within, _⟩
      have last := within 500 ((written 500).2 (by omega))
      omega
    · intro short
      constructor
      · intro i inside
        have low := (written i).1 inside
        omega
      · intro _
        rw [answer]
        exact Option.some_ne_none E2BIG

end Bound

/-- A 68000, whose `int` is long. -/
abbrev m68k : Target := ⟨true, true, false, false⟩

/-- A list at 0x2000 of one string, `n` bytes long. -/
def oneString (n : Nat) : @Space m68k :=
  @Space.user m68k 0x1000 0x10000 fun a =>
    if a = 0x2002 then 0x30 else if 0x3000 ≤ a.toNat ∧ a.toNat < 0x3000 + n then 65 else 0

def letters (n : Nat) : CString where
  bytes := List.replicate n 65
  clean := fun zero => by cases (List.mem_replicate.1 zero).2

theorem oneString_holds_short : @Space.Holds m68k (oneString 3) 0x2000 [letters 3] := by
  let _ := m68k
  have null : (oneString 3).ugetp (0x2000 + BitVec.ofNat _ ptrSize) = (0, false) := by decide +kernel
  exact ⟨0x3000, by decide, by decide +kernel, by decide +kernel, null⟩

theorem oneString_holds_long : @Space.Holds m68k (oneString 500) 0x2000 [letters 500] := by
  let _ := m68k
  have null : (oneString 500).ugetp (0x2000 + BitVec.ofNat _ ptrSize) = (0, false) := by decide +kernel
  exact ⟨0x3000, by decide, by decide +kernel, by decide +kernel, null⟩

theorem rargs_bounded_short : ∃ (_ : Target) (s : Space) (argv : Addr) (ss : List CString),
    s.Holds argv ss ∧ intSize = 4 ∧ Bounded s argv (fun _ => 0) ss := by
  let _ := m68k
  refine ⟨m68k, oneString 3, 0x2000, [letters 3], oneString_holds_short, rfl, ?_⟩
  exact (rargs_bounded (oneString 3) 0x2000 (fun _ => 0) [letters 3] oneString_holds_short).2
    (Or.inr (by decide))

/-- The byte at index 500 lies behind the structure. -/
theorem rargs_past_end : ∃ (_ : Target) (s : Space) (argv : Addr) (ss : List CString),
    s.Holds argv ss ∧ ¬ Bounded s argv (fun _ => 0) ss := by
  let _ := m68k
  refine ⟨m68k, oneString 500, 0x2000, [letters 500], oneString_holds_long, ?_⟩
  intro bounded
  have written : 500 ∈ (rargs (oneString 500) 0x2000 (fun _ => 0)).2.wrote := by decide +kernel
  exact absurd (bounded.1 500 written) (by decide)

end Args
