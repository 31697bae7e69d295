import Fuzix.Args

/-!
# The block that `wargs` lays out

What `rargs` collected is written below an address of the new process: the strings, and the
pointers to them below the strings, with a null pointer behind the last. The addresses are
found by scanning the strings again. Copies that `valaddr` refuses are not noticed.
-/

set_option linter.unusedSectionVars false

namespace Args

open Memory

section Wargs
variable [Target]

/-- `do ++ptr; while (*sptr++);` -/
def skipString (buf : Nat → UInt8) : Nat → Nat → Addr → Nat × Addr
  | 0, sptr, ptr => (sptr, ptr)
  | fuel + 1, sptr, ptr =>
    if buf sptr = 0 then (sptr + 1, ptr + 1) else skipString buf fuel (sptr + 1) (ptr + 1)

/-- The loop of `wargs`, and the null pointer behind it. -/
def setPointers (buf : Nat → UInt8) : Nat → Addr → Addr → Nat → Space → Space
  | 0, argv, _, _, q => q.uputp 0 argv
  | argc + 1, argv, ptr, sptr, q =>
    let q := q.uputp ptr argv
    let next := if argc = 0 then (sptr, ptr) else skipString buf sizeofArgblk sptr ptr
    setPointers buf argc (argv + BitVec.ofNat _ ptrSize) next.2 next.1 q

/-- The base of the pointers, `*cnt`, and the memory. -/
def wargs (q : Space) (ptr : Addr) (b : Argblk) : Addr × Nat × Space :=
  let arglen := if wide then b.arglen else alignUp b.arglen
  let ptr := ptr - BitVec.ofNat _ arglen
  let q := if arglen = 0 then q else q.uput ((List.range arglen).map b.buf) ptr
  let argbase := ptr - BitVec.ofNat _ (ptrSize * (b.argc + 1))
  (argbase, b.argc, setPointers b.buf b.argc argbase ptr 0 q)

/-- What `_execve` keeps of its two calls: `nargv`, `argc`, `nenvp` and the memory. -/
structure Stacked where
  nargv : Addr
  argc : Nat
  nenvp : Addr
  space : Space

def stack (q : Space) (ptr : Addr) (args envs : Argblk) : Stacked :=
  let nargv := wargs q ptr args
  let nenvp := wargs nargv.2.2 nargv.1 envs
  ⟨nargv.1, nargv.2.1, nenvp.1, nenvp.2.2⟩

/-! ## What the program finds -/

/-- A program reads its own memory. -/
def Shows (mem : Bytes (8 * ptrSize)) : Addr → List CString → Prop :=
  Listed (fun a => (wordAt mem a, false)) mem

/-- The array at `a` is read as this list and as no other. -/
def Decodes (mem : Bytes (8 * ptrSize)) (a : Addr) (ss : List CString) : Prop :=
  ∀ ts, Shows mem a ts ↔ ts = ss

structure Laid (q : Space) (ptr : Addr) (args envs : List CString) (r : Stacked) : Prop where
  argv : Decodes r.space.mem r.nargv args
  envp : Decodes r.space.mem r.nenvp envs
  count : r.argc = args.length
  outside : ∀ x, ¬ Span r.nenvp (ptr - r.nenvp).toNat x → r.space.mem x = q.mem x

/-- The bytes of the strings, made even. -/
def stringsSize (ss : List CString) : Nat := if wide then padded (total ss) else alignUp (total ss)

def pointersSize (ss : List CString) : Nat := ptrSize * (ss.length + 1)

def stringBase (ptr : Addr) (ss : List CString) : Addr := ptr - BitVec.ofNat _ (stringsSize ss)

def argBase (ptr : Addr) (ss : List CString) : Addr := stringBase ptr ss - BitVec.ofNat _ (pointersSize ss)

/-- The strings and every pointer lie where `valaddr` lets the kernel write. -/
def Room (valid : Addr → Nat → Bool) (ptr : Addr) (ss : List CString) : Prop :=
  (stringsSize ss ≠ 0 → valid (stringBase ptr ss) (stringsSize ss) = true) ∧
    ∀ i, i ≤ ss.length → valid (argBase ptr ss + BitVec.ofNat _ (ptrSize * i)) ptrSize = true

end Wargs

/-! ## Words of memory -/

section Words
variable [Target] {mem : Bytes (8 * ptrSize)} {a p : Addr}

theorem ptrSize_cases : ptrSize = 2 ∨ ptrSize = 4 := by
  unfold ptrSize
  cases wide with
  | true => exact Or.inr rfl
  | false => exact Or.inl rfl

theorem space_eq : 2 ^ (8 * ptrSize) = 256 ^ ptrSize := by
  rcases ptrSize_cases with two | four
  · simp [two]
  · simp [four]

theorem space_large : 65536 ≤ 2 ^ (8 * ptrSize) := by
  rcases ptrSize_cases with two | four
  · rw [two]
    decide
  · rw [four]
    decide

theorem order_length (bs : List UInt8) : (order bs).length = bs.length := by
  unfold order
  split
  · rfl
  · exact List.length_reverse

theorem order_order (bs : List UInt8) : order (order bs) = bs := by
  unfold order
  split
  · rfl
  · exact List.reverse_reverse bs

theorem bytesOf_length (p : Addr) : (bytesOf p).length = ptrSize := by
  unfold bytesOf
  rw [order_length, little_length]

/-- A pointer is read as it was stored. -/
theorem wordAt_of_has (has : Has mem a (bytesOf p)) : wordAt mem a = p := by
  have bytes := has.get_eq
  have small : p.toNat < 256 ^ ptrSize := space_eq ▸ p.isLt
  rw [bytesOf_length] at bytes
  unfold wordAt
  rw [bytes]
  unfold bytesOf
  rw [order_order, value_little _ _ small]
  apply BitVec.eq_of_toNat_eq
  rw [BitVec.toNat_ofNat]
  exact Nat.mod_eq_of_lt p.isLt

/-- A word of equal bytes. -/
theorem wordAt_same {v : UInt8} (same : ∀ x, Span a ptrSize x → mem x = v) : wordAt mem a = 0 ↔ v = 0 := by
  have large := space_large
  have fits : ptrSize ≤ 2 ^ (8 * ptrSize) := by
    rcases ptrSize_cases with two | four <;> omega
  have reversed : order (List.replicate ptrSize v) = List.replicate ptrSize v := by
    unfold order
    split
    · rfl
    · exact List.reverse_replicate
  unfold wordAt
  rw [get_replicate fits same, reversed]
  constructor
  · intro null
    by_contra nonzero
    have pos := value_replicate_pos ptrSize v nonzero (by rcases ptrSize_cases with two | four <;> omega)
    have bound := value_lt (List.replicate ptrSize v)
    rw [List.length_replicate, ← space_eq] at bound
    have zero := congrArg BitVec.toNat null
    rw [BitVec.toNat_ofNat, Nat.mod_eq_of_lt bound] at zero
    have none_left : (0 : Addr).toNat = 0 := Nat.zero_mod _
    omega
  · intro zero
    rw [zero, value_replicate_zero]
    rfl

end Words

/-! ## The lists that memory shows -/

section Shown
variable [Target] {word : Addr → Addr × Bool} {byte mem : Bytes (8 * ptrSize)} {a p : Addr}
  {ss ts : List CString}

/-- A string is known by its bytes up to the first zero. -/
theorem string_unique {cs ds : List UInt8} (left : Has byte p (cs ++ [0])) (right : Has byte p (ds ++ [0]))
    (clean : 0 ∉ cs) (clean' : 0 ∉ ds) : cs = ds := by
  induction cs generalizing p ds with
  | nil =>
    cases ds with
    | nil => rfl
    | cons d ds => exact absurd (List.mem_cons.2 (Or.inl (left.1.symm.trans right.1))) clean'
  | cons c cs ih =>
    cases ds with
    | nil => exact absurd (List.mem_cons.2 (Or.inl (right.1.symm.trans left.1))) clean
    | cons d ds =>
      have first : c = d := left.1.symm.trans right.1
      have rest := ih left.2 right.2 (fun zero => clean (List.mem_cons_of_mem c zero))
        (fun zero => clean' (List.mem_cons_of_mem d zero))
      rw [first, rest]

theorem CString.eq_of_bytes {t u : CString} (same : t.bytes = u.bytes) : t = u := by
  cases t
  cases u
  cases same
  rfl

/-- There is one list only. -/
theorem Listed.unique (left : Listed word byte a ss) (right : Listed word byte a ts) : ss = ts := by
  induction ss generalizing a ts with
  | nil =>
    cases ts with
    | nil => rfl
    | cons u ts =>
      obtain ⟨p, nonzero, found, _⟩ := right
      have null : word a = (0, false) := left
      rw [null] at found
      exact absurd (congrArg Prod.fst found).symm nonzero
  | cons t ss ih =>
    obtain ⟨p, nonzero, found, string, rest⟩ := left
    cases ts with
    | nil =>
      have null : word a = (0, false) := right
      rw [null] at found
      exact absurd (congrArg Prod.fst found).symm nonzero
    | cons u ts =>
      obtain ⟨p', _, found', string', rest'⟩ := right
      have same : p = p' := congrArg Prod.fst (found.symm.trans found')
      rw [← same] at string'
      have first : t = u := CString.eq_of_bytes (string_unique string string' t.clean u.clean)
      rw [first, ih rest rest']

theorem decodes_iff : Decodes mem a ss ↔ Shows mem a ss := by
  constructor
  · intro only
    exact (only ss).2 rfl
  · intro shown ts
    constructor
    · intro other
      exact other.unique shown
    · intro same
      rw [same]
      exact shown

/-- Where the words of the array are zero. -/
theorem Shows.words (shown : Shows mem a ss) (i : Nat) (le : i ≤ ss.length) :
    wordAt mem (a + BitVec.ofNat _ (ptrSize * i)) = 0 ↔ i = ss.length := by
  induction ss generalizing a i with
  | nil =>
    have zero : i = 0 := Nat.le_zero.1 le
    have null : wordAt mem a = 0 := congrArg Prod.fst shown
    have here : a + BitVec.ofNat _ 0 = a := BitVec.add_zero a
    rw [zero, Nat.mul_zero, here]
    exact iff_of_true null rfl
  | cons t ss ih =>
    obtain ⟨p, nonzero, found, _, rest⟩ := shown
    cases i with
    | zero =>
      have here : a + BitVec.ofNat _ 0 = a := BitVec.add_zero a
      have word : wordAt mem a = p := congrArg Prod.fst found
      rw [Nat.mul_zero, here, word]
      exact iff_of_false nonzero (Nat.succ_ne_zero _).symm
    | succ i =>
      have next := ih rest i (Nat.le_of_succ_le_succ le)
      have sum : ptrSize + ptrSize * i = ptrSize * (i + 1) := by
        rw [Nat.mul_succ, Nat.add_comm]
      rw [add_ofNat_ofNat, sum] at next
      rw [next, List.length_cons, Nat.add_right_cancel_iff]

/-- The first string is where the first word leads. -/
theorem Shows.first {t : CString} (shown : Shows mem a (t :: ss)) : Has mem (wordAt mem a) t.packed := by
  obtain ⟨p, _, found, string, _⟩ := shown
  have word : wordAt mem a = p := congrArg Prod.fst found
  rw [word]
  exact string

end Shown

/-! ## Filling the array -/

section Slots
variable [Target] {q : Space} {a p x : Addr} {ps : List Addr} {ss : List CString} {buf : Nat → UInt8} {k : Nat}

def putSlots (q : Space) : Addr → List Addr → Space
  | _, [] => q
  | a, p :: ps => putSlots (q.uputp p a) (a + BitVec.ofNat _ ptrSize) ps

def HasSlots (mem : Bytes (8 * ptrSize)) : Addr → List Addr → Prop
  | _, [] => True
  | a, p :: ps => Has mem a (bytesOf p) ∧ HasSlots mem (a + BitVec.ofNat _ ptrSize) ps

/-- The pointers to strings that lie one behind the other from `p` on. -/
def starts : Addr → List CString → List Addr
  | _, [] => [0]
  | p, t :: ss => p :: starts (p + BitVec.ofNat _ (t.bytes.length + 1)) ss

theorem starts_length (p : Addr) (ss : List CString) : (starts p ss).length = ss.length + 1 := by
  induction ss generalizing p with
  | nil => rfl
  | cons t ss ih =>
    unfold starts
    rw [List.length_cons, ih, List.length_cons]

/-- The buffer holds the bytes from index `k` on. -/
def Window (buf : Nat → UInt8) : Nat → List UInt8 → Prop
  | _, [] => True
  | k, c :: cs => buf k = c ∧ Window buf (k + 1) cs

theorem window_append {cs ds : List UInt8} :
    Window buf k (cs ++ ds) ↔ Window buf k cs ∧ Window buf (k + cs.length) ds := by
  induction cs generalizing k with
  | nil => simp only [List.nil_append, Window, List.length_nil, Nat.add_zero, true_and]
  | cons c cs ih =>
    have next : k + (cs.length + 1) = k + 1 + cs.length := by omega
    rw [List.cons_append, List.length_cons, next]
    simp only [Window, ih, and_assoc]

theorem skipString_spec {cs : List UInt8} {r : Nat} (string : Window buf k (cs ++ [0])) (clean : 0 ∉ cs)
    (fuelled : cs.length < r) :
    skipString buf r k p = (k + (cs.length + 1), p + BitVec.ofNat _ (cs.length + 1)) := by
  induction cs generalizing r k p with
  | nil =>
    cases r with
    | zero => exact absurd fuelled (Nat.not_lt_zero _)
    | succ r =>
      have here : buf k = 0 := string.1
      simp only [skipString, here, if_true]
      rfl
  | cons c cs ih =>
    cases r with
    | zero => exact absurd fuelled (Nat.not_lt_zero _)
    | succ r =>
      have here : buf k = c := string.1
      have nonzero : c ≠ 0 := fun zero => clean (zero ▸ List.mem_cons_self)
      have rest := ih (r := r) (k := k + 1) (p := p + 1) string.2
        (fun zero => clean (List.mem_cons_of_mem c zero)) (Nat.lt_of_succ_lt_succ fuelled)
      have next : k + 1 + (cs.length + 1) = k + (cs.length + 1 + 1) := by omega
      rw [add_one_ofNat, next] at rest
      simp only [skipString, here, if_neg nonzero, rest, List.length_cons]

/-- The scan finds the pointers. -/
theorem setPointers_eq (held : Window buf k (packed ss)) (short : total ss ≤ sizeofArgblk) :
    setPointers buf ss.length a p k q = putSlots q a (starts p ss) := by
  induction ss generalizing q a p k with
  | nil => rfl
  | cons t ss ih =>
    rw [packed_cons, window_append, packed_length] at held
    rw [total_cons] at short
    have rest := ih (q := q.uputp p a) (a := a + BitVec.ofNat _ ptrSize)
      (p := p + BitVec.ofNat _ (t.bytes.length + 1)) held.2 (by omega)
    cases ss with
    | nil => rfl
    | cons u ss =>
      have nonempty : ¬ (u :: ss).length = 0 := Nat.succ_ne_zero _
      have skipped := skipString_spec (p := p) (r := sizeofArgblk) held.1 t.clean (by omega)
      rw [List.length_cons] at rest nonempty
      simp only [List.length_cons, setPointers, if_neg nonempty, skipped]
      exact rest

/-! ## What is written, and where -/

@[simp] theorem valid_uput (bs : List UInt8) : (q.uput bs a).valid = q.valid := by
  unfold Space.uput
  split
  · rfl
  · rfl

theorem uput_refused {bs : List UInt8} (refused : q.valid a bs.length = false) : q.uput bs a = q := by
  unfold Space.uput
  rw [refused]
  rfl

theorem uput_outside {bs : List UInt8} (fits : bs.length ≤ 2 ^ (8 * ptrSize))
    (outside : ¬ Span a bs.length x) : (q.uput bs a).mem x = q.mem x := by
  unfold Space.uput
  split
  · exact put_outside fits outside
  · rfl

theorem uput_has {bs : List UInt8} (fits : bs.length ≤ 2 ^ (8 * ptrSize))
    (accepted : q.valid a bs.length = true) : Has (q.uput bs a).mem a bs := by
  unfold Space.uput
  rw [if_pos accepted]
  exact has_put fits

@[simp] theorem valid_uputp : (q.uputp p a).valid = q.valid := valid_uput _

theorem word_fits (p : Addr) : (bytesOf p).length ≤ 2 ^ (8 * ptrSize) := by
  have large := space_large
  rw [bytesOf_length]
  rcases ptrSize_cases with two | four
  · omega
  · omega

/-- A word changes its own bytes only, and only if `valaddr` lets it. -/
theorem uputp_keeps (away : Span a ptrSize x → q.valid a ptrSize = false) : (q.uputp p a).mem x = q.mem x := by
  by_cases inside : Span a ptrSize x
  · have refused : q.uputp p a = q := uput_refused (by rw [bytesOf_length]; exact away inside)
    rw [refused]
  · exact uput_outside (word_fits p) (by rw [bytesOf_length]; exact inside)

@[simp] theorem valid_putSlots : (putSlots q a ps).valid = q.valid := by
  induction ps generalizing q a with
  | nil => rfl
  | cons p ps ih => exact ih.trans valid_uputp

/-- Slot `i` of an array. -/
def slot (a : Addr) (i : Nat) : Addr := a + BitVec.ofNat _ (ptrSize * i)

theorem slot_zero : slot a 0 = a := BitVec.add_zero a

theorem slot_succ (i : Nat) : slot (a + BitVec.ofNat _ ptrSize) i = slot a (i + 1) := by
  unfold slot
  rw [add_ofNat_ofNat, Nat.mul_succ, Nat.add_comm]

theorem putSlots_keeps (away : ∀ i, i < ps.length → Span (slot a i) ptrSize x →
    q.valid (slot a i) ptrSize = false) : (putSlots q a ps).mem x = q.mem x := by
  induction ps generalizing q a with
  | nil => rfl
  | cons p ps ih =>
    have first := away 0 (Nat.succ_pos _)
    rw [slot_zero] at first
    have rest := ih (q := q.uputp p a) (a := a + BitVec.ofNat _ ptrSize) (by
      intro i lt
      rw [slot_succ, valid_uputp]
      exact away (i + 1) (Nat.succ_lt_succ lt))
    exact rest.trans (uputp_keeps first)

/-- The array is filled if every slot may be written. -/
theorem putSlots_has (fits : ptrSize * ps.length ≤ 2 ^ (8 * ptrSize))
    (accepted : ∀ i, i < ps.length → q.valid (slot a i) ptrSize = true) :
    HasSlots (putSlots q a ps).mem a ps := by
  induction ps generalizing q a with
  | nil => trivial
  | cons p ps ih =>
    rw [List.length_cons, Nat.mul_succ] at fits
    have first := accepted 0 (Nat.succ_pos _)
    rw [slot_zero, ← bytesOf_length p] at first
    constructor
    · apply (uput_has (word_fits p) first).of_eq (word_fits p)
      intro x inside
      rw [bytesOf_length] at inside
      show (putSlots (q.uputp p a) (a + BitVec.ofNat _ ptrSize) ps).mem x = (q.uputp p a).mem x
      apply putSlots_keeps
      intro i lt later
      have below : ptrSize * i + ptrSize ≤ ptrSize * ps.length := by
        rw [← Nat.mul_succ]
        exact Nat.mul_le_mul_left _ lt
      unfold slot at later
      rw [add_ofNat_ofNat, span_shift (by omega)] at later
      unfold Span at inside
      omega
    · apply ih (Nat.le_of_add_right_le fits)
      intro i lt
      rw [slot_succ, valid_uputp]
      exact accepted (i + 1) (Nat.succ_lt_succ lt)

theorem HasSlots.of_eq {mem mem' : Bytes (8 * ptrSize)} (fits : ptrSize * ps.length ≤ 2 ^ (8 * ptrSize))
    (same : ∀ x, Span a (ptrSize * ps.length) x → mem' x = mem x) (has : HasSlots mem a ps) :
    HasSlots mem' a ps := by
  induction ps generalizing a with
  | nil => trivial
  | cons p ps ih =>
    rw [List.length_cons, Nat.mul_succ] at fits same
    constructor
    · apply has.1.of_eq (word_fits p)
      intro x inside
      rw [bytesOf_length] at inside
      exact same x (inside.le (Nat.le_add_left _ _))
    · apply ih (Nat.le_of_add_right_le fits) _ has.2
      intro x inside
      rw [span_shift (by omega)] at inside
      apply same x
      unfold Span
      omega

/-- Pointers to the strings make a list, if no string lies at the null pointer. -/
theorem shows_of {mem : Bytes (8 * ptrSize)} (slots : HasSlots mem a (starts p ss))
    (strings : Has mem p (packed ss)) (nonnull : ¬ Span p (total ss) 0) : Shows mem a ss := by
  induction ss generalizing a p with
  | nil =>
    have word : wordAt mem a = 0 := wordAt_of_has slots.1
    exact congrArg (fun w => (w, false)) word
  | cons t ss ih =>
    rw [packed_cons, has_append, packed_length] at strings
    rw [total_cons] at nonnull
    have word : wordAt mem a = p := wordAt_of_has slots.1
    refine ⟨p, ?_, congrArg (fun w => (w, false)) word, strings.1, ?_⟩
    · intro null
      rw [null] at nonnull
      exact nonnull (Span.first (by omega))
    · apply ih slots.2 strings.2
      intro inside
      exact nonnull (span_append.2 (Or.inr inside))

end Slots

/-! ## One list -/

section Block
variable [Target] {q : Space} {b : Argblk} {ptr : Addr} {ss : List CString} {cs : List UInt8} {k : Nat}

theorem buf_putAll_below (i : Nat) (below : i < k) : (b.putAll k cs).buf i = b.buf i := by
  induction cs generalizing b k with
  | nil => rfl
  | cons c cs ih =>
    have rest := ih (b := b.put k c) (k := k + 1) (Nat.lt_succ_of_lt below)
    have apart : i ≠ k := Nat.ne_of_lt below
    have first : (b.put k c).buf i = b.buf i := if_neg apart
    exact rest.trans first

theorem window_putAll : Window (b.putAll k cs).buf k cs := by
  induction cs generalizing b k with
  | nil => trivial
  | cons c cs ih =>
    refine ⟨?_, ih⟩
    have kept := @buf_putAll_below _ (b.put k c) cs (k + 1) k (Nat.lt_succ_self k)
    have stored : (b.put k c).buf k = c := if_pos rfl
    exact kept.trans stored

/-- The buffer holds the list, with its sizes. -/
structure Packs (b : Argblk) (ss : List CString) : Prop where
  count : b.argc = ss.length
  size : (if wide then b.arglen else alignUp b.arglen) = stringsSize ss
  strings : Window b.buf 0 (packed ss)
  short : total ss ≤ 500

theorem packs_of_rargs {s : Space} {argv : Addr} {buf : Nat → UInt8} (held : s.Holds argv ss)
    (accepted : rargs s argv buf = (none, b)) : Packs b ss := by
  by_cases fits : total ss ≤ limit
  · rw [rargs_fits held fits] at accepted
    have same := congrArg Prod.snd accepted
    dsimp only at same
    rw [← same]
    rw [limit_eq] at fits
    constructor
    · rfl
    · unfold stringsSize padded
      split
      · rfl
      · rfl
    · exact window_putAll
    · exact fits
  · obtain ⟨n, refused⟩ := rargs_big held (Nat.lt_of_not_le fits)
    rw [refused] at accepted
    exact absurd (congrArg Prod.fst accepted) (Option.some_ne_none E2BIG)

def blockSize (ss : List CString) : Nat := pointersSize ss + stringsSize ss

theorem length_le_total (ss : List CString) : ss.length ≤ total ss := by
  induction ss with
  | nil => exact Nat.zero_le _
  | cons t ss ih =>
    rw [List.length_cons, total_cons]
    omega

theorem stringsSize_bounds (ss : List CString) :
    total ss ≤ stringsSize ss ∧ stringsSize ss ≤ total ss + 1 ∧ (total ss = 0 → stringsSize ss = 0) := by
  unfold stringsSize padded alignUp
  split
  · omega
  · split
    · omega
    · omega

theorem blockSize_small (short : total ss ≤ 500) : blockSize ss ≤ 2505 := by
  have strings := stringsSize_bounds ss
  have count := length_le_total ss
  have pointers : ptrSize * (ss.length + 1) ≤ 4 * 501 :=
    Nat.mul_le_mul (by rcases ptrSize_cases with two | four <;> omega) (by omega)
  unfold blockSize pointersSize
  omega

theorem stringBase_eq : stringBase ptr ss = argBase ptr ss + BitVec.ofNat _ (pointersSize ss) :=
  (BitVec.sub_add_cancel _ _).symm

theorem ptr_eq : ptr = argBase ptr ss + BitVec.ofNat _ (blockSize ss) := by
  unfold blockSize
  rw [← add_ofNat_ofNat, ← stringBase_eq]
  exact (BitVec.sub_add_cancel _ _).symm

/-- The bytes that go out of the buffer at once. -/
def stringBytes (b : Argblk) (n : Nat) : List UInt8 := (List.range n).map b.buf

theorem stringBytes_length (n : Nat) : (stringBytes b n).length = n := by
  unfold stringBytes
  rw [List.length_map, List.length_range]

/-- The strings are in memory, or refused. -/
def stringsPut (q : Space) (ptr : Addr) (b : Argblk) (ss : List CString) : Space :=
  if stringsSize ss = 0 then q else q.uput (stringBytes b (stringsSize ss)) (stringBase ptr ss)

theorem wargs_eq (packs : Packs b ss) : wargs q ptr b = (argBase ptr ss, ss.length,
    putSlots (stringsPut q ptr b ss) (argBase ptr ss) (starts (stringBase ptr ss) ss)) := by
  have short : total ss ≤ sizeofArgblk := Nat.le_trans packs.short (by decide)
  have pointers := setPointers_eq (q := stringsPut q ptr b ss) (a := argBase ptr ss)
    (p := stringBase ptr ss) packs.strings short
  rw [← pointers]
  unfold wargs
  rw [packs.size, packs.count]
  rfl

@[simp] theorem valid_stringsPut : (stringsPut q ptr b ss).valid = q.valid := by
  unfold stringsPut
  split
  · rfl
  · exact valid_uput _

theorem window_bytes {n : Nat} (held : Window b.buf k cs) (le : cs.length ≤ n) :
    ∃ rest, (List.range' k n).map b.buf = cs ++ rest := by
  induction cs generalizing k n with
  | nil => exact ⟨_, rfl⟩
  | cons c cs ih =>
    cases n with
    | zero => exact absurd le (Nat.not_succ_le_zero _)
    | succ n =>
      obtain ⟨rest, same⟩ := ih held.2 (Nat.le_of_succ_le_succ le)
      refine ⟨rest, ?_⟩
      rw [List.range'_succ, List.map_cons, same, held.1]
      rfl

/-- The strings are where their first pointer leads. -/
theorem stringsPut_has (packs : Packs b ss)
    (accepted : stringsSize ss ≠ 0 → q.valid (stringBase ptr ss) (stringsSize ss) = true) :
    Has (stringsPut q ptr b ss).mem (stringBase ptr ss) (packed ss) := by
  have bounds := stringsSize_bounds ss
  by_cases nothing : stringsSize ss = 0
  · have zero : (packed ss).length = 0 := by
      have here : total ss = (packed ss).length := rfl
      omega
    rw [List.length_eq_zero_iff.1 zero]
    trivial
  · obtain ⟨rest, same⟩ := window_bytes packs.strings bounds.1
    have bytes : stringBytes b (stringsSize ss) = packed ss ++ rest := by
      unfold stringBytes
      rw [List.range_eq_range', same]
    have large := space_large
    have small := blockSize_small packs.short
    have fits : (stringBytes b (stringsSize ss)).length ≤ 2 ^ (8 * ptrSize) := by
      rw [stringBytes_length]
      unfold blockSize at small
      omega
    have stored := uput_has (q := q) (a := stringBase ptr ss) fits
      (by rw [stringBytes_length]; exact accepted nothing)
    unfold stringsPut
    rw [if_neg nothing]
    rw [bytes] at stored ⊢
    exact (has_append.1 stored).1

theorem stringsPut_outside {x : Addr} (short : total ss ≤ 500)
    (outside : ¬ Span (stringBase ptr ss) (stringsSize ss) x) : (stringsPut q ptr b ss).mem x = q.mem x := by
  have large := space_large
  have small := blockSize_small short
  unfold blockSize at small
  unfold stringsPut
  split
  · rfl
  · apply uput_outside
    · rw [stringBytes_length]
      omega
    · rw [stringBytes_length]
      exact outside

section Places
variable {x : Addr}

/-- Where a slot is in the block. -/
theorem slot_span (short : total ss ≤ 500) {i : Nat} (le : i ≤ ss.length) :
    Span (slot (argBase ptr ss) i) ptrSize x ↔
      ptrSize * i ≤ (x - argBase ptr ss).toNat ∧ (x - argBase ptr ss).toNat < ptrSize * i + ptrSize := by
  have large := space_large
  have small := blockSize_small short
  have inside : ptrSize * (i + 1) ≤ ptrSize * (ss.length + 1) := Nat.mul_le_mul_left _ (Nat.succ_le_succ le)
  rw [Nat.mul_succ] at inside
  unfold blockSize pointersSize at small
  exact span_shift (by omega)

theorem slot_below {i : Nat} (le : i ≤ ss.length) : ptrSize * i + ptrSize ≤ pointersSize ss := by
  have inside : ptrSize * (i + 1) ≤ ptrSize * (ss.length + 1) := Nat.mul_le_mul_left _ (Nat.succ_le_succ le)
  rw [Nat.mul_succ] at inside
  exact inside

/-- Where the strings are in the block. -/
theorem strings_span (short : total ss ≤ 500) : Span (stringBase ptr ss) (stringsSize ss) x ↔
    pointersSize ss ≤ (x - argBase ptr ss).toNat ∧ (x - argBase ptr ss).toNat < blockSize ss := by
  have large := space_large
  have small := blockSize_small short
  unfold blockSize at small
  rw [stringBase_eq]
  exact span_shift (by omega)

theorem wargs_outside (packs : Packs b ss) (outside : ¬ Span (argBase ptr ss) (blockSize ss) x) :
    (wargs q ptr b).2.2.mem x = q.mem x := by
  rw [wargs_eq packs]
  have slots : (putSlots (stringsPut q ptr b ss) (argBase ptr ss) (starts (stringBase ptr ss) ss)).mem x =
      (stringsPut q ptr b ss).mem x := by
    apply putSlots_keeps
    intro i lt inside
    rw [starts_length] at lt
    rw [slot_span packs.short (Nat.le_of_lt_succ lt)] at inside
    have below : ptrSize * i + ptrSize ≤ pointersSize ss := slot_below (Nat.le_of_lt_succ lt)
    unfold Span blockSize at outside
    omega
  have strings : ¬ Span (stringBase ptr ss) (stringsSize ss) x := by
    rw [strings_span packs.short]
    intro inside
    exact outside inside.2
  exact slots.trans (stringsPut_outside packs.short strings)

/-- No pointer is stored among the strings. -/
theorem putSlots_strings (short : total ss ≤ 500) {ps : List Addr} (count : ps.length = ss.length + 1)
    (inside : Span (stringBase ptr ss) (stringsSize ss) x) :
    (putSlots q (argBase ptr ss) ps).mem x = q.mem x := by
  apply putSlots_keeps
  intro i lt slot
  rw [count] at lt
  rw [slot_span short (Nat.le_of_lt_succ lt)] at slot
  rw [strings_span short] at inside
  have below : ptrSize * i + ptrSize ≤ pointersSize ss := slot_below (Nat.le_of_lt_succ lt)
  omega

end Places

section Result
variable {F : Bytes (8 * ptrSize)}

/-- The memory is the one after the call, as far as the block goes. -/
def Same (q : Space) (ptr : Addr) (b : Argblk) (ss : List CString) (F : Bytes (8 * ptrSize)) : Prop :=
  ∀ x, Span (argBase ptr ss) (blockSize ss) x → F x = (wargs q ptr b).2.2.mem x

/-- If every slot may be written, the pointers are there. -/
theorem slots_of_room (packs : Packs b ss) (same : Same q ptr b ss F)
    (accepted : ∀ i, i ≤ ss.length → q.valid (slot (argBase ptr ss) i) ptrSize = true) :
    HasSlots F (argBase ptr ss) (starts (stringBase ptr ss) ss) := by
  have large := space_large
  have small := blockSize_small packs.short
  have size : ptrSize * (starts (stringBase ptr ss) ss).length = pointersSize ss := by
    rw [starts_length]
    rfl
  unfold blockSize at small
  have fits : ptrSize * (starts (stringBase ptr ss) ss).length ≤ 2 ^ (8 * ptrSize) := by omega
  have stored : HasSlots (putSlots (stringsPut q ptr b ss) (argBase ptr ss)
      (starts (stringBase ptr ss) ss)).mem (argBase ptr ss) (starts (stringBase ptr ss) ss) := by
    apply putSlots_has fits
    intro i lt
    rw [starts_length] at lt
    rw [valid_stringsPut]
    exact accepted i (Nat.le_of_lt_succ lt)
  apply stored.of_eq fits
  intro x inside
  rw [size] at inside
  have here := same x (inside.le (Nat.le_add_right _ _))
  rw [wargs_eq packs] at here
  exact here

/-- With room for the block the list is found there. -/
theorem shows_of_room (packs : Packs b ss) (same : Same q ptr b ss F) (room : Room q.valid ptr ss) :
    Shows F (argBase ptr ss) ss := by
  have large := space_large
  have small := blockSize_small packs.short
  have bounds := stringsSize_bounds ss
  unfold blockSize at small
  apply shows_of (slots_of_room packs same room.2)
  · apply (stringsPut_has packs room.1).of_eq
    · show total ss ≤ _
      omega
    · intro x inside
      have strings : Span (stringBase ptr ss) (stringsSize ss) x := inside.le bounds.1
      have here := same x ((strings_span packs.short).1 strings).2
      rw [wargs_eq packs] at here
      exact here.trans (putSlots_strings packs.short (starts_length _ ss) strings)
  · intro null
    by_cases nothing : stringsSize ss = 0
    · have zero : total ss = 0 := by omega
      rw [zero] at null
      exact not_span_zero null
    · exact q.sound _ _ (by omega) (room.1 nothing) (null.le bounds.1)

/-- A refused pointer leaves bytes that are no such list. -/
theorem not_shows_of_slot (packs : Packs b ss) (same : Same q ptr b ss F) {i : Nat} (le : i ≤ ss.length)
    (refused : q.valid (slot (argBase ptr ss) i) ptrSize = false) {v : UInt8}
    (before : ∀ x, Span (argBase ptr ss) (blockSize ss) x → q.mem x = v) (other : v = 0 ↔ i ≠ ss.length) :
    ¬ Shows F (argBase ptr ss) ss := by
  intro shown
  have below := slot_below le
  have left : ∀ x, Span (slot (argBase ptr ss) i) ptrSize x → F x = v := by
    intro x inside
    have place := (slot_span packs.short le).1 inside
    have block : Span (argBase ptr ss) (blockSize ss) x := by
      unfold Span blockSize
      omega
    have strings : ¬ Span (stringBase ptr ss) (stringsSize ss) x := by
      rw [strings_span packs.short]
      omega
    have kept : (putSlots (stringsPut q ptr b ss) (argBase ptr ss) (starts (stringBase ptr ss) ss)).mem x =
        (stringsPut q ptr b ss).mem x := by
      apply putSlots_keeps
      intro j lt there
      rw [starts_length] at lt
      have place' := (slot_span packs.short (Nat.le_of_lt_succ lt)).1 there
      have one : j = i := by
        rcases Nat.lt_trichotomy j i with lower | equal | higher
        · have step := Nat.mul_le_mul_left ptrSize (Nat.succ_le_of_lt lower)
          rw [Nat.mul_succ] at step
          omega
        · exact equal
        · have step := Nat.mul_le_mul_left ptrSize (Nat.succ_le_of_lt higher)
          rw [Nat.mul_succ] at step
          omega
      rw [one, valid_stringsPut]
      exact refused
    have here := same x block
    rw [wargs_eq packs] at here
    exact here.trans (kept.trans ((stringsPut_outside packs.short strings).trans (before x block)))
  have null := (wordAt_same left).symm.trans (shown.words i le)
  by_cases last : i = ss.length
  · exact other.1 (null.2 last) last
  · exact last (null.1 (other.2 last))

/-- Refused strings leave no end of the first one. -/
theorem not_shows_of_strings (packs : Packs b ss) (same : Same q ptr b ss F)
    (accepted : ∀ i, i ≤ ss.length → q.valid (slot (argBase ptr ss) i) ptrSize = true)
    (some_bytes : stringsSize ss ≠ 0) (refused : q.valid (stringBase ptr ss) (stringsSize ss) = false)
    (before : ∀ x, Span (argBase ptr ss) (blockSize ss) x → q.mem x = 1) :
    ¬ Shows F (argBase ptr ss) ss := by
  intro shown
  have bounds := stringsSize_bounds ss
  have slots := slots_of_room packs same accepted
  have nothing_put : stringsPut q ptr b ss = q := by
    unfold stringsPut
    rw [if_neg some_bytes]
    exact uput_refused (by rw [stringBytes_length]; exact refused)
  have left : ∀ x, Span (stringBase ptr ss) (stringsSize ss) x → F x = 1 := by
    intro x inside
    have block : Span (argBase ptr ss) (blockSize ss) x := ((strings_span packs.short).1 inside).2
    have here := same x block
    rw [wargs_eq packs, nothing_put] at here
    exact here.trans ((putSlots_strings packs.short (starts_length _ ss) inside).trans (before x block))
  cases ss with
  | nil => exact some_bytes (bounds.2.2 rfl)
  | cons t ss =>
    have word : wordAt F (argBase ptr (t :: ss)) = stringBase ptr (t :: ss) := wordAt_of_has slots.1
    have first := shown.first
    rw [word] at first
    have ending := (has_append.1 first).2.1
    rw [total_cons] at bounds
    have large := space_large
    have small := blockSize_small packs.short
    unfold blockSize at small
    have inside : Span (stringBase ptr (t :: ss)) (stringsSize (t :: ss))
        (stringBase ptr (t :: ss) + BitVec.ofNat _ t.bytes.length) := by
      have one := Span.first (a := stringBase ptr (t :: ss) + BitVec.ofNat _ t.bytes.length) Nat.one_pos
      rw [span_shift (by omega)] at one
      unfold Span
      omega
    rw [left _ inside] at ending
    cases ending

/-- Without room there are bytes that the call leaves and that are no such list. -/
theorem not_shows_of_full (packs : Packs b ss) {valid : Addr → Nat → Bool} (full : ¬ Room valid ptr ss) :
    ∃ v : UInt8, ∀ q : Space, q.valid = valid →
      (∀ x, Span (argBase ptr ss) (blockSize ss) x → q.mem x = v) →
      ∀ F, Same q ptr b ss F → ¬ Shows F (argBase ptr ss) ss := by
  by_cases slots : ∀ i, i ≤ ss.length → valid (slot (argBase ptr ss) i) ptrSize = true
  · have strings : ¬ (stringsSize ss ≠ 0 → valid (stringBase ptr ss) (stringsSize ss) = true) :=
      fun accepted => full ⟨accepted, slots⟩
    rw [Classical.not_imp] at strings
    refine ⟨1, ?_⟩
    intro q same_valid before F same
    apply not_shows_of_strings packs same _ strings.1 _ before
    · rw [same_valid]
      exact slots
    · rw [same_valid]
      exact eq_false_of_ne_true strings.2
  · rw [not_forall] at slots
    obtain ⟨i, slot⟩ := slots
    rw [Classical.not_imp] at slot
    refine ⟨if i = ss.length then 1 else 0, ?_⟩
    intro q same_valid before F same
    apply not_shows_of_slot packs same slot.1 _ before
    · by_cases last : i = ss.length
      · rw [if_pos last]
        exact iff_of_false (by decide) (fun apart => apart last)
      · rw [if_neg last]
        exact iff_of_true rfl last
    · rw [same_valid]
      exact eq_false_of_ne_true slot.2

end Result

end Block

/-! ## Arguments and environment -/

section Both
variable [Target] {q : Space} {a e : Argblk} {ptr x : Addr} {args envs : List CString}

theorem stack_eq (packs : Packs a args) (packs' : Packs e envs) :
    stack q ptr a e = ⟨argBase ptr args, args.length, argBase (argBase ptr args) envs,
      (wargs (wargs q ptr a).2.2 (argBase ptr args) e).2.2⟩ := by
  have first : (wargs q ptr a).1 = argBase ptr args := by rw [wargs_eq packs]
  have count : (wargs q ptr a).2.1 = args.length := by rw [wargs_eq packs]
  unfold stack
  dsimp only
  have second : (wargs (wargs q ptr a).2.2 (argBase ptr args) e).1 = argBase (argBase ptr args) envs := by
    rw [wargs_eq packs']
  rw [first, count, second]

/-- The two blocks lie one above the other. -/
theorem blocks_apart (packs : Packs a args) (packs' : Packs e envs)
    (upper : Span (argBase ptr args) (blockSize args) x) :
    ¬ Span (argBase (argBase ptr args) envs) (blockSize envs) x := by
  intro lower
  have large := space_large
  have small := blockSize_small packs.short
  have small' := blockSize_small packs'.short
  have next : argBase ptr args = argBase (argBase ptr args) envs + BitVec.ofNat _ (blockSize envs) := ptr_eq
  rw [next] at upper
  exact span_apart (by omega) lower upper

/-- Both blocks together reach up to where the first call started. -/
theorem both_size (packs : Packs a args) (packs' : Packs e envs) :
    (ptr - argBase (argBase ptr args) envs).toNat = blockSize envs + blockSize args := by
  have large := space_large
  have small := blockSize_small packs.short
  have small' := blockSize_small packs'.short
  have next : argBase ptr args = argBase (argBase ptr args) envs + BitVec.ofNat _ (blockSize envs) := ptr_eq
  have reach : ptr = argBase (argBase ptr args) envs + BitVec.ofNat _ (blockSize envs + blockSize args) := by
    rw [← add_ofNat_ofNat, ← next]
    exact ptr_eq
  generalize argBase (argBase ptr args) envs = base at reach
  rw [reach, BitVec.add_comm, BitVec.add_sub_cancel, BitVec.toNat_ofNat]
  exact Nat.mod_eq_of_lt (by omega)

theorem valid_wargs (packs : Packs a args) : (wargs q ptr a).2.2.valid = q.valid := by
  rw [wargs_eq packs]
  exact valid_putSlots.trans valid_stringsPut

/-- The memory after both calls, seen from the first block. -/
theorem same_first (packs : Packs a args) (packs' : Packs e envs) :
    Same q ptr a args (wargs (wargs q ptr a).2.2 (argBase ptr args) e).2.2.mem := by
  intro x upper
  exact wargs_outside packs' (blocks_apart packs packs' upper)

/-- The program finds its arguments and its environment, whatever was in its memory, if and
only if no copy is refused. -/
theorem stack_decodes {caller : Space} {argv envp : Addr} {bufA bufE : Nat → UInt8}
    (argsHeld : caller.Holds argv args) (envsHeld : caller.Holds envp envs)
    (argsRead : rargs caller argv bufA = (none, a)) (envsRead : rargs caller envp bufE = (none, e))
    (valid : Addr → Nat → Bool)
    (sound : ∀ a n, n < 2 ^ (8 * ptrSize) → valid a n = true → ¬ Span a n 0) (ptr : Addr) :
    (∀ mem, Laid ⟨mem, valid, sound⟩ ptr args envs (stack ⟨mem, valid, sound⟩ ptr a e)) ↔
      Room valid ptr args ∧ Room valid (argBase ptr args) envs := by
  have packs := packs_of_rargs argsHeld argsRead
  have packs' := packs_of_rargs envsHeld envsRead
  constructor
  · intro laid
    constructor
    · by_contra full
      obtain ⟨v, never⟩ := not_shows_of_full packs full
      have found := (laid fun _ => v).argv
      rw [stack_eq packs packs', decodes_iff] at found
      exact never _ rfl (fun _ _ => rfl) _ (same_first packs packs') found
    · by_contra full
      obtain ⟨v, never⟩ := not_shows_of_full packs' full
      have found := (laid fun _ => v).envp
      rw [stack_eq packs packs', decodes_iff] at found
      apply never _ (valid_wargs packs) _ _ (fun _ _ => rfl) found
      intro x lower
      apply wargs_outside packs
      intro upper
      exact blocks_apart packs packs' upper lower
  · rintro ⟨room, room'⟩ mem
    rw [stack_eq packs packs']
    constructor
    · rw [decodes_iff]
      exact shows_of_room packs (same_first packs packs') room
    · rw [decodes_iff]
      apply shows_of_room packs' (fun _ _ => rfl)
      rw [valid_wargs packs]
      exact room'
    · rfl
    · intro x outside
      rw [both_size packs packs'] at outside
      have large := space_large
      have small := blockSize_small packs.short
      have small' := blockSize_small packs'.short
      rw [span_append, not_or, ← ptr_eq] at outside
      exact (wargs_outside packs' outside.1).trans (wargs_outside packs outside.2)

end Both

theorem accepted_eq {r : Option Nat × Argblk} (accepted : r.1 = none) : r = (none, r.2) := by
  rw [← accepted]

theorem stack_decodes_one : ∃ (_ : Target) (q : Space) (ptr : Addr) (a e : Argblk) (args : List CString),
    args.length = 1 ∧ Laid q ptr args [] (stack q ptr a e) := by
  let _ := m68k
  have args : rargs (oneString 3) 0x2000 (fun _ => 0) = (none, (rargs (oneString 3) 0x2000 (fun _ => 0)).2) :=
    accepted_eq (by decide +kernel)
  have envs : rargs (oneString 3) 0x2004 (fun _ => 0) = (none, (rargs (oneString 3) 0x2004 (fun _ => 0)).2) :=
    accepted_eq (by decide +kernel)
  have word : (oneString 3).ugetp 0x2004 = (0, false) := by decide +kernel
  have null : (oneString 3).Holds 0x2004 [] := word
  have room : Room (oneString 3).valid 0xfffc [letters 3] ∧
      Room (oneString 3).valid (argBase 0xfffc [letters 3]) [] := by
    refine ⟨⟨fun _ => by decide +kernel, ?_⟩, fun some_bytes => absurd rfl some_bytes, ?_⟩
    · decide +kernel
    · decide +kernel
  have laid := (stack_decodes oneString_holds_short null args envs (oneString 3).valid (oneString 3).sound
    0xfffc).2 room (oneString 3).mem
  exact ⟨m68k, oneString 3, 0xfffc, _, _, [letters 3], rfl, laid⟩

/-! ## A program with little memory -/

abbrev m6809 : Target := ⟨false, false, false, false⟩

def empty : CString := ⟨[], List.not_mem_nil⟩

theorem listed_empties [Target] {word : Addr → Addr × Bool} {byte : Bytes (8 * ptrSize)} {a p : Addr}
    (n : Nat) (nonzero : p ≠ 0) (ends : byte p = 0)
    (words : ∀ i, i < n → word (slot a i) = (p, false)) (null : word (slot a n) = (0, false)) :
    Listed word byte a (List.replicate n empty) := by
  induction n generalizing a with
  | zero =>
    rw [slot_zero] at null
    exact null
  | succ n ih =>
    have first := words 0 (Nat.succ_pos n)
    rw [slot_zero] at first
    refine ⟨p, nonzero, first, ⟨ends, trivial⟩, ih ?_ ?_⟩
    · intro i lt
      rw [slot_succ]
      exact words (i + 1) (Nat.succ_lt_succ lt)
    · rw [slot_succ]
      exact null

/-- A caller with 350 empty arguments at 0x1000, and none at 0x3000. -/
def manyArgs : @Space m6809 :=
  @Space.user m6809 0x100 0xf000 fun a => if 0x1000 ≤ a.toNat ∧ a.toNat < 0x1000 + 700 then 0x20 else 0

/-- The loader lets a program of 16 bytes run in 1040 bytes from 0x100 on; the pointers to its
350 arguments reach below it, where `valaddr` refuses them. -/
theorem pointers_refused : ∃ (_ : Target) (caller q : Space) (ptr : Addr) (a e : Argblk) (args : List CString),
    caller.Holds 0x1000 args ∧ caller.Holds 0x3000 [] ∧
      rargs caller 0x1000 (fun _ => 0) = (none, a) ∧ rargs caller 0x3000 (fun _ => 0) = (none, e) ∧
      ¬ Laid q ptr args [] (stack q ptr a e) := by
  let _ := m6809
  have held : manyArgs.Holds 0x1000 (List.replicate 350 empty) :=
    listed_empties (p := 0x2020) 350 (by decide) (by decide +kernel) (by decide +kernel) (by decide +kernel)
  have word : manyArgs.ugetp 0x3000 = (0, false) := by decide +kernel
  have null : manyArgs.Holds 0x3000 [] := word
  have args : rargs manyArgs 0x1000 (fun _ => 0) = (none, (rargs manyArgs 0x1000 (fun _ => 0)).2) :=
    accepted_eq (by decide +kernel)
  have envs : rargs manyArgs 0x3000 (fun _ => 0) = (none, (rargs manyArgs 0x3000 (fun _ => 0)).2) :=
    accepted_eq (by decide +kernel)
  have packs := packs_of_rargs held args
  have packs' := packs_of_rargs null envs
  refine ⟨m6809, manyArgs, Space.user 0x100 0x510 (fun _ => 0), 0x50e, _, _, _, held, null, args, envs, ?_⟩
  intro laid
  have found := laid.argv
  rw [stack_eq packs packs', decodes_iff] at found
  have other : (0 : UInt8) = 0 ↔ 0 ≠ (List.replicate 350 empty).length := by
    rw [List.length_replicate]
    decide
  have refused : (Space.user 0x100 0x510 fun _ => 0).valid
      (slot (argBase 0x50e (List.replicate 350 empty)) 0) ptrSize = false := by decide +kernel
  exact not_shows_of_slot packs (same_first packs packs') (Nat.zero_le _) refused (fun _ _ => rfl) other found

end Args
