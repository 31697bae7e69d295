import Fuzix.Lib.Memory
import Fuzix.Lib.Run

/-!
# The allocator tinymalloc

`malloc`, `free` and `realloc` of tinymalloc.c for a processor with addresses of 16 bits.
Each block begins with the link to the block before it. Whether `brk` finds the memory is
given with each call. The blocks handed out are recorded as history, the last one first.
-/

namespace Tinymalloc

open Memory Run

abbrev Addr := BitVec 16

/-- What a call of `malloc` handed out, with the place of its link, and the break and the
`last` block before it. -/
structure Block where
  link : Addr
  ptr : Addr
  size : Nat
  oldbrk : Addr
  oldlast : Addr

structure State where
  mem : Bytes 16
  brk : Addr
  last : Addr
  /-- The process was ended by `exit(1)`. -/
  ended : Bool
  live : List Block

/-- A program before its first block. -/
def start (mem : Bytes 16) (brk : Addr) : State := ⟨mem, brk, 0, false, []⟩

/-- The answers of the system calls. -/
structure Grants where
  sbrk : Bool
  brk : Bool

def word (mem : Bytes 16) (a : Addr) : Addr := BitVec.ofNat 16 (value (get mem a 2))

def setWord (mem : Bytes 16) (a w : Addr) : Bytes 16 := put mem a (little 2 w.toNat)

/-- The new break, if the memory is there. -/
def dobrk (granted : Bool) (p n : Addr) : Option Addr :=
  if n + 7 < n then none
  else
    let n := (n + 7) &&& ~~~(7 : Addr)
    if p + n < p ∨ granted = false then none else some (p + n)

def State.malloc (s : State) (g : Grants) (n : Addr) : Addr × State :=
  let p := s.brk
  if g.sbrk = false ∨ p = -1 then (0, s)
  else
    match dobrk g.brk p n with
    | none => (0, s)
    | some brk =>
      (p + 1, ⟨setWord s.mem p s.last, brk, p, s.ended, ⟨p, p + 1, n.toNat, s.brk, s.last⟩ :: s.live⟩)

/-- `check`: a word before the last block. -/
def State.check (s : State) (p : Addr) : Bool := p = s.last - 2

def State.exit (s : State) : State := { s with ended := true }

def State.free (s : State) (g : Grants) (p : Addr) : State :=
  if s.check p then
    let n := word s.mem (s.last - 2)
    { s with brk := if g.brk then s.last else s.brk, last := n, live := s.live.tail }
  else s.exit

def State.realloc (s : State) (g : Grants) (pv n : Addr) : Addr × State :=
  if s.check pv then
    match dobrk g.brk (word s.mem (s.last - 2)) n with
    | none => (0, s)
    | some brk => (pv, { s with brk := brk, live := s.live.modifyHead ({ · with size := n.toNat }) })
  else (0, s.exit)

/-! ## Calls in turn -/

inductive Call where
  | store (a : Addr) (b : UInt8)
  | malloc (g : Grants) (n : Addr)
  | free (g : Grants) (p : Addr)
  | realloc (g : Grants) (p n : Addr)

def State.call (s : State) : Call → Addr × State
  | Call.store a b => (0, { s with mem := put s.mem a [b] })
  | Call.malloc g n => s.malloc g n
  | Call.free g p => (0, s.free g p)
  | Call.realloc g p n => s.realloc g p n

/-- A program that has ended makes no calls. -/
def State.step (s : State) (c : Call) : State := if s.ended then s else (s.call c).2

/-- The bytes that the program may use are there, and are not those of the other block or
of its link. -/
def Apart (b c : Block) : Prop :=
  (b.ptr.toNat + b.size ≤ c.ptr.toNat ∨ c.ptr.toNat + c.size ≤ b.ptr.toNat) ∧
    (b.ptr.toNat + b.size ≤ c.link.toNat ∨ c.link.toNat + 2 ≤ b.ptr.toNat)

structure Fine (s : State) : Prop where
  below : ∀ b ∈ s.live, b.ptr.toNat + b.size ≤ s.brk.toNat
  apart : s.live.Pairwise (fun b c => Apart b c ∧ Apart c b)

/-- The block is the last one. -/
def State.Lasts (s : State) (p : Addr) : Prop := ∃ b, s.live.head? = some b ∧ b.ptr = p

/-- What `malloc` and `realloc` leave when there is no memory. -/
def Unchanged (s t : State) : Prop :=
  t.mem = s.mem ∧ t.brk = s.brk ∧ t.last = s.last ∧ t.ended = s.ended ∧ t.live = s.live

/-- The break and the block before are as they were before the block was handed out. -/
def Released (s t : State) : Prop :=
  t.ended = false ∧ t.mem = s.mem ∧ ∀ b, s.live.head? = some b →
    t.brk = b.oldbrk ∧ t.last = b.oldlast ∧ t.live = s.live.tail

structure Right (s : State) (c : Call) : Prop where
  fine : Fine (s.step c)
  malloc : ∀ g n, c = Call.malloc g n →
    ((s.call c).1 = 0 → Unchanged s (s.step c)) ∧
    ((s.call c).1 ≠ 0 → ∃ b, (s.step c).live = b :: s.live ∧ b.ptr = (s.call c).1 ∧
      b.size = n.toNat ∧ ∀ x : Addr, x < s.brk → (s.step c).mem x = s.mem x)
  free : ∀ g p, c = Call.free g p →
    (s.Lasts p → Released s (s.step c)) ∧ (¬ s.Lasts p → (s.step c).ended = true)
  realloc : ∀ g p n, c = Call.realloc g p n →
    (s.Lasts p → ((s.call c).1 = 0 → Unchanged s (s.step c)) ∧
      ((s.call c).1 ≠ 0 → (s.call c).1 = p ∧ (s.step c).ended = false)) ∧
    (¬ s.Lasts p → (s.step c).ended = true)

/-- `malloc` finds the memory. -/
def Found (s : State) (g : Grants) (n : Addr) : Prop :=
  g.sbrk = true ∧ s.brk ≠ -1 ∧ (dobrk g.brk s.brk n).isSome

/-- No block is given back or resized, and the size of each block leaves a byte of the
rounding for the pointer that is one byte behind the link. -/
def Clean (s : State) : Call → Prop
  | Call.store _ _ => True
  | Call.malloc g n => Found s g n → n.toNat % 8 ≠ 0
  | Call.free _ p => ¬ s.Lasts p ∧ p ≠ s.last - 2
  | Call.realloc _ p _ => ¬ s.Lasts p ∧ p ≠ s.last - 2

/-- What is asked of a call as long as the program runs. -/
def Running (good : State → Call → Prop) (s : State) (c : Call) : Prop := s.ended = false → good s c

/-! ## The new break -/

theorem seven : ∀ i : Fin 16, (7 : Addr)[i.val] = decide (i.val < 3) := by decide

theorem cleared (x : Addr) : x &&& ~~~(7 : Addr) = (x >>> 3) <<< 3 := by
  ext i hi
  rw [BitVec.getElem_and, BitVec.getElem_not, BitVec.getElem_shiftLeft, seven ⟨i, hi⟩]
  by_cases low : i < 3
  · simp [low]
  · have back : 3 + (i - 3) = i := by omega
    simp only [low, decide_false, Bool.not_false, Bool.and_true, Bool.true_and,
      BitVec.getElem_ushiftRight, back]
    rw [BitVec.getLsbD_eq_getElem hi]

/-- The size is rounded up to the next multiple of eight. -/
theorem rounded {n : Addr} (whole : ¬ n + 7 < n) :
    ((n + 7) &&& ~~~(7 : Addr)).toNat = (n.toNat + 7) / 8 * 8 := by
  have seven : (7 : Addr).toNat = 7 := rfl
  have bound := n.isLt
  have sum : (n + 7).toNat = n.toNat + 7 := by
    have less : ¬ (n + 7).toNat < n.toNat := fun less => whole (BitVec.lt_def.mpr less)
    rw [BitVec.toNat_add, seven] at *
    omega
  have short := (n + 7).isLt
  rw [cleared, BitVec.toNat_shiftLeft, BitVec.toNat_ushiftRight, sum, Nat.shiftLeft_eq,
    Nat.shiftRight_eq_div_pow]
  omega

theorem dobrk_some {granted : Bool} {p n brk : Addr} (found : dobrk granted p n = some brk) :
    brk.toNat = p.toNat + (n.toNat + 7) / 8 * 8 := by
  unfold dobrk at found
  by_cases wraps : n + 7 < n
  · rw [if_pos wraps] at found
    cases found
  · rw [if_neg wraps] at found
    have size := rounded wraps
    generalize (n + 7) &&& ~~~(7 : Addr) = m at found size
    by_cases refused : p + m < p ∨ granted = false
    · simp only [if_pos refused] at found
      cases found
    · simp only [if_neg refused, Option.some.injEq] at found
      have above : ¬ (p + m).toNat < p.toNat :=
        fun less => refused (Or.inl (BitVec.lt_def.mpr less))
      have bound := p.isLt
      have short := m.isLt
      rw [BitVec.toNat_add] at above
      rw [← found, BitVec.toNat_add]
      omega

/-! ## The blocks -/

/-- The blocks lie below each other, each with its link and the bytes it was asked for. -/
def Stacked : List Block → Addr → Prop
  | [], _ => True
  | b :: rest, top => b.ptr = b.link + 1 ∧ b.link.toNat + 2 ≤ top.toNat ∧
      b.link.toNat + 1 + b.size ≤ top.toNat ∧ Stacked rest b.link

theorem Stacked.member {live : List Block} {top : Addr} (stacked : Stacked live top) {b : Block}
    (listed : b ∈ live) : b.ptr.toNat = b.link.toNat + 1 ∧ b.link.toNat + 2 ≤ top.toNat ∧
      b.link.toNat + 1 + b.size ≤ top.toNat := by
  induction live generalizing top with
  | nil => cases listed
  | cons c rest ih =>
    obtain ⟨ptr, link, size, later⟩ := stacked
    have bound := top.isLt
    rcases List.mem_cons.mp listed with same | old
    · rw [same]
      refine ⟨?_, link, size⟩
      have one : (1 : Addr).toNat = 1 := rfl
      rw [ptr, BitVec.toNat_add, one]
      omega
    · have lower := ih later old
      omega

theorem Stacked.pairwise {live : List Block} {top : Addr} (stacked : Stacked live top) :
    live.Pairwise (fun b c => Apart b c ∧ Apart c b) := by
  induction live generalizing top with
  | nil => exact List.Pairwise.nil
  | cons b rest ih =>
    have here := stacked.member List.mem_cons_self
    have later := stacked.2.2.2
    refine List.Pairwise.cons ?_ (ih later)
    intro c old
    have lower := later.member old
    unfold Apart
    omega

structure Inv (s : State) : Prop where
  stacked : Stacked s.live s.brk
  last : ∀ b, s.live.head? = some b → s.last = b.link

theorem Inv.fine {s : State} (inv : Inv s) : Fine s := by
  constructor
  · intro b listed
    have here := inv.stacked.member listed
    omega
  · exact inv.stacked.pairwise

/-- The pointer of the last block is not the one that `check` lets through. -/
theorem Inv.refuses {s : State} (inv : Inv s) {p : Addr} (lasts : s.Lasts p) : p ≠ s.last - 2 := by
  obtain ⟨b, head, ptr⟩ := lasts
  have link := inv.last b head
  have member := inv.stacked.member (List.mem_of_head? head)
  intro same
  rw [link] at same
  have distance := congrArg BitVec.toNat same
  have two : (2 : Addr).toNat = 2 := rfl
  rw [BitVec.toNat_sub, two, ← ptr] at distance
  have bound := b.link.isLt
  omega

/-! ## What a call does -/

theorem malloc_none {s : State} {g : Grants} {n : Addr} (missing : ¬ Found s g n) :
    s.malloc g n = (0, s) := by
  unfold State.malloc
  by_cases early : g.sbrk = false ∨ s.brk = -1
  · exact if_pos early
  · rw [not_or, Bool.not_eq_false] at early
    have none : dobrk g.brk s.brk n = none := by
      by_contra there
      exact missing ⟨early.1, early.2, Option.isSome_iff_ne_none.mpr there⟩
    simp only [early.1, early.2, none, Bool.true_eq_false, or_self, if_false]

theorem malloc_some {s : State} {g : Grants} {n : Addr} (found : Found s g n) :
    ∃ brk, brk.toNat = s.brk.toNat + (n.toNat + 7) / 8 * 8 ∧
      s.malloc g n = (s.brk + 1, ⟨setWord s.mem s.brk s.last, brk, s.brk, s.ended,
        ⟨s.brk, s.brk + 1, n.toNat, s.brk, s.last⟩ :: s.live⟩) := by
  obtain ⟨known, usable, there⟩ := found
  obtain ⟨brk, new⟩ := Option.isSome_iff_exists.mp there
  refine ⟨brk, dobrk_some new, ?_⟩
  unfold State.malloc
  simp only [known, usable, new, Bool.true_eq_false, or_self, if_false]

theorem pointer_ne_zero {p : Addr} (usable : p ≠ -1) : p + 1 ≠ 0 := by
  intro zero
  apply usable
  have back := BitVec.add_sub_cancel p 1
  rw [zero] at back
  exact back.symm.trans (BitVec.zero_sub 1)

theorem step_running {s : State} {c : Call} (running : s.ended = false) : s.step c = (s.call c).2 := by
  unfold State.step
  rw [running]
  rfl

theorem free_refused {s : State} {g : Grants} {p : Addr} (other : p ≠ s.last - 2) :
    s.free g p = s.exit := by
  have wrong : ¬ s.check p = true := fun same => other (of_decide_eq_true same)
  exact if_neg wrong

theorem free_accepted (s : State) (g : Grants) : (s.free g (s.last - 2)).ended = s.ended := by
  have right : s.check (s.last - 2) = true := decide_eq_true rfl
  unfold State.free
  rw [if_pos right]

theorem realloc_refused {s : State} {g : Grants} {p : Addr} (n : Addr) (other : p ≠ s.last - 2) :
    s.realloc g p n = (0, s.exit) := by
  have wrong : ¬ s.check p = true := fun same => other (of_decide_eq_true same)
  exact if_neg wrong

theorem realloc_accepted (s : State) (g : Grants) (n : Addr) :
    (s.realloc g (s.last - 2) n).2.ended = s.ended := by
  have right : s.check (s.last - 2) = true := decide_eq_true rfl
  unfold State.realloc
  rw [if_pos right]
  cases dobrk g.brk (word s.mem (s.last - 2)) n with
  | none => rfl
  | some brk => rfl

/-! ## One call -/

section Steps
variable {s : State}

theorem exit_inv (inv : Inv s) : Inv s.exit := ⟨inv.stacked, inv.last⟩

theorem malloc_inv {g : Grants} {n : Addr} (inv : Inv s) (clean : Found s g n → n.toNat % 8 ≠ 0) :
    Inv (s.malloc g n).2 := by
  by_cases found : Found s g n
  · have odd := clean found
    obtain ⟨brk, new, result⟩ := malloc_some found
    rw [result]
    constructor
    · refine ⟨rfl, ?_, ?_, inv.stacked⟩
      · show s.brk.toNat + 2 ≤ brk.toNat
        omega
      · show s.brk.toNat + 1 + n.toNat ≤ brk.toNat
        omega
    · rintro b head
      cases head
      rfl
  · rw [malloc_none found]
    exact inv

/-- The link is stored above the old break. -/
theorem link_above {mem : Bytes 16} {top w : Addr} (room : top.toNat + 2 < 65536) {x : Addr}
    (below : x < top) : setWord mem top w x = mem x := by
  have low := BitVec.lt_def.mp below
  have length := little_length 2 w.toNat
  apply put_outside
  · rw [length]
    decide
  · rw [length]
    unfold Span
    rw [BitVec.toNat_sub]
    omega

theorem malloc_right {g : Grants} {n : Addr} (running : s.ended = false) (inv : Inv s)
    (clean : Found s g n → n.toNat % 8 ≠ 0) : Right s (Call.malloc g n) := by
  have step : s.step (Call.malloc g n) = (s.malloc g n).2 := step_running running
  constructor
  · rw [step]
    exact (malloc_inv inv clean).fine
  · rintro _ _ ⟨⟩
    have answer : (s.call (Call.malloc g n)).1 = (s.malloc g n).1 := rfl
    rw [step, answer]
    by_cases found : Found s g n
    · have odd := clean found
      obtain ⟨brk, new, result⟩ := malloc_some found
      have bound := brk.isLt
      rw [result]
      constructor
      · intro zero
        exact absurd zero (pointer_ne_zero found.2.1)
      · intro _
        refine ⟨_, rfl, rfl, rfl, ?_⟩
        intro x below
        exact link_above (by omega) below
    · rw [malloc_none found]
      constructor
      · intro _
        exact ⟨rfl, rfl, rfl, rfl, rfl⟩
      · intro nonzero
        exact absurd rfl nonzero
  · rintro _ _ ⟨⟩
  · rintro _ _ _ ⟨⟩

/-- A size that is a multiple of eight leaves no byte for the pointer that is one too high. -/
theorem malloc_wrong {g : Grants} {n : Addr} (running : s.ended = false) (found : Found s g n)
    (even : n.toNat % 8 = 0) : ¬ Right s (Call.malloc g n) := by
  intro right
  have step : s.step (Call.malloc g n) = (s.malloc g n).2 := step_running running
  obtain ⟨brk, new, result⟩ := malloc_some found
  have fine := right.fine
  rw [step, result] at fine
  have below := fine.below _ List.mem_cons_self
  have bound := brk.isLt
  have usable : s.brk.toNat ≠ 65535 := by
    intro top
    apply found.2.1
    exact BitVec.eq_of_toNat_eq top
  have one : (1 : Addr).toNat = 1 := rfl
  have short := s.brk.isLt
  have above : (s.brk + 1).toNat + n.toNat ≤ brk.toNat := below
  rw [BitVec.toNat_add, one] at above
  omega

/-- `free` and `realloc` end the program for the pointer of the last block. Another one
is found out, unless it is a word before the last block. -/
theorem free_iff (g : Grants) (p : Addr) (running : s.ended = false) (inv : Inv s) :
    Right s (Call.free g p) ↔ Clean s (Call.free g p) := by
  have step : s.step (Call.free g p) = s.free g p := step_running running
  constructor
  · intro right
    obtain ⟨released, detected⟩ := right.free g p rfl
    rw [step] at released detected
    constructor
    · intro lasts
      have goes := (released lasts).1
      rw [free_refused (inv.refuses lasts)] at goes
      cases goes
    · intro word
      have other : ¬ s.Lasts p := fun lasts => inv.refuses lasts word
      have ended := detected other
      rw [word, free_accepted, running] at ended
      cases ended
  · rintro ⟨other, apart⟩
    have exits := free_refused (g := g) apart
    constructor
    · rw [step, exits]
      exact (exit_inv inv).fine
    · rintro _ _ ⟨⟩
    · rintro _ _ ⟨⟩
      rw [step, exits]
      exact ⟨fun lasts => absurd lasts other, fun _ => rfl⟩
    · rintro _ _ _ ⟨⟩

theorem realloc_iff (g : Grants) (p n : Addr) (running : s.ended = false) (inv : Inv s) :
    Right s (Call.realloc g p n) ↔ Clean s (Call.realloc g p n) := by
  have step : s.step (Call.realloc g p n) = (s.realloc g p n).2 := step_running running
  have answer : (s.call (Call.realloc g p n)).1 = (s.realloc g p n).1 := rfl
  constructor
  · intro right
    obtain ⟨resized, detected⟩ := right.realloc g p n rfl
    rw [step, answer] at resized
    rw [step] at detected
    constructor
    · intro lasts
      have fails := (resized lasts).1
      rw [realloc_refused n (inv.refuses lasts)] at fails
      have goes := (fails rfl).2.2.2.1
      rw [running] at goes
      cases goes
    · intro word
      have other : ¬ s.Lasts p := fun lasts => inv.refuses lasts word
      have ended := detected other
      rw [word, realloc_accepted, running] at ended
      cases ended
  · rintro ⟨other, apart⟩
    have exits := realloc_refused (g := g) n apart
    constructor
    · rw [step, exits]
      exact (exit_inv inv).fine
    · rintro _ _ ⟨⟩
    · rintro _ _ ⟨⟩
    · rintro _ _ _ ⟨⟩
      rw [step, exits]
      exact ⟨fun lasts => absurd lasts other, fun _ => rfl⟩

theorem store_right (a : Addr) (b : UInt8) (running : s.ended = false) (inv : Inv s) :
    Right s (Call.store a b) := by
  have step : s.step (Call.store a b) = { s with mem := put s.mem a [b] } := step_running running
  constructor
  · rw [step]
    exact ⟨inv.fine.below, inv.fine.apart⟩
  · rintro _ _ ⟨⟩
  · rintro _ _ ⟨⟩
  · rintro _ _ _ ⟨⟩

theorem right_iff {c : Call} (running : s.ended = false) (inv : Inv s) : Right s c ↔ Clean s c := by
  cases c with
  | store a b => exact ⟨fun _ => trivial, fun _ => store_right a b running inv⟩
  | malloc g n =>
    constructor
    · intro right found even
      exact malloc_wrong running found even right
    · exact malloc_right running inv
  | free g p => exact free_iff g p running inv
  | realloc g p n => exact realloc_iff g p n running inv

theorem step_inv {c : Call} (inv : Inv s) (clean : Running Clean s c) : Inv (s.step c) := by
  cases running : s.ended with
  | true =>
    unfold State.step
    rw [running]
    exact inv
  | false =>
    rw [step_running running]
    have clean := clean running
    cases c with
    | store a b => exact ⟨inv.stacked, inv.last⟩
    | malloc g n => exact malloc_inv inv clean
    | free g p =>
      show Inv (s.free g p)
      rw [free_refused clean.2]
      exact exit_inv inv
    | realloc g p n =>
      show Inv (s.realloc g p n).2
      rw [realloc_refused n clean.2]
      exact exit_inv inv

end Steps

/-- In every run from the start, the calls do what they should as long as no block is given
back or resized, no size is a multiple of eight and no pointer a word before the last
block; and not beyond. Even then every block lies on its own link. -/
theorem stack_kept (mem : Bytes 16) (brk : Addr) (calls : List Call) :
    (Throughout State.step (Running Right) (start mem brk) calls ↔
      Throughout State.step (Running Clean) (start mem brk) calls) ∧
    (Throughout State.step (Running Clean) (start mem brk) calls →
      ∀ b ∈ (calls.foldl State.step (start mem brk)).live, b.ptr.toNat = b.link.toNat + 1) := by
  have first : Inv (start mem brk) := by
    constructor
    · trivial
    · intro _ none
      cases none
  have preserved (s : State) (c : Call) (inv : Inv s) (clean : Running Clean s c) : Inv (s.step c) :=
    step_inv inv clean
  constructor
  · apply throughout_iff preserved _ first
    intro s c inv
    constructor
    · intro right running
      exact (right_iff running inv).mp (right running)
    · intro clean running
      exact (right_iff running inv).mpr (clean running)
  · intro clean b listed
    have inv := clean.keeps preserved first
    exact (inv.stacked.member listed).1

/-- A block of three bytes cannot be given back. -/
theorem free_ends_program :
    ¬ Throughout State.step (Running Right) (start (fun _ => 0) 0x4000)
        [Call.malloc ⟨true, true⟩ 3, Call.free ⟨true, true⟩ 0x4001] ∧
      ((start (fun _ => 0) 0x4000).call (Call.malloc ⟨true, true⟩ 3)).1 = 0x4001 := by
  constructor
  · intro right
    have block := (right.2.1 (by decide +kernel)).free ⟨true, true⟩ 0x4001 rfl
    have goes := (block.1 ⟨_, rfl, by decide +kernel⟩).1
    exact absurd goes (by decide +kernel)
  · decide +kernel

end Tinymalloc
