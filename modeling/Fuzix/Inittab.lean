import Fuzix.Lib.Table
import Mathlib.Logic.Function.Iterate

/-!
# The init table

`parse_inittab` of init.c with `parse_initline` and `bad_line`. The text lies in memory from
`base` on and is squashed where it lies. A state is `stray` once a byte outside the text has
been read, or a byte has been stored elsewhere than in text that has been read.
-/

namespace Inittab

open Table

def ascii (c : Char) : UInt8 := UInt8.ofNat c.toNat

def NL : UInt8 := ascii '\n'
def MASK_BOOT : UInt8 := 0x80

/-- The text and where it is loaded, which is not at the null pointer. -/
structure Text where
  base : Nat
  bytes : List UInt8
  low : 0 < base

def Text.size (t : Text) : Nat := t.bytes.length

def Text.Inside (t : Text) (a : Nat) : Prop := t.base ≤ a ∧ a < t.base + t.size

instance (t : Text) (a : Nat) : Decidable (t.Inside a) := by unfold Text.Inside; infer_instance

def Text.sdata_end (t : Text) : Nat := t.base + t.size

/-- Address 0 is the null pointer. -/
structure State where
  mem : Nat → UInt8
  sdata : Nat
  idata : Nat
  ibackup : Nat
  default_rl : Nat
  initcount : Nat
  stray : Bool

/-- A line type of `parse_initline`. -/
structure Keyword where
  word : List Char
  op : UInt8
  /-- The levels are replaced by `MASK_BOOT`. -/
  boot : Bool
  /-- The last level is the default. -/
  initdefault : Bool

/-- In the order of the comparisons. -/
def keywords : List Keyword :=
  [⟨['r', 'e', 's', 'p', 'a', 'w', 'n', ':'], 4, false, false⟩,
   ⟨['w', 'a', 'i', 't', ':'], 0x83, false, false⟩,
   ⟨['o', 'n', 'c', 'e', ':'], 3, false, false⟩,
   ⟨['b', 'o', 'o', 't', ':'], 2, true, false⟩,
   ⟨['b', 'o', 'o', 't', 'w', 'a', 'i', 't', ':'], 0x82, true, false⟩,
   ⟨['o', 'f', 'f', ':'], 0, false, false⟩,
   ⟨['i', 'n', 'i', 't', 'd', 'e', 'f', 'a', 'u', 'l', 't', ':'], 5, false, true⟩,
   ⟨['s', 'y', 's', 'i', 'n', 'i', 't', ':'], 0x81, true, false⟩]

def Keyword.bytes (k : Keyword) : List UInt8 := k.word.map ascii

section
variable (t : Text)

def State.seen (s : State) (a : Nat) : State := { s with stray := s.stray || !decide (t.Inside a) }

/-- `*sdata++`. -/
def State.take (s : State) : State := { s.seen t s.sdata with sdata := s.sdata + 1 }

def State.storeAt (s : State) (a : Nat) (v : UInt8) : State :=
  { s with
    mem := put s.mem a v
    stray := s.stray || !decide (t.base ≤ a ∧ a < s.sdata) }

/-- `*idata = v`. -/
def State.store (s : State) (v : UInt8) : State := s.storeAt t s.idata v

/-- `*idata++ = v`. -/
def State.emit (s : State) (v : UInt8) : State := { s.store t v with idata := s.idata + 1 }

/-! ## Lines that are passed -/

/-- A search that leaves the text is cut off some way behind it. -/
def strchr (mem : Nat → UInt8) : Nat → Nat → Option Nat
  | 0, _ => none
  | n + 1, a => if mem a = NL then some a else if mem a = 0 then none else strchr mem n (a + 1)

/-- The last address that `strchr` reads. -/
def strend (mem : Nat → UInt8) : Nat → Nat → Nat
  | 0, a => a
  | n + 1, a => if mem a = NL ∨ mem a = 0 then a else strend mem n (a + 1)

def State.scanned (s : State) : State := (s.seen t s.sdata).seen t (strend s.mem (t.sdata_end + 1) s.sdata)

def comment (s : State) : State :=
  match strchr s.mem (t.sdata_end + 1) s.sdata with
  | some a => { s.scanned t with sdata := a + 1 }
  | none => { s.scanned t with sdata := 0 }

/-- Nothing ever sets `ibackup`. -/
def bad_line (s : State) : State :=
  match strchr s.mem (t.sdata_end + 1) s.sdata with
  | some a => { ({ s.scanned t with sdata := a + 1 }.storeAt t a 0) with idata := s.ibackup }
  | none => { s.scanned t with sdata := 0, idata := s.ibackup }

/-! ## A line with a record -/

def to_runlevel (c : UInt8) : Nat :=
  if c = ascii 's' ∨ c = ascii 'S' then 7
  else if ascii '0' ≤ c ∧ c ≤ ascii '6' then (c - ascii '0').toNat
  else 0xFF

/-- The two characters, the colon and the empty mask. -/
def init_id (s : State) : Except State State :=
  let s := (s.take t).emit t (s.mem s.sdata)
  let s := (s.take t).emit t (s.mem s.sdata)
  if s.mem s.sdata ≠ ascii ':' then .error (s.take t) else .ok ((s.take t).store t 0)

/-- The loop over the levels, with `bit`; the loop ends behind the text at the latest. -/
def levels : Nat → State → Nat → Except State (State × Nat)
  | 0, s, _ => .error s
  | n + 1, s, bit =>
    let c := s.mem s.sdata
    let s := s.seen t s.sdata
    if c = ascii ':' then .ok (s, bit)
    else if c = NL ∨ t.sdata_end < s.sdata then .error s
    else
      let s := { s with sdata := s.sdata + 1 }
      if to_runlevel c = 0xFF then .error s
      else levels n (s.store t (s.mem s.idata ||| (1 <<< UInt8.ofNat (to_runlevel c)))) (to_runlevel c)

/-- The bytes are there. -/
def same (mem : Nat → UInt8) : Nat → List UInt8 → Bool
  | _, [] => true
  | a, c :: cs => mem a = c && same mem (a + 1) cs

/-- The last address that `memcmp` reads. -/
def compared (mem : Nat → UInt8) : Nat → List UInt8 → Nat
  | a, c :: d :: cs => if mem a = c then compared mem (a + 1) (d :: cs) else a
  | a, _ => a

/-- The comparisons in turn. -/
def keyword (s : State) : List Keyword → Option Keyword × State
  | [] => (none, s)
  | k :: ks =>
    let next := (s.seen t s.sdata).seen t (compared s.mem s.sdata k.bytes)
    if same s.mem s.sdata k.bytes then (some k, next) else keyword next ks

/-- The type, behind the colon. -/
def init_type (s : State) (bit : Nat) : Except State State :=
  let s := { s with idata := s.idata + 1, sdata := s.sdata + 1 }
  match keyword t s keywords with
  | (none, s) => .error s
  | (some k, s) =>
    let s := if k.boot then s.storeAt t (s.idata - 1) MASK_BOOT else s
    let s := s.emit t k.op
    .ok { s with
      sdata := s.sdata + k.bytes.length
      default_rl := if k.initdefault then bit else s.default_rl }

/-- The loop over the arguments. -/
def args : Nat → State → State
  | 0, s => s
  | n + 1, s =>
    let c := s.mem s.sdata
    let s := s.seen t s.sdata
    if c ≠ 0 ∧ c ≠ NL ∧ s.sdata < t.sdata_end then
      let s := s.emit t (if c ≠ ascii ' ' then c else 0)
      args n { s with sdata := s.sdata + 1 }
    else s

/-- The arguments and the length of the record. -/
def init_args (s : State) (linelen : Nat) : State :=
  let s := (args t (t.sdata_end + 1) s).emit t 0
  let s := s.storeAt t linelen (UInt8.ofNat (s.idata - linelen))
  { s with sdata := s.sdata + 1, initcount := s.initcount + 1 }

/-- The levels and the type. -/
def init_fields (s : State) : Except State State := do
  let (s, bit) ← levels t (t.sdata_end + 2) s 0
  init_type t s bit

def record (s : State) : Except State State := do
  let s ← init_id t { s with idata := s.idata + 1 }
  init_fields t s

def parse_initline (s : State) : State :=
  if s.mem s.sdata = ascii '#' then comment t (s.seen t s.sdata)
  else
    match record t (s.seen t s.sdata) with
    | .error s => bad_line t s
    | .ok s' => init_args t s' s.idata

/-! ## The whole table -/

/-- `while (sdata < sdata_end) parse_initline();`. -/
def parse_lines : Nat → State → Option State
  | 0, _ => none
  | n + 1, s => if s.sdata < t.sdata_end then parse_lines n (parse_initline t s) else some s

/-- The loop over the control arrays: `n` entries from `ip` on, for the records from `p` on. -/
def arrays : Nat → State → Nat → Nat → State
  | 0, s, _, _ => s
  | n + 1, s, ip, p =>
    let s := ((s.seen t (p + 1)).seen t (p + 2)).seen t p
    let mem := put (put s.mem (ip + 2) (s.mem (p + 1))) (ip + 3) (s.mem (p + 2))
    let s := { s with mem := put (put mem ip 0) (ip + 1) 0 }
    arrays n s (ip + 4) (p + (s.mem p).toNat)

/-- The state with the control arrays, and where they are. -/
def parse_inittab (fuel : Nat) (s : State) : Option (State × Nat) :=
  match parse_lines t fuel s with
  | none => none
  | some s =>
    let initpid := s.idata
    some (arrays t s.initcount { s with idata := s.idata + 4 * s.initcount } initpid t.base, initpid)

end

/-! ## What the lines say -/

/-- A line, and whether it has its newline. -/
structure Line where
  body : List UInt8
  ended : Bool
  deriving DecidableEq

def Line.bytes (l : Line) : List UInt8 := l.body ++ if l.ended then [NL] else []

def split : List UInt8 → List Line
  | [] => []
  | c :: cs =>
    if c = NL then ⟨[], true⟩ :: split cs
    else
      match split cs with
      | [] => [⟨[c], false⟩]
      | l :: ls => { l with body := c :: l.body } :: ls

structure Record where
  id : UInt8 × UInt8
  mask : UInt8
  op : UInt8
  args : List UInt8

/-- What stands behind the length. -/
def Record.bytes (r : Record) : List UInt8 :=
  [r.id.1, r.id.2, r.mask, r.op] ++ r.args.map (fun c => if c = ascii ' ' then 0 else c) ++ [0]

def Comment (line : List UInt8) : Prop := line.head? = some (ascii '#')

/-- The mask of the levels. -/
def maskOf (levels : List UInt8) : UInt8 :=
  levels.foldl (fun m c => m ||| (1 <<< UInt8.ofNat (to_runlevel c))) 0

/-- `id:levels:type:args`. -/
def WellFormed (line : List UInt8) (r : Record) : Prop :=
  ∃ levels k, k ∈ keywords ∧
    line = r.id.1 :: r.id.2 :: ascii ':' :: (levels ++ ascii ':' :: (k.bytes ++ r.args)) ∧
    r.id.1 ≠ ascii '#' ∧ (∀ c ∈ levels, to_runlevel c ≠ 0xFF) ∧ 0 ∉ r.args ∧
    r.mask = (if k.boot then MASK_BOOT else maskOf levels) ∧ r.op = k.op

/-- The records of the lines. -/
inductive Yields : List Line → List Record → Prop where
  | nil : Yields [] []
  | record {l : Line} {ls : List Line} {r : Record} {rs : List Record} (before : Yields ls rs)
      (form : WellFormed l.body r) : Yields (ls ++ [l]) (rs ++ [r])
  | skip {l : Line} {ls : List Line} {rs : List Record} (before : Yields ls rs)
      (none : ¬ ∃ r, WellFormed l.body r) : Yields (ls ++ [l]) rs

/-- The bytes lie at the address. -/
def Holds (mem : Nat → UInt8) : Nat → List UInt8 → Prop
  | _, [] => True
  | a, c :: cs => mem a = c ∧ Holds mem (a + 1) cs

/-- Walking from `p` by the length bytes visits the records and ends at `q`. -/
def Walk (mem : Nat → UInt8) : Nat → List Record → Nat → Prop
  | p, [], q => p = q
  | p, r :: rs, q => (mem p).toNat = r.bytes.length + 1 ∧ Holds mem (p + 1) r.bytes ∧
      Walk mem (p + (mem p).toNat) rs q

/-- The control arrays. -/
def Arrays (mem : Nat → UInt8) : Nat → List Record → Prop
  | _, [] => True
  | ip, r :: rs => Holds mem ip [0, 0, r.id.1, r.id.2] ∧ Arrays mem (ip + 4) rs

/-- The text is loaded into memory; `initcount` may be left from an earlier table. -/
def loaded (t : Text) (mem : Nat → UInt8) (default_rl initcount : Nat) : State :=
  ⟨fun a => if t.Inside a then t.bytes.getD (a - t.base) 0 else mem a, t.base, t.base, 0, default_rl,
    initcount, false⟩

/-- The lines `ls` have been parsed. -/
structure Parsed (t : Text) (s : State) (ls : List Line) (rs : List Record) : Prop where
  yields : Yields ls rs
  near : s.stray = false
  sdata : s.sdata = t.base + (ls.flatMap Line.bytes).length
  count : s.initcount = rs.length
  walk : Walk s.mem t.base rs s.idata

/-- Each round takes a line and makes its record, and the records can be walked at the end. -/
structure Right (t : Text) (start : State) : Prop where
  rounds : ∀ i ≤ (split t.bytes).length, ∃ rs,
    Parsed t ((parse_initline t)^[i] start) ((split t.bytes).take i) rs
  whole : ∃ fuel s initpid rs, parse_inittab t fuel start = some (s, initpid) ∧
    Yields (split t.bytes) rs ∧ s.stray = false ∧ s.initcount = rs.length ∧
    Walk s.mem t.base rs initpid ∧ Arrays s.mem initpid rs

/-- Every line is ended and is a comment or has a record that fits its length byte, and the
first is a comment. -/
structure Clean (text : List UInt8) (initcount : Nat) : Prop where
  first : ∀ l, (split text).head? = some l → Comment l.body
  lines : ∀ l ∈ split text, l.ended = true ∧ (Comment l.body ∧ 0 ∉ l.body ∨
    ∃ r, WellFormed l.body r ∧ r.bytes.length < 255)
  fresh : initcount = 0

/-! ## Bytes in memory -/

section Bytes
variable {mem mem' : Nat → UInt8} {a p q : Nat} {xs ys : List UInt8} {r : Record} {rs : List Record}

theorem holds_append : Holds mem a (xs ++ ys) ↔ Holds mem a xs ∧ Holds mem (a + xs.length) ys := by
  induction xs generalizing a with
  | nil => simp [Holds]
  | cons c xs ih =>
    simp only [List.cons_append, Holds, ih, List.length_cons, and_assoc]
    rw [show a + 1 + xs.length = a + (xs.length + 1) by omega]

theorem Holds.congr (holds : Holds mem a xs) (agree : ∀ x, a ≤ x → x < a + xs.length → mem' x = mem x) :
    Holds mem' a xs := by
  induction xs generalizing a with
  | nil => trivial
  | cons c xs ih =>
    obtain ⟨first, rest⟩ := holds
    constructor
    · rw [agree a (Nat.le_refl a) (by simp)]
      exact first
    · apply ih rest
      intro x low high
      exact agree x (by omega) (by simp only [List.length_cons]; omega)

/-- A byte is stored somewhere else. -/
theorem Holds.put {b : Nat} {v : UInt8} (holds : Holds mem a xs) (apart : b < a ∨ a + xs.length ≤ b) :
    Holds (put mem b v) a xs := by
  apply holds.congr
  intro x low high
  exact put_ne _ _ (by omega)

theorem Walk.le (walk : Walk mem p rs q) : p ≤ q := by
  induction rs generalizing p with
  | nil => exact Nat.le_of_eq walk
  | cons r rs ih =>
    have := ih walk.2.2
    omega

theorem Walk.congr (walk : Walk mem p rs q) (agree : ∀ x, p ≤ x → x < q → mem' x = mem x) :
    Walk mem' p rs q := by
  induction rs generalizing p with
  | nil => exact walk
  | cons r rs ih =>
    obtain ⟨length, bytes, rest⟩ := walk
    have far := rest.le
    have here := agree p (Nat.le_refl p) (by omega)
    refine ⟨by rw [here]; exact length, ?_, ?_⟩
    · apply bytes.congr
      intro x low high
      exact agree x (by omega) (by omega)
    · rw [here]
      apply ih rest
      intro x low high
      exact agree x (by omega) high

/-- A record more at the end. -/
theorem Walk.snoc (walk : Walk mem p rs q) (length : (mem q).toNat = r.bytes.length + 1)
    (bytes : Holds mem (q + 1) r.bytes) : Walk mem p (rs ++ [r]) (q + (r.bytes.length + 1)) := by
  induction rs generalizing p with
  | nil =>
    rw [show p = q from walk]
    exact ⟨length, bytes, by rw [length]; rfl⟩
  | cons r rs ih =>
    obtain ⟨first, front, rest⟩ := walk
    exact ⟨first, front, ih rest⟩

theorem Walk.last (walk : Walk mem p (rs ++ [r]) q) : r.bytes.length < 255 := by
  induction rs generalizing p with
  | nil =>
    have byte := (mem p).toNat_lt
    have length := walk.1
    omega
  | cons r rs ih => exact ih walk.2.2

end Bytes

/-! ## Lines of the text -/

section Lines
variable {text : List UInt8} {l : Line} {ls before behind : List Line} {rs rs' : List Record}

theorem flatMap_split (text : List UInt8) : (split text).flatMap Line.bytes = text := by
  induction text with
  | nil => rfl
  | cons c cs ih =>
    unfold split
    by_cases newline : c = NL
    · rw [if_pos newline, List.flatMap_cons, ih, newline]
      rfl
    · rw [if_neg newline]
      cases lines : split cs with
      | nil =>
        rw [lines] at ih
        rw [← ih]
        rfl
      | cons l ls =>
        rw [lines] at ih
        rw [← ih]
        rfl

/-- Only the last line may lack its newline, and then it is not empty. -/
structure Lines (ls : List Line) : Prop where
  body : ∀ l ∈ ls, NL ∉ l.body
  some : ∀ l ∈ ls, l.bytes ≠ []
  ended : ∀ before l behind, ls = before ++ l :: behind → l.ended = false → behind = []

theorem Lines.cons (rest : Lines ls) (body : NL ∉ l.body) (some : l.bytes ≠ []) (last : l.ended = false → ls = []) :
    Lines (l :: ls) := by
  constructor
  · intro m inside
    rcases List.mem_cons.mp inside with rfl | inside
    · exact body
    · exact rest.body m inside
  · intro m inside
    rcases List.mem_cons.mp inside with rfl | inside
    · exact some
    · exact rest.some m inside
  · intro before m behind parts unended
    cases before with
    | nil =>
      injection parts with head tail
      rw [← head] at unended
      rw [← tail]
      exact last unended
    | cons n before =>
      injection parts with _ tail
      exact rest.ended before m behind tail unended

theorem Lines.tail (lines : Lines (l :: ls)) : Lines ls := by
  constructor
  · intro m inside
    exact lines.body m (List.mem_cons_of_mem l inside)
  · intro m inside
    exact lines.some m (List.mem_cons_of_mem l inside)
  · intro before m behind parts unended
    exact lines.ended (l :: before) m behind (congrArg (l :: ·) parts) unended

theorem split_lines (text : List UInt8) : Lines (split text) := by
  induction text with
  | nil => exact ⟨by simp [split], by simp [split], by simp [split]⟩
  | cons c cs ih =>
    unfold split
    by_cases newline : c = NL
    · rw [if_pos newline]
      apply ih.cons
      · simp
      · simp [Line.bytes]
      · intro unended
        cases unended
    · rw [if_neg newline]
      cases lines : split cs with
      | nil =>
        rw [lines] at ih
        apply ih.cons
        · simpa using fun same => newline same.symm
        · simp [Line.bytes]
        · intro _
          rfl
      | cons m ms =>
        rw [lines] at ih
        apply ih.tail.cons
        · have inner := ih.body m (by simp)
          simp only [List.mem_cons, not_or]
          exact ⟨fun same => newline same.symm, inner⟩
        · simp [Line.bytes]
        · exact ih.ended [] m ms rfl

/-- How many records there are. -/
theorem Yields.count (first : Yields ls rs) (second : Yields ls rs') : rs.length = rs'.length := by
  induction first generalizing rs' with
  | nil => 
    generalize empty : ([] : List Line) = ls at second
    cases second with
    | nil => rfl
    | record => simp at empty
    | skip => simp at empty
  | @record l ls r rs before form ih =>
    generalize parts : ls ++ [l] = whole at second
    cases second with
    | nil => simp at parts
    | @record l' ls' r' rs' before' form' =>
      obtain ⟨rfl, _⟩ := List.append_inj' parts rfl
      simp [ih before']
    | @skip l' ls' _ before' none =>
      obtain ⟨_, same⟩ := List.append_inj' parts rfl
      injection same with same _
      exact absurd ⟨r, same ▸ form⟩ none
  | @skip l ls rs before none ih =>
    generalize parts : ls ++ [l] = whole at second
    cases second with
    | nil => simp at parts
    | @record l' ls' r' rs' before' form' =>
      obtain ⟨_, same⟩ := List.append_inj' parts rfl
      injection same with same _
      exact absurd ⟨r', same ▸ form'⟩ none
    | @skip l' ls' _ before' none =>
      obtain ⟨rfl, _⟩ := List.append_inj' parts rfl
      exact ih before'

end Lines

/-! ## What every step keeps -/

section Kept
variable {t : Text} {s s' u : State} {a n bit : Nat} {v : UInt8}

/-- The backup and the count are kept, and what is stray stays so. -/
structure Kept (s s' : State) : Prop where
  ibackup : s'.ibackup = s.ibackup
  count : s'.initcount = s.initcount
  stray : s.stray = true → s'.stray = true

theorem Kept.refl (s : State) : Kept s s := ⟨rfl, rfl, id⟩

theorem Kept.trans (first : Kept s s') (second : Kept s' u) : Kept s u :=
  ⟨second.ibackup.trans first.ibackup, second.count.trans first.count, fun h => second.stray (first.stray h)⟩

/-- Pointers, memory and the default may change. -/
theorem Kept.fields (kept : Kept s s') (mem : Nat → UInt8) (sdata idata default_rl : Nat) :
    Kept s { s' with mem := mem, sdata := sdata, idata := idata, default_rl := default_rl } :=
  ⟨kept.ibackup, kept.count, kept.stray⟩

theorem kept_seen (s : State) (a : Nat) : Kept s (s.seen t a) := by
  refine ⟨rfl, rfl, ?_⟩
  intro stray
  simp [State.seen, stray]

theorem kept_storeAt (s : State) (a : Nat) (v : UInt8) : Kept s (s.storeAt t a v) := by
  refine ⟨rfl, rfl, ?_⟩
  intro stray
  simp [State.storeAt, stray]

theorem kept_take (s : State) : Kept s (s.take t) := (kept_seen s _).fields _ _ _ _

theorem kept_emit (s : State) (v : UInt8) : Kept s (s.emit t v) := (kept_storeAt s _ v).fields _ _ _ _

/-- What a part of `parse_initline` that may break off keeps. -/
def Keeps (s : State) : Except State State → Prop
  | .ok s' => Kept s s'
  | .error s' => Kept s s'

theorem keeps_id (s : State) : Keeps s (init_id t s) := by
  have copied : Kept s (((s.take t).emit t (s.mem s.sdata)).take t |>.emit t
      (((s.take t).emit t (s.mem s.sdata)).mem ((s.take t).emit t (s.mem s.sdata)).sdata)) :=
    ((kept_take s).trans (kept_emit _ _)).trans ((kept_take _).trans (kept_emit _ _))
  unfold init_id
  simp only
  split
  · exact copied.trans (kept_take _)
  · exact (copied.trans (kept_take _)).trans (kept_storeAt _ _ _)

/-- The same with the level. -/
def KeepsBit (s : State) : Except State (State × Nat) → Prop
  | .ok (s', _) => Kept s s'
  | .error s' => Kept s s'

theorem KeepsBit.after {result : Except State (State × Nat)} (first : Kept s s') (rest : KeepsBit s' result) :
    KeepsBit s result := by
  cases result with
  | ok result => exact first.trans rest
  | error u => exact first.trans rest

theorem keeps_levels (n : Nat) (s : State) (bit : Nat) : KeepsBit s (levels t n s bit) := by
  induction n generalizing s bit with
  | zero => exact Kept.refl s
  | succ n ih =>
    have seen := kept_seen (t := t) s s.sdata
    unfold levels
    simp only
    split
    · exact seen
    · split
      · exact seen
      · split
        · exact seen.fields _ _ _ _
        · exact (ih _ _).after ((seen.fields _ _ _ _).trans (kept_storeAt _ _ _))

theorem kept_keyword (s : State) (ks : List Keyword) : Kept s (keyword t s ks).2 := by
  induction ks generalizing s with
  | nil => exact Kept.refl s
  | cons k ks ih =>
    have seen := (kept_seen (t := t) s s.sdata).trans (kept_seen (t := t) _ (compared s.mem s.sdata k.bytes))
    unfold keyword
    simp only
    split
    · exact seen
    · exact seen.trans (ih _)

theorem keeps_type (s : State) (bit : Nat) : Keeps s (init_type t s bit) := by
  have moved : Kept s { s with idata := s.idata + 1, sdata := s.sdata + 1 } :=
    (Kept.refl s).fields _ _ _ _
  have found := moved.trans (kept_keyword (t := t) _ keywords)
  unfold init_type
  simp only
  split <;> rename_i word
  · rw [word] at found
    exact found
  · rw [word] at found
    apply Kept.fields
    apply Kept.trans _ (kept_emit _ _)
    split
    · exact found.trans (kept_storeAt _ _ _)
    · exact found

theorem kept_args (n : Nat) (s : State) : Kept s (args t n s) := by
  induction n generalizing s with
  | zero => exact Kept.refl s
  | succ n ih =>
    have seen := kept_seen (t := t) s s.sdata
    unfold args
    simp only
    split
    · exact (seen.trans ((kept_emit _ _).fields _ _ _ _)).trans (ih _)
    · exact seen

theorem Keeps.after {result : Except State State} (first : Kept s s') (rest : Keeps s' result) :
    Keeps s result := by
  cases result with
  | ok u => exact first.trans rest
  | error u => exact first.trans rest

/-- What two parts in turn keep. -/
theorem Keeps.bind {result : Except State State} {f : State → Except State State} (first : Keeps s result)
    (rest : ∀ u, Keeps u (f u)) : Keeps s (result >>= f) := by
  cases result with
  | ok u => exact (rest u).after first
  | error u => exact first

theorem KeepsBit.bind {result : Except State (State × Nat)} {f : State × Nat → Except State State}
    (first : KeepsBit s result) (rest : ∀ u, Keeps u.1 (f u)) : Keeps s (result >>= f) := by
  cases result with
  | ok u => exact (rest u).after first
  | error u => exact first

theorem keeps_fields (s : State) : Keeps s (init_fields t s) := by
  apply (keeps_levels (t.sdata_end + 2) s 0).bind
  intro u
  exact keeps_type u.1 u.2

theorem keeps_record (s : State) : Keeps s (record t s) := by
  have moved : Kept s { s with idata := s.idata + 1 } := (Kept.refl s).fields _ _ _ _
  apply Keeps.after moved
  exact (keeps_id { s with idata := s.idata + 1 }).bind keeps_fields

/-- A line that is no comment makes a record, or the output goes back to the null pointer. -/
theorem parse_other (backup : s.ibackup = 0) (other : s.mem s.sdata ≠ ascii '#') :
    (parse_initline t s).initcount = s.initcount + 1 ∨ (parse_initline t s).idata = 0 := by
  have seen := kept_seen (t := t) s s.sdata
  have kept := keeps_record (t := t) (s.seen t s.sdata)
  unfold parse_initline
  rw [if_neg other]
  cases result : record t (s.seen t s.sdata) with
  | error u =>
    right
    rw [result] at kept
    have zero : u.ibackup = 0 := (seen.trans kept).ibackup.trans backup
    simp only [bad_line]
    split <;> exact zero
  | ok u =>
    left
    rw [result] at kept
    have more := (kept_args (t := t) (t.sdata_end + 1) u).count
    have same := (seen.trans kept).count
    simp only [init_args, State.storeAt, State.emit, State.store]
    omega

theorem kept_bad_line (s : State) (stray : s.stray = true) : (bad_line t s).stray = true := by
  have scanned : (s.scanned t).stray = true := ((kept_seen _ _).trans (kept_seen _ _)).stray stray
  unfold bad_line
  split
  · simp [State.storeAt, scanned]
  · exact scanned

theorem kept_init_args (s : State) (linelen : Nat) (stray : s.stray = true) :
    (init_args t s linelen).stray = true := by
  have copied := (kept_args (t := t) (t.sdata_end + 1) s).stray stray
  simp [init_args, State.storeAt, State.emit, State.store, copied]

/-- The state is stray, whether the line breaks off or not. -/
def Strays : Except State State → Prop
  | .ok s => s.stray = true
  | .error s => s.stray = true

theorem Keeps.strays {result : Except State State} (keeps : Keeps s result) (stray : s.stray = true) :
    Strays result := by
  cases result with
  | ok u => exact Kept.stray keeps stray
  | error u => exact Kept.stray keeps stray

theorem strays_id (tight : s.sdata < s.idata) : Strays (init_id t s) := by
  have far : ¬ (t.base ≤ (s.take t).idata ∧ (s.take t).idata < (s.take t).sdata) := by
    have ahead : (s.take t).idata = s.idata ∧ (s.take t).sdata = s.sdata + 1 := ⟨rfl, rfl⟩
    omega
  have first : ((s.take t).emit t (s.mem s.sdata)).stray = true := by
    have outside : ((s.take t).stray ||
        !decide (t.base ≤ (s.take t).idata ∧ (s.take t).idata < (s.take t).sdata)) = true := by
      rw [decide_eq_false far]
      exact Bool.or_true _
    exact outside
  have second := ((kept_take (t := t) _).trans (kept_emit (t := t) _
    (((s.take t).emit t (s.mem s.sdata)).mem ((s.take t).emit t (s.mem s.sdata)).sdata))).stray first
  unfold init_id
  simp only
  split
  · exact (kept_take _).stray second
  · exact ((kept_take _).trans (kept_storeAt _ _ _)).stray second

theorem strays_record (tight : s.sdata ≤ s.idata) : Strays (record t s) := by
  have first := strays_id (t := t) (s := { s with idata := s.idata + 1 }) (Nat.lt_succ_of_le tight)
  unfold record
  cases id_ : init_id t { s with idata := s.idata + 1 } with
  | error u =>
    rw [id_] at first
    exact first
  | ok u =>
    rw [id_] at first
    exact (keeps_fields u).strays first

/-- The first record is stored where the text has not been read. -/
theorem first_stray (tight : s.sdata ≤ s.idata) (other : s.mem s.sdata ≠ ascii '#') :
    (parse_initline t s).stray = true := by
  have strays := strays_record (t := t) (s := s.seen t s.sdata) tight
  unfold parse_initline
  rw [if_neg other]
  cases result : record t (s.seen t s.sdata) with
  | error u =>
    rw [result] at strays
    exact kept_bad_line u strays
  | ok u =>
    rw [result] at strays
    exact kept_init_args u _ strays

end Kept

/-! ## A record in the making -/

section Mid
variable {t : Text} {s₀ s u : State} {out rest more : List UInt8} {c v m : UInt8} {a n bit : Nat}

theorem seen_inside (inside : t.Inside a) : s.seen t a = s := by
  cases s
  simp [State.seen, inside]

/-- The record from `s₀.idata` on has got the bytes `out`, and `rest` has not been read. -/
structure Mid (t : Text) (s₀ s : State) (out rest : List UInt8) : Prop where
  unread : Holds s.mem s.sdata rest
  fits : s.sdata + rest.length = t.base + t.size
  place : s.idata = s₀.idata + 1 + out.length
  written : Holds s.mem (s₀.idata + 1) out
  below : ∀ a ≤ s₀.idata, s.mem a = s₀.mem a
  gap : s.idata ≤ s.sdata
  low : t.base ≤ s₀.idata
  near : s.stray = false

theorem Mid.first (mid : Mid t s₀ s out (c :: rest)) : s.mem s.sdata = c := mid.unread.1

theorem Mid.inside (mid : Mid t s₀ s out rest) (some : 0 < rest.length) : t.Inside s.sdata := by
  have fits := mid.fits
  have place := mid.place
  have gap := mid.gap
  have low := mid.low
  unfold Text.Inside
  omega

/-- A byte is read. -/
theorem Mid.take (mid : Mid t s₀ s out (c :: rest)) : Mid t s₀ (s.take t) out rest ∧
    (s.take t).idata < (s.take t).sdata := by
  have gap := mid.gap
  have same : s.take t = { s with sdata := s.sdata + 1 } := by
    unfold State.take
    rw [seen_inside (mid.inside (by simp))]
  rw [same]
  refine ⟨⟨mid.unread.2, ?_, mid.place, mid.written, mid.below, Nat.le_succ_of_le gap, mid.low, mid.near⟩, ?_⟩
  · have fits := mid.fits
    simp only [List.length_cons] at fits
    simp only
    omega
  · exact Nat.lt_succ_of_le gap

/-- A byte of the record is stored again. -/
theorem Mid.storeAt (mid : Mid t s₀ s (out ++ [m]) rest) (room : s.idata ≤ s.sdata) :
    Mid t s₀ (s.storeAt t (s.idata - 1) v) (out ++ [v]) rest := by
  have place := mid.place
  have low := mid.low
  simp only [List.length_append, List.length_singleton] at place
  have fine : t.base ≤ s.idata - 1 ∧ s.idata - 1 < s.sdata := by omega
  constructor
  · exact mid.unread.put (Or.inl fine.2)
  · exact mid.fits
  · simp only [List.length_append, List.length_singleton]
    exact place
  · have parts := holds_append.mp mid.written
    apply holds_append.mpr
    constructor
    · exact parts.1.put (Or.inr (by omega))
    · exact ⟨by
        simp only [State.storeAt]
        rw [show s.idata - 1 = s₀.idata + 1 + out.length by omega, put_same], trivial⟩
  · intro a le
    simp only [State.storeAt]
    rw [put_ne _ _ (by omega)]
    exact mid.below a le
  · exact mid.gap
  · exact mid.low
  · simp [State.storeAt, mid.near, fine.1, fine.2]

theorem Mid.emit (mid : Mid t s₀ s out rest) (room : s.idata < s.sdata) :
    Mid t s₀ (s.emit t v) (out ++ [v]) rest := by
  have place := mid.place
  have low := mid.low
  have fine : t.base ≤ s.idata ∧ s.idata < s.sdata := by omega
  constructor
  · exact mid.unread.put (Or.inl room)
  · exact mid.fits
  · simp only [State.emit, List.length_append, List.length_singleton]
    omega
  · apply holds_append.mpr
    constructor
    · exact mid.written.put (Or.inr (by omega))
    · refine ⟨?_, trivial⟩
      simp only [State.emit, State.store, State.storeAt]
      rw [← place, put_same]
  · intro a le
    simp only [State.emit, State.store, State.storeAt]
    rw [put_ne _ _ (by omega)]
    exact mid.below a le
  · exact room
  · exact mid.low
  · simp [State.emit, State.store, State.storeAt, mid.near, fine.1, fine.2]

/-- The mask lies at `idata`, which has not been moved yet. -/
def Masked (t : Text) (s₀ s : State) (out : List UInt8) (m : UInt8) (rest : List UInt8) : Prop :=
  Mid t s₀ { s with idata := s.idata + 1 } (out ++ [m]) rest

theorem init_id_ok {c d : UInt8} (mid : Mid t s₀ s [] (c :: d :: ascii ':' :: rest)) :
    ∃ u, init_id t s = .ok u ∧ Masked t s₀ u [c, d] 0 rest := by
  obtain ⟨first, room⟩ := mid.take
  have one := first.emit (v := c) room
  obtain ⟨second, room'⟩ := one.take
  have two := second.emit (v := d) room'
  obtain ⟨third, room''⟩ := two.take
  have three := third.emit (v := 0) room''
  refine ⟨_, ?_, three⟩
  unfold init_id
  simp only
  rw [mid.first]
  rw [one.first]
  rw [two.first, if_neg (by simp)]

/-- A level is read and added to the mask. -/
theorem Masked.level (masked : Masked t s₀ s out m (c :: rest)) :
    s.seen t s.sdata = s ∧ s.mem s.sdata = c ∧ s.mem s.idata = m ∧
      Masked t s₀ (({ s with sdata := s.sdata + 1 } : State).store t v) out v rest := by
  have place := masked.place
  simp only [List.length_append, List.length_singleton] at place
  have mask : s.mem s.idata = m := by
    have last := (holds_append.mp masked.written).2.1
    rw [show s.idata = s₀.idata + 1 + out.length by omega]
    exact last
  have here := seen_inside (s := s) (masked.inside (by simp))
  obtain ⟨next, room⟩ := masked.take
  refine ⟨here, masked.first, mask, ?_⟩
  have stored := next.storeAt (v := v) (Nat.le_of_lt room)
  have same : (({ s with idata := s.idata + 1 } : State).take t) = { s with idata := s.idata + 1, sdata := s.sdata + 1 } := by
    unfold State.take
    rw [seen_inside (masked.inside (by simp))]
  rw [same] at stored
  exact stored

theorem to_runlevel_colon : to_runlevel (ascii ':') = 0xFF := by decide

theorem to_runlevel_newline : to_runlevel NL = 0xFF := by decide

theorem levels_ok {levels_ : List UInt8} (bit : Nat)
    (masked : Masked t s₀ s out m (levels_ ++ ascii ':' :: rest))
    (fine : ∀ c ∈ levels_, to_runlevel c ≠ 0xFF) (fuel : levels_.length < n) :
    ∃ u bit', levels t n s bit = .ok (u, bit') ∧
      Masked t s₀ u out (levels_.foldl (fun m c => m ||| (1 <<< UInt8.ofNat (to_runlevel c))) m)
        (ascii ':' :: rest) := by
  induction levels_ generalizing s m n bit with
  | nil =>
    cases n with
    | zero => simp at fuel
    | succ n =>
      obtain ⟨here, colon, _, _⟩ := masked.level (v := 0)
      refine ⟨s, bit, ?_, masked⟩
      unfold levels
      rw [here, colon]
      simp
  | cons c cs ih =>
    cases n with
    | zero => simp at fuel
    | succ n =>
      obtain ⟨here, first, mask, next⟩ := masked.level (v := m ||| (1 <<< UInt8.ofNat (to_runlevel c)))
      have level := fine c (by simp)
      have other : c ≠ ascii ':' := fun same => level (by rw [same]; exact to_runlevel_colon)
      have inner : ¬ (c = NL ∨ t.sdata_end < s.sdata) := by
        rintro (same | far)
        · exact level (by rw [same]; exact to_runlevel_newline)
        · have inside : t.Inside s.sdata := masked.inside (by simp)
          unfold Text.Inside at inside
          unfold Text.sdata_end at far
          omega
      obtain ⟨u, bit', done, end_⟩ := ih (to_runlevel c) next (fun d member => fine d (by simp [member]))
        (Nat.lt_of_succ_lt_succ fuel)
      refine ⟨u, bit', ?_, end_⟩
      unfold levels
      simp only [here, first, if_neg other, if_neg inner, if_neg level, mask]
      exact done

/-! ## The type -/

/-- The bytes differ where both go on. -/
def Clash : List UInt8 → List UInt8 → Bool
  | c :: cs, d :: ds => c ≠ d || Clash cs ds
  | _, _ => false

theorem clash_compared {mem : Nat → UInt8} {xs ys : List UInt8} (clash : Clash xs ys = true)
    (holds : Holds mem a ys) : same mem a xs = false ∧ compared mem a xs < a + ys.length := by
  induction xs generalizing a ys with
  | nil => simp [Clash] at clash
  | cons c xs ih =>
    cases ys with
    | nil => simp [Clash] at clash
    | cons d ys =>
      obtain ⟨first, rest⟩ := holds
      by_cases equal : c = d
      · have clash : Clash xs ys = true := by simpa [Clash, equal] using clash
        obtain ⟨differ, bound⟩ := ih clash rest
        have go : mem a = c := first.trans equal.symm
        refine ⟨by simp [same, differ], ?_⟩
        cases xs with
        | nil => simp [Clash] at clash
        | cons e xs =>
          unfold compared
          rw [if_pos go]
          simp only [List.length_cons]
          omega
      · have stop : mem a ≠ c := fun same => equal (same.symm.trans first)
        refine ⟨by simp [same, stop], ?_⟩
        cases xs with
        | nil =>
          unfold compared
          simp only [List.length_cons]
          omega
        | cons e xs =>
          unfold compared
          rw [if_neg stop]
          simp only [List.length_cons]
          omega

theorem same_compared {mem : Nat → UInt8} {xs : List UInt8} (holds : Holds mem a xs) :
    same mem a xs = true ∧ compared mem a xs < a + max 1 xs.length := by
  induction xs generalizing a with
  | nil =>
    refine ⟨rfl, ?_⟩
    unfold compared
    simp
  | cons c xs ih =>
    obtain ⟨first, rest⟩ := holds
    obtain ⟨equal, bound⟩ := ih rest
    refine ⟨by simp [same, first, equal], ?_⟩
    cases xs with
    | nil =>
      unfold compared
      simp
    | cons d xs =>
      unfold compared
      rw [if_pos first]
      simp only [List.length_cons] at bound ⊢
      omega

theorem keyword_ok {ks : List Keyword} {k : Keyword} {tail : List UInt8}
    (mid : Mid t s₀ s out (k.bytes ++ tail)) (some : k.bytes ≠ [])
    (apart : ks.Pairwise fun k' k => Clash k'.bytes k.bytes = true) (member : k ∈ ks) :
    keyword t s ks = (.some k, s) := by
  have length : 0 < k.bytes.length := List.length_pos_iff.mpr some
  have fits := mid.fits
  simp only [List.length_append] at fits
  have front := (holds_append.mp mid.unread).1
  have here := mid.inside (by simp only [List.length_append]; omega)
  unfold Text.Inside at here
  have read (b : Nat) (low : s.sdata ≤ b) (high : b < s.sdata + k.bytes.length) : s.seen t b = s := by
    apply seen_inside
    unfold Text.Inside
    omega
  have from_ {xs : List UInt8} (b : Nat) : b ≤ compared s.mem b xs := by
    induction xs generalizing b with
    | nil =>
      unfold compared
      exact Nat.le_refl b
    | cons c xs ih =>
      cases xs with
      | nil =>
        unfold compared
        exact Nat.le_refl b
      | cons d xs =>
        unfold compared
        split
        · exact Nat.le_of_succ_le (ih (b + 1))
        · exact Nat.le_refl b
  induction ks with
  | nil => cases member
  | cons k' ks ih =>
    unfold keyword
    simp only
    rw [read s.sdata (Nat.le_refl _) (by omega)]
    rcases List.mem_cons.mp member with rfl | member
    · obtain ⟨equal, bound⟩ := same_compared front
      rw [read _ (from_ _) (by omega), if_pos equal]
    · have clash := (List.pairwise_cons.mp apart).1 k member
      obtain ⟨differ, bound⟩ := clash_compared clash front
      rw [read _ (from_ _) bound, if_neg (by simp [differ])]
      exact ih (List.pairwise_cons.mp apart).2 member

theorem keywords_apart : keywords.Pairwise fun k' k => Clash k'.bytes k.bytes = true := by decide

theorem keywords_some : ∀ k ∈ keywords, k.bytes ≠ [] := by
  simp [keywords, Keyword.bytes]

/-- Behind text that has been read. -/
theorem Mid.pass (front : List UInt8) (mid : Mid t s₀ s out (front ++ rest)) :
    Mid t s₀ { s with sdata := s.sdata + front.length } out rest := by
  have fits := mid.fits
  have gap := mid.gap
  simp only [List.length_append] at fits
  exact ⟨(holds_append.mp mid.unread).2, by simp only; omega, mid.place, mid.written, mid.below,
    by simp only; omega, mid.low, mid.near⟩

theorem Mid.default (mid : Mid t s₀ s out rest) (default_rl : Nat) :
    Mid t s₀ { s with default_rl := default_rl } out rest :=
  ⟨mid.unread, mid.fits, mid.place, mid.written, mid.below, mid.gap, mid.low, mid.near⟩

theorem init_type_ok {k : Keyword} {tail : List UInt8} (bit : Nat) (member : k ∈ keywords)
    (masked : Masked t s₀ s out m (ascii ':' :: (k.bytes ++ tail))) :
    ∃ u, init_type t s bit = .ok u ∧ u.idata < u.sdata ∧
      Mid t s₀ u (out ++ [if k.boot then MASK_BOOT else m] ++ [k.op]) tail := by
  have some := keywords_some k member
  have length : 0 < k.bytes.length := List.length_pos_iff.mpr some
  have moved := Mid.pass [ascii ':'] masked
  have found := keyword_ok moved some keywords_apart member
  have gap := masked.gap
  have word : keyword t { s with idata := s.idata + 1, sdata := s.sdata + 1 } keywords =
      (.some k, { s with idata := s.idata + 1, sdata := s.sdata + 1 }) := found
  have room : s.idata + 1 < s.sdata + 1 := Nat.lt_succ_of_le gap
  cases boot : k.boot with
  | true =>
    have replaced := moved.storeAt (v := MASK_BOOT) moved.gap
    have done := ((replaced.emit (v := k.op) room).pass).default (if k.initdefault then bit else s.default_rl)
    refine ⟨_, ?_, ?_, done⟩
    · unfold init_type
      simp only [word, boot]
      rfl
    · simp only [State.emit, State.store, State.storeAt, List.length_singleton]
      omega
  | false =>
    have done := ((moved.emit (v := k.op) room).pass).default (if k.initdefault then bit else s.default_rl)
    refine ⟨_, ?_, ?_, done⟩
    · unfold init_type
      simp only [word, boot]
      rfl
    · simp only [State.emit, State.store, State.storeAt, List.length_singleton]
      omega

/-! ## The arguments -/

def blank (c : UInt8) : UInt8 := if c = ascii ' ' then 0 else c

theorem args_ok {cs : List UInt8} (mid : Mid t s₀ s out (cs ++ rest)) (room : s.idata < s.sdata)
    (fine : ∀ c ∈ cs, c ≠ 0 ∧ c ≠ NL) (fuel : cs.length ≤ n) :
    ∃ u, args t n s = args t (n - cs.length) u ∧ u.idata < u.sdata ∧ Mid t s₀ u (out ++ cs.map blank) rest := by
  induction cs generalizing s n out with
  | nil => exact ⟨s, rfl, room, by simpa using mid⟩
  | cons c cs ih =>
    cases n with
    | zero => simp at fuel
    | succ n =>
      have inside := mid.inside (by simp)
      have seen := seen_inside (s := s) inside
      have end_ : s.sdata < t.sdata_end := inside.2
      have copied := Mid.pass [c] (mid.emit (v := blank c) room)
      obtain ⟨u, done, room', final⟩ := ih copied (by
        simp only [State.emit, State.store, State.storeAt, List.length_singleton]
        omega) (fun d member => fine d (by simp [member])) (by simpa using fuel)
      refine ⟨u, ?_, room', by simpa using final⟩
      have first := mid.first
      have value : (if c ≠ ascii ' ' then c else 0) = blank c := by
        unfold blank
        by_cases space : c = ascii ' ' <;> simp [space]
      rw [List.length_cons, Nat.add_sub_add_right, ← done]
      conv_lhs => unfold args
      simp only [seen, first]
      rw [if_pos ⟨(fine c (by simp)).1, (fine c (by simp)).2, end_⟩, value]
      rfl

/-- The newline ends them. -/
theorem args_end (mid : Mid t s₀ s out (NL :: rest)) : args t n s = s := by
  cases n with
  | zero => rfl
  | succ n =>
    unfold args
    simp only [seen_inside (mid.inside (by simp)), mid.first]
    simp

/-- Without a newline the end of the text is read. -/
theorem args_stray (mid : Mid t s₀ s out []) (fuel : 0 < n) : (args t n s).stray = true := by
  have outside : ¬ t.Inside s.sdata := by
    have fits := mid.fits
    simp only [List.length_nil] at fits
    unfold Text.Inside
    omega
  have end_ : ¬ s.sdata < t.sdata_end := by
    have fits := mid.fits
    simp only [List.length_nil] at fits
    unfold Text.sdata_end
    omega
  cases n with
  | zero => omega
  | succ n =>
    unfold args
    simp only
    rw [if_neg (fun wrong => end_ wrong.2.2)]
    simp [State.seen, outside]

/-! ## A line with a record -/

/-- The text from `sdata` on is `rest`, and there is room before it. -/
structure Open (t : Text) (s : State) (rest : List UInt8) : Prop where
  unread : Holds s.mem s.sdata rest
  fits : s.sdata + rest.length = t.base + t.size
  low : t.base ≤ s.idata
  gap : s.idata < s.sdata
  near : s.stray = false

theorem record_ok {line tail : List UInt8} {r : Record} (form : WellFormed line r)
    (here : Open t s (line ++ tail)) :
    s.seen t s.sdata = s ∧ s.mem s.sdata ≠ ascii '#' ∧ ∃ u, record t s = .ok u ∧ u.idata < u.sdata ∧
      Mid t s u [r.id.1, r.id.2, r.mask, r.op] (r.args ++ tail) := by
  obtain ⟨levels_, k, member, rfl, other, fine, _, mask, op⟩ := form
  have fits := here.fits
  have start : Mid t s { s with idata := s.idata + 1 } []
      (r.id.1 :: r.id.2 :: ascii ':' :: (levels_ ++ ascii ':' :: (k.bytes ++ (r.args ++ tail)))) := by
    have whole : (r.id.1 :: r.id.2 :: ascii ':' :: (levels_ ++ ascii ':' :: (k.bytes ++ r.args))) ++ tail =
        r.id.1 :: r.id.2 :: ascii ':' :: (levels_ ++ ascii ':' :: (k.bytes ++ (r.args ++ tail))) := by simp
    rw [whole] at here
    exact ⟨here.unread, here.fits, rfl, trivial, fun _ _ => rfl, here.gap, here.low, here.near⟩
  have first : s.mem s.sdata = r.id.1 := start.first
  refine ⟨seen_inside (start.inside (by simp)), by rw [first]; exact other, ?_⟩
  obtain ⟨u, done, masked⟩ := init_id_ok start
  have long : levels_.length < t.sdata_end + 2 := by
    unfold Text.sdata_end
    simp only [List.length_append, List.length_cons] at fits
    omega
  obtain ⟨w, bit, done', masked'⟩ := levels_ok 0 masked fine long
  obtain ⟨x, done'', room, mid⟩ := init_type_ok bit member masked'
  refine ⟨x, ?_, room, ?_⟩
  · unfold record init_fields
    simp only [done, done', bind, Except.bind]
    exact done''
  · rw [← op] at mid
    have same : (if k.boot = true then MASK_BOOT else
        levels_.foldl (fun m c => m ||| (1 <<< UInt8.ofNat (to_runlevel c))) 0) = r.mask := mask.symm
    rw [same] at mid
    exact mid

/-- What a line with a record leaves. -/
structure Made (t : Text) (s s' : State) (r : Record) (more : List UInt8) : Prop where
  unread : Holds s'.mem s'.sdata more
  fits : s'.sdata + more.length = t.base + t.size
  idata : s'.idata = s.idata + (r.bytes.length + 1)
  length : s'.mem s.idata = UInt8.ofNat (r.bytes.length + 1)
  written : Holds s'.mem (s.idata + 1) r.bytes
  below : ∀ a < s.idata, s'.mem a = s.mem a
  gap : s'.idata < s'.sdata
  near : s'.stray = false

theorem args_fine {line : List UInt8} {r : Record} (form : WellFormed line r) (whole : NL ∉ line) :
    ∀ c ∈ r.args, c ≠ 0 ∧ c ≠ NL := by
  obtain ⟨levels_, k, _, shape, _, _, zero, _⟩ := form
  intro c member
  refine ⟨fun same => zero (same ▸ member), fun same => whole ?_⟩
  rw [shape, ← same]
  simp [member]

theorem bytes_blank (r : Record) :
    r.bytes = [r.id.1, r.id.2, r.mask, r.op] ++ r.args.map blank ++ [0] := rfl

theorem init_args_made {r : Record} (mid : Mid t s u [r.id.1, r.id.2, r.mask, r.op] (r.args ++ NL :: more))
    (room : u.idata < u.sdata) (fine : ∀ c ∈ r.args, c ≠ 0 ∧ c ≠ NL) :
    Made t s (init_args t u s.idata) r more := by
  have fits := mid.fits
  have long : r.args.length ≤ t.sdata_end + 1 := by
    unfold Text.sdata_end
    simp only [List.length_append] at fits
    omega
  obtain ⟨w, done, room', copied⟩ := args_ok mid room fine long
  have final := copied.emit (v := 0) room'
  rw [← bytes_blank] at final
  have stopped : args t (t.sdata_end + 1) u = w := done.trans (args_end copied)
  have place := final.place
  have fits' := final.fits
  have low := final.low
  have gap := final.gap
  simp only [List.length_cons] at fits'
  unfold init_args
  simp only [stopped]
  generalize w.emit t 0 = x at final place fits' gap ⊢
  constructor
  · exact final.unread.2.put (Or.inl (by omega))
  · simp only [State.storeAt]
    omega
  · simp only [State.storeAt]
    omega
  · simp only [State.storeAt, put_same]
    congr 1
    omega
  · exact final.written.put (Or.inl (by omega))
  · intro a less
    simp only [State.storeAt]
    rw [put_ne _ _ (by omega)]
    exact final.below a (Nat.le_of_lt less)
  · simp only [State.storeAt]
    omega
  · have fine : t.base ≤ s.idata ∧ s.idata < x.sdata := by omega
    simp [State.storeAt, final.near, fine.1, fine.2]

theorem parse_record {line : List UInt8} {r : Record} (form : WellFormed line r) (whole : NL ∉ line)
    (here : Open t s (line ++ NL :: more)) : Made t s (parse_initline t s) r more ∧
      (parse_initline t s).initcount = s.initcount + 1 ∧ (parse_initline t s).ibackup = s.ibackup := by
  obtain ⟨seen, other, u, done, room, mid⟩ := record_ok form here
  have kept := keeps_record (t := t) s
  rw [done] at kept
  have kept : Kept s u := kept
  have after := kept_args (t := t) (t.sdata_end + 1) u
  have fine := args_fine form whole
  have run : parse_initline t s = init_args t u s.idata := by
    unfold parse_initline
    rw [if_neg other, seen, done]
  rw [run]
  refine ⟨init_args_made mid room fine, ?_, ?_⟩
  · simp only [init_args, State.storeAt, State.emit, State.store]
    rw [after.count, kept.count]
  · simp only [init_args, State.storeAt, State.emit, State.store]
    rw [after.ibackup, kept.ibackup]

/-- A line without its newline is read too far. -/
theorem parse_unended {line : List UInt8} {r : Record} (form : WellFormed line r) (whole : NL ∉ line)
    (here : Open t s line) : (parse_initline t s).stray = true := by
  rw [← List.append_nil line] at here
  obtain ⟨seen, other, u, done, room, mid⟩ := record_ok form here
  have fine := args_fine form whole
  have fits := mid.fits
  have long : r.args.length < t.sdata_end + 1 := by
    unfold Text.sdata_end
    simp only [List.length_append] at fits
    omega
  obtain ⟨w, end_, _, copied⟩ := args_ok mid room fine (Nat.le_of_lt long)
  have far := args_stray (n := t.sdata_end + 1 - r.args.length) copied (by omega)
  rw [← end_] at far
  have run : parse_initline t s = init_args t u s.idata := by
    unfold parse_initline
    rw [if_neg other, seen, done]
  rw [run]
  simp [init_args, State.storeAt, State.emit, State.store, far]

end Mid

/-! ## A comment -/

section Comments
variable {t : Text} {s : State} {mem : Nat → UInt8} {a n : Nat} {xs more : List UInt8}

/-- The search goes on behind a byte that is no end. -/
theorem strchr_on (other : mem a ≠ NL) (some : mem a ≠ 0) :
    strchr mem (n + 1) a = strchr mem n (a + 1) ∧ strend mem (n + 1) a = strend mem n (a + 1) := by
  simp [strchr, strend, other, some]

theorem strchr_found (holds : Holds mem a (xs ++ NL :: more)) (newline : NL ∉ xs) (zero : 0 ∉ xs)
    (fuel : xs.length < n) : strchr mem n a = some (a + xs.length) ∧ strend mem n a = a + xs.length := by
  induction xs generalizing a n with
  | nil =>
    cases n with
    | zero => simp at fuel
    | succ n =>
      have here : mem a = NL := holds.1
      simp [strchr, strend, here]
  | cons c xs ih =>
    cases n with
    | zero => simp at fuel
    | succ n =>
      simp only [List.mem_cons, not_or] at newline zero
      obtain ⟨first, rest⟩ := holds
      obtain ⟨found, last⟩ := ih rest newline.2 zero.2 (by simpa using fuel)
      have place : a + 1 + xs.length = a + (c :: xs).length := by
        simp only [List.length_cons]
        omega
      rw [← place, ← found, ← last]
      apply strchr_on
      · rw [first]
        exact Ne.symm newline.1
      · rw [first]
        exact Ne.symm zero.1

theorem strchr_zero (holds : Holds mem a xs) (newline : NL ∉ xs) (zero : 0 ∈ xs) : strchr mem n a = none := by
  induction xs generalizing a n with
  | nil => simp at zero
  | cons c xs ih =>
    cases n with
    | zero => rfl
    | succ n =>
      simp only [List.mem_cons, not_or] at newline
      obtain ⟨first, rest⟩ := holds
      have other : ¬ c = NL := fun same => newline.1 same.symm
      simp only [strchr, first]
      rw [if_neg other]
      by_cases stop : c = 0
      · exact if_pos stop
      · rw [if_neg stop]
        rcases List.mem_cons.mp zero with same | inside
        · exact absurd same.symm stop
        · exact ih rest newline.2 inside

theorem strend_far (holds : Holds mem a xs) (newline : NL ∉ xs) (zero : 0 ∉ xs) (fuel : xs.length ≤ n) :
    a + xs.length ≤ strend mem n a := by
  induction xs generalizing a n with
  | nil =>
    have start (n : Nat) : a ≤ strend mem n a := by
      induction n generalizing a with
      | zero => exact Nat.le_refl a
      | succ n ih =>
        unfold strend
        split
        · exact Nat.le_refl a
        · exact Nat.le_of_succ_le (ih trivial)
    exact start n
  | cons c xs ih =>
    cases n with
    | zero => simp at fuel
    | succ n =>
      simp only [List.mem_cons, not_or] at newline zero
      obtain ⟨first, rest⟩ := holds
      have far := ih rest newline.2 zero.2 (by simpa using fuel)
      rw [(strchr_on (by rw [first]; exact Ne.symm newline.1) (by rw [first]; exact Ne.symm zero.1)).2]
      simp only [List.length_cons]
      omega

/-- The text from `sdata` on is `rest`. -/
structure Unread (t : Text) (s : State) (rest : List UInt8) : Prop where
  unread : Holds s.mem s.sdata rest
  fits : s.sdata + rest.length = t.base + t.size
  low : t.base ≤ s.sdata
  near : s.stray = false

theorem comment_first {line tail : List UInt8} (comment_ : Comment line) (here : Unread t s (line ++ tail)) :
    s.mem s.sdata = ascii '#' ∧ t.Inside s.sdata := by
  cases line with
  | nil => cases comment_
  | cons c line =>
    injection comment_ with hash
    have fits := here.fits
    have low := here.low
    simp only [List.cons_append, List.length_cons] at fits
    refine ⟨here.unread.1.trans hash, low, ?_⟩
    omega

theorem parse_comment {line : List UInt8} (comment_ : Comment line) (newline : NL ∉ line) (zero : 0 ∉ line)
    (here : Unread t s (line ++ NL :: more)) :
    parse_initline t s = { s with sdata := s.sdata + (line.length + 1) } := by
  obtain ⟨hash, inside⟩ := comment_first comment_ here
  have fits := here.fits
  simp only [List.length_append, List.length_cons] at fits
  obtain ⟨found, last⟩ := strchr_found here.unread newline zero (n := t.sdata_end + 1) (by
    unfold Text.sdata_end
    omega)
  have reached : t.Inside (s.sdata + line.length) := by
    unfold Text.Inside at inside ⊢
    omega
  unfold parse_initline
  rw [if_pos hash, seen_inside inside]
  unfold comment
  simp only [found]
  unfold State.scanned
  rw [last, seen_inside inside, seen_inside reached]
  rfl

/-- A comment that is passed rightly has its newline and no zero byte. -/
theorem comment_clean {l : Line} (more : List UInt8) (comment_ : Comment l.body) (newline : NL ∉ l.body)
    (last : l.ended = false → more = []) (here : Unread t s (l.bytes ++ more))
    (near : (parse_initline t s).stray = false) (moved : (parse_initline t s).sdata ≠ 0) :
    l.ended = true ∧ 0 ∉ l.body := by
  have whole : Unread t s (l.body ++ ((if l.ended then [NL] else []) ++ more)) := by
    unfold Line.bytes at here
    rw [List.append_assoc] at here
    exact here
  obtain ⟨hash, inside⟩ := comment_first comment_ whole
  have body := (holds_append.mp whole.unread).1
  have run : parse_initline t s = comment t s := by
    unfold parse_initline
    rw [if_pos hash, seen_inside inside]
  rw [run] at near moved
  have zero : 0 ∉ l.body := by
    intro zero
    apply moved
    unfold comment
    simp only [strchr_zero (n := t.sdata_end + 1) body newline zero]
  refine ⟨?_, zero⟩
  by_contra unended
  have unended : l.ended = false := Bool.not_eq_true _ ▸ unended
  have fits := whole.fits
  rw [last unended, unended] at fits
  simp only [List.length_append, Bool.false_eq_true, if_false, List.length_nil] at fits
  have far := strend_far body newline zero (n := t.sdata_end + 1) (by
    unfold Text.sdata_end
    omega)
  have outside : ¬ t.Inside (strend s.mem (t.sdata_end + 1) s.sdata) := by
    unfold Text.Inside
    omega
  have stray : (s.scanned t).stray = true := by
    simp [State.scanned, State.seen, outside]
  unfold comment at near
  split at near
  · rw [stray] at near
    cases near
  · rw [stray] at near
    cases near

end Comments

/-! ## One round -/

section Rounds
variable {t : Text} {s : State} {l : Line} {ls behind : List Line} {rs rs' : List Record}

/-- The lines `ls` have been parsed, and the lines `behind` not yet. -/
structure Ready (t : Text) (s : State) (ls behind : List Line) (rs : List Record) : Prop
    extends Parsed t s ls rs where
  backup : s.ibackup = 0
  unread : Holds s.mem s.sdata (behind.flatMap Line.bytes)
  fits : s.sdata + (behind.flatMap Line.bytes).length = t.base + t.size
  gap : ls = [] ∧ s.idata = s.sdata ∨ s.idata < s.sdata

theorem Ready.next (ready : Ready t s ls (l :: behind) rs) :
    Unread t s (l.bytes ++ behind.flatMap Line.bytes) := by
  refine ⟨ready.unread, ready.fits, ?_, ready.near⟩
  rw [ready.sdata]
  exact Nat.le_add_right _ _

theorem Ready.open_ (ready : Ready t s ls (l :: behind) rs) (gap : s.idata < s.sdata) :
    Open t s (l.bytes ++ behind.flatMap Line.bytes) :=
  ⟨ready.unread, ready.fits, ready.walk.le, gap, ready.near⟩

theorem not_comment {line : List UInt8} {r : Record} (form : WellFormed line r) : ¬ Comment line := by
  obtain ⟨_, _, _, rfl, other, _⟩ := form
  intro comment_
  injection comment_ with same
  exact other same

theorem bytes_ended (ended : l.ended = true) : l.bytes = l.body ++ [NL] := by
  simp [Line.bytes, ended]

theorem sdata_next (sdata : s.sdata = t.base + (ls.flatMap Line.bytes).length) :
    s.sdata + l.bytes.length = t.base + ((ls ++ [l]).flatMap Line.bytes).length := by
  rw [sdata]
  simp only [List.flatMap_append, List.length_append, List.flatMap_cons, List.flatMap_nil, List.append_nil]
  omega

theorem ready_comment (ready : Ready t s ls (l :: behind) rs) (ended : l.ended = true)
    (newline : NL ∉ l.body) (comment_ : Comment l.body) (zero : 0 ∉ l.body) :
    Ready t (parse_initline t s) (ls ++ [l]) behind rs := by
  have bytes := bytes_ended ended
  have here := ready.next
  rw [bytes, List.append_assoc] at here
  have run := parse_comment comment_ newline zero here
  have size : l.body.length + 1 = l.bytes.length := by simp [bytes]
  rw [size] at run
  have unread := holds_append.mp ready.next.unread
  have fits := ready.next.fits
  have gap := ready.gap
  have positive : 0 < l.bytes.length := by omega
  simp only [List.length_append] at fits
  rw [run]
  refine ⟨⟨?_, ready.near, sdata_next ready.sdata, ready.count, ready.walk⟩, ready.backup, unread.2, ?_, ?_⟩
  · apply Yields.skip ready.yields
    rintro ⟨r, form⟩
    exact not_comment form comment_
  · simp only
    omega
  · simp only
    omega

theorem ready_record {r : Record} (ready : Ready t s ls (l :: behind) rs) (ended : l.ended = true)
    (newline : NL ∉ l.body) (gap : s.idata < s.sdata) (form : WellFormed l.body r)
    (short : r.bytes.length < 255) : Ready t (parse_initline t s) (ls ++ [l]) behind (rs ++ [r]) := by
  have bytes := bytes_ended ended
  have here := ready.open_ gap
  rw [bytes, List.append_assoc] at here
  obtain ⟨made, count, backup⟩ := parse_record form newline here
  have fits := ready.next.fits
  have fits' : (parse_initline t s).sdata + (behind.flatMap Line.bytes).length = t.base + t.size := made.fits
  simp only [List.length_append] at fits
  have place : (parse_initline t s).sdata = s.sdata + l.bytes.length := by
    omega
  have byte : ((parse_initline t s).mem s.idata).toNat = r.bytes.length + 1 := by
    rw [made.length]
    simp
    omega
  have earlier : Walk (parse_initline t s).mem t.base rs s.idata := by
    apply ready.walk.congr
    intro x _ high
    exact made.below x high
  refine ⟨⟨Yields.record ready.yields form, made.near, ?_, ?_, ?_⟩, ?_, made.unread, made.fits, Or.inr made.gap⟩
  · rw [place]
    exact sdata_next ready.sdata
  · rw [count, ready.count]
    simp
  · rw [made.idata]
    exact earlier.snoc byte made.written
  · rw [backup]
    exact ready.backup

theorem Yields.snoc (yields : Yields (ls ++ [l]) rs) :
    (∃ r rs', rs = rs' ++ [r] ∧ WellFormed l.body r) ∨ ¬ ∃ r, WellFormed l.body r := by
  generalize parts : ls ++ [l] = whole at yields
  cases yields with
  | nil => simp at parts
  | @record l' ls' r rs' _ form =>
    obtain ⟨_, same⟩ := List.append_inj' parts rfl
    injection same with same _
    exact Or.inl ⟨r, rs', rfl, same ▸ form⟩
  | @skip l' ls' _ _ none =>
    obtain ⟨_, same⟩ := List.append_inj' parts rfl
    injection same with same _
    right
    rw [same]
    exact none

/-- A line that is parsed rightly is a comment or has a record that fits. -/
theorem line_clean (ready : Ready t s ls (l :: behind) rs) (newline : NL ∉ l.body) (some : l.bytes ≠ [])
    (last : l.ended = false → behind = []) (parsed : Parsed t (parse_initline t s) (ls ++ [l]) rs') :
    (ls = [] → Comment l.body) ∧ l.ended = true ∧ (Comment l.body ∧ 0 ∉ l.body ∨
      ∃ r, WellFormed l.body r ∧ r.bytes.length < 255) := by
  have low := t.low
  by_cases comment_ : Comment l.body
  · obtain ⟨ended, zero⟩ := comment_clean (behind.flatMap Line.bytes) comment_ newline
      (fun unended => by rw [last unended]; rfl) ready.next parsed.near (by rw [parsed.sdata]; omega)
    exact ⟨fun _ => comment_, ended, Or.inl ⟨comment_, zero⟩⟩
  · have other : s.mem s.sdata ≠ ascii '#' := by
      have unread := ready.next.unread
      cases body : l.body with
      | nil =>
        have ended : l.ended = true := by
          by_contra unended
          exact some (by simp [Line.bytes, body, unended])
        rw [bytes_ended ended, body] at unread
        rw [unread.1]
        decide
      | cons c cs =>
        unfold Line.bytes at unread
        rw [body] at unread
        rw [unread.1]
        intro hash
        apply comment_
        rw [body, hash]
        rfl
    have gap : ls ≠ [] ∧ s.idata < s.sdata := by
      have loose : s.idata < s.sdata := by
        by_contra tight
        have stray := first_stray (t := t) (Nat.le_of_not_lt tight) other
        rw [parsed.near] at stray
        cases stray
      refine ⟨?_, loose⟩
      rintro rfl
      have walk := ready.walk.le
      have sdata := ready.sdata
      simp at sdata
      omega
    have more : (parse_initline t s).initcount = s.initcount + 1 := by
      rcases parse_other ready.backup other with more | null
      · exact more
      · have walk := parsed.walk.le
        omega
    rw [parsed.count, ready.count] at more
    rcases parsed.yields.snoc with ⟨r, rs'', rfl, form⟩ | none
    · refine ⟨fun empty => absurd empty gap.1, ?_, Or.inr ⟨r, form, parsed.walk.last⟩⟩
      by_contra unended
      have unended : l.ended = false := Bool.not_eq_true _ ▸ unended
      have here := ready.open_ gap.2
      rw [last unended] at here
      simp only [Line.bytes, unended, Bool.false_eq_true, if_false, List.append_nil, List.flatMap_nil] at here
      have stray := parse_unended form newline here
      rw [parsed.near] at stray
      cases stray
    · have same := (Yields.skip ready.yields none).count parsed.yields
      omega

/-- What a line has to be. -/
def Line.Clean (l : Line) : Prop :=
  l.ended = true ∧ (Comment l.body ∧ 0 ∉ l.body ∨ ∃ r, WellFormed l.body r ∧ r.bytes.length < 255)

theorem ready_line (ready : Ready t s ls (l :: behind) rs) (newline : NL ∉ l.body) (clean : l.Clean)
    (first : ls = [] → Comment l.body) : ∃ rs', Ready t (parse_initline t s) (ls ++ [l]) behind rs' := by
  obtain ⟨ended, ⟨comment_, zero⟩ | ⟨r, form, short⟩⟩ := clean
  · exact ⟨rs, ready_comment ready ended newline comment_ zero⟩
  · have gap : s.idata < s.sdata := by
      rcases ready.gap with ⟨empty, _⟩ | gap
      · exact absurd (first empty) (not_comment form)
      · exact gap
    exact ⟨_, ready_record ready ended newline gap form short⟩

/-! ## All lines -/

/-- The loop parses the lines that are left. -/
theorem parse_lines_ready (ready : Ready t s ls behind rs) (whole : Lines (ls ++ behind))
    (clean : ∀ l ∈ behind, l.Clean)
    (first : ls = [] → ∀ l, behind.head? = some l → Comment l.body) :
    ∃ u rs', parse_lines t (behind.length + 1) s = some u ∧ Ready t u (ls ++ behind) [] rs' := by
  induction behind generalizing s ls rs with
  | nil =>
    have fits := ready.fits
    refine ⟨s, rs, ?_, by simpa using ready⟩
    have done : ¬ s.sdata < t.sdata_end := by
      unfold Text.sdata_end
      simp at fits
      omega
    unfold parse_lines
    rw [if_neg done]
  | cons l behind ih =>
    obtain ⟨rs', next⟩ := ready_line ready (whole.body l (by simp)) (clean l (by simp))
      (fun empty => first empty l rfl)
    have regroup : ls ++ [l] ++ behind = ls ++ l :: behind := by simp
    obtain ⟨u, rs'', run, final⟩ := ih next (by rw [regroup]; exact whole)
      (fun m member => clean m (by simp [member])) (by simp)
    rw [regroup] at final
    refine ⟨u, rs'', ?_, final⟩
    have more : s.sdata < t.sdata_end := by
      have fits := ready.next.fits
      have some := List.length_pos_iff.mpr (whole.some l (by simp))
      unfold Text.sdata_end
      simp only [List.length_append] at fits
      omega
    rw [List.length_cons]
    unfold parse_lines
    rw [if_pos more]
    exact run

/-- The control arrays get the records in turn. -/
theorem arrays_ok {p q : Nat} (ip : Nat) (walk : Walk s.mem p rs q) (low : t.base ≤ p) (high : q ≤ ip)
    (inside : q ≤ t.base + t.size) (near : s.stray = false) :
    (arrays t rs.length s ip p).stray = false ∧ (arrays t rs.length s ip p).initcount = s.initcount ∧
      Arrays (arrays t rs.length s ip p).mem ip rs ∧
      ∀ a < ip, (arrays t rs.length s ip p).mem a = s.mem a := by
  induction rs generalizing s ip p with
  | nil => exact ⟨near, rfl, trivial, fun _ _ => rfl⟩
  | cons r rs ih =>
    obtain ⟨length, bytes, rest⟩ := walk
    have far := rest.le
    have long : 5 ≤ r.bytes.length := by
      simp [Record.bytes]
    have read (a : Nat) (above : p ≤ a) (below : a < p + (s.mem p).toNat) : s.seen t a = s := by
      apply seen_inside
      unfold Text.Inside
      omega
    have id1 : s.mem (p + 1) = r.id.1 := bytes.1
    have id2 : s.mem (p + 2) = r.id.2 := bytes.2.1
    rw [List.length_cons]
    unfold arrays
    simp only
    rw [read (p + 1) (by omega) (by omega), read (p + 2) (by omega) (by omega), read p (by omega) (by omega),
      id1, id2]
    generalize stored : put (put (put (put s.mem (ip + 2) r.id.1) (ip + 3) r.id.2) ip 0) (ip + 1) 0 = mem
    have below (a : Nat) (less : a < ip) : mem a = s.mem a := by
      rw [← stored, put_ne _ _ (by omega), put_ne _ _ (by omega), put_ne _ _ (by omega), put_ne _ _ (by omega)]
    have entry : Holds mem ip [0, 0, r.id.1, r.id.2] := by
      rw [← stored]
      refine ⟨?_, ?_, ?_, ?_, trivial⟩
      · rw [put_ne _ _ (by omega), put_same]
      · rw [put_same]
      · rw [put_ne _ _ (by omega), put_ne _ _ (by omega), put_ne _ _ (by omega), put_same]
      · rw [put_ne _ _ (by omega), put_ne _ _ (by omega), put_same]
    rw [below p (by omega)]
    have walk : Walk mem (p + (s.mem p).toNat) rs q := by
      apply rest.congr
      intro x _ less
      exact below x (by omega)
    obtain ⟨near', count, entries, kept⟩ := ih (s := { s with mem := mem }) (ip + 4) walk (by omega)
      (by omega) near
    refine ⟨near', count, ⟨?_, entries⟩, ?_⟩
    · apply entry.congr
      intro x _ less
      exact kept x less
    · intro a less
      rw [kept a (by omega)]
      exact below a less

/-! ## The table -/

theorem holds_getD {mem : Nat → UInt8} {a : Nat} {xs : List UInt8}
    (agree : ∀ i < xs.length, mem (a + i) = xs.getD i 0) : Holds mem a xs := by
  induction xs generalizing a with
  | nil => trivial
  | cons c xs ih =>
    refine ⟨agree 0 (by simp), ?_⟩
    apply ih
    intro i less
    have here := agree (i + 1) (by simpa using less)
    rw [show a + 1 + i = a + (i + 1) by omega, here]
    rfl

theorem ready_loaded (t : Text) (mem : Nat → UInt8) (default_rl : Nat) :
    Ready t (loaded t mem default_rl 0) [] (split t.bytes) [] := by
  have text := flatMap_split t.bytes
  refine ⟨⟨Yields.nil, rfl, rfl, rfl, rfl⟩, rfl, ?_, ?_, Or.inl ⟨rfl, rfl⟩⟩
  · rw [text]
    apply holds_getD
    intro i less
    have inside : t.Inside (t.base + i) := ⟨Nat.le_add_right _ _, Nat.add_lt_add_left less _⟩
    have here : (loaded t mem default_rl 0).sdata + i = t.base + i := rfl
    rw [here]
    simp [loaded, inside]
  · rw [text]
    rfl

/-- The line in place `j` of the text is what it has to be. -/
def CleanAt (t : Text) (j : Nat) : Prop :=
  ∀ l, (split t.bytes)[j]? = some l → l.Clean ∧ (j = 0 → Comment l.body)

/-- Clean lines are taken in turn. -/
theorem ready_rounds {i : Nat} (mem : Nat → UInt8) (default_rl : Nat) (bound : i ≤ (split t.bytes).length)
    (clean : ∀ j < i, CleanAt t j) : ∃ rs, Ready t ((parse_initline t)^[i] (loaded t mem default_rl 0))
      ((split t.bytes).take i) ((split t.bytes).drop i) rs := by
  have whole := split_lines t.bytes
  induction i with
  | zero => exact ⟨[], ready_loaded t mem default_rl⟩
  | succ i ih =>
    obtain ⟨rs, ready⟩ := ih (Nat.le_of_succ_le bound) (fun j less => clean j (Nat.lt_succ_of_lt less))
    have less : i < (split t.bytes).length := bound
    obtain ⟨line, first⟩ := clean i (Nat.lt_succ_self i) _ (List.getElem?_eq_getElem less)
    rw [List.drop_eq_getElem_cons less] at ready
    rw [Function.iterate_succ_apply', List.take_succ_eq_append_getElem less]
    apply ready_line ready (whole.body _ (List.getElem_mem less)) line
    intro empty
    apply first
    have size := congrArg List.length empty
    rw [List.length_take, List.length_nil] at size
    omega

/-- Where each round takes its line, the lines are clean. -/
theorem Right.clean {mem : Nat → UInt8} {default_rl : Nat} (right : Right t (loaded t mem default_rl 0)) (i : Nat) :
    CleanAt t i := by
  have whole := split_lines t.bytes
  induction i using Nat.strongRecOn with
  | ind i before =>
    intro l entry
    obtain ⟨less, same⟩ := List.getElem?_eq_some_iff.mp entry
    obtain ⟨rs, ready⟩ := ready_rounds mem default_rl (Nat.le_of_lt less) before
    obtain ⟨rs', parsed⟩ := right.rounds (i + 1) less
    have parts := List.drop_eq_getElem_cons less
    have here : split t.bytes = (split t.bytes).take i ++ (split t.bytes)[i] :: (split t.bytes).drop (i + 1) := by
      rw [← parts, List.take_append_drop]
    rw [Function.iterate_succ_apply', List.take_succ_eq_append_getElem less, same] at parsed
    rw [parts, same] at ready
    rw [same] at here
    have member : l ∈ split t.bytes := same ▸ List.getElem_mem less
    obtain ⟨first, clean⟩ := line_clean ready (whole.body l member) (whole.some l member)
      (whole.ended _ _ _ here) parsed
    refine ⟨clean, ?_⟩
    intro zero
    apply first
    rw [zero]
    rfl

theorem clean_lines {initcount : Nat} (clean : Clean t.bytes initcount) (i : Nat) : CleanAt t i := by
  intro l entry
  refine ⟨clean.lines l (List.mem_of_getElem? entry), ?_⟩
  intro zero
  apply clean.first
  rw [List.head?_eq_getElem?, ← zero]
  exact entry

/-- No records are counted before the first line. -/
theorem Right.fresh {mem : Nat → UInt8} {default_rl initcount : Nat}
    (right : Right t (loaded t mem default_rl initcount)) : initcount = 0 := by
  obtain ⟨rs, start⟩ := right.rounds 0 (Nat.zero_le _)
  have same : rs.length = ([] : List Record).length := start.yields.count Yields.nil
  have count : initcount = rs.length := start.count
  exact count.trans same

/-- The whole table, with its control arrays. -/
theorem parse_inittab_ready {initcount : Nat} (mem : Nat → UInt8) (default_rl : Nat)
    (clean : Clean t.bytes initcount) : ∃ fuel u initpid rs,
      parse_inittab t fuel (loaded t mem default_rl 0) = some (u, initpid) ∧ Yields (split t.bytes) rs ∧
        u.stray = false ∧ u.initcount = rs.length ∧ Walk u.mem t.base rs initpid ∧ Arrays u.mem initpid rs := by
  have whole := split_lines t.bytes
  obtain ⟨u, rs, run, ready⟩ := parse_lines_ready (ready_loaded t mem default_rl) (by simpa using whole)
    clean.lines (fun _ => clean.first)
  have fits := ready.fits
  have gap := ready.gap
  simp only [List.flatMap_nil, List.length_nil] at fits
  have bound : u.idata ≤ t.base + t.size := by omega
  obtain ⟨near, count, entries, kept⟩ := arrays_ok (s := { u with idata := u.idata + 4 * u.initcount })
    u.idata ready.walk (Nat.le_refl _) (Nat.le_refl _) bound ready.near
  rw [← ready.count] at near count entries kept
  refine ⟨(split t.bytes).length + 1, _, u.idata, rs, ?_, by simpa using ready.yields, near, ?_, ?_, entries⟩
  · unfold parse_inittab
    rw [run]
  · rw [count]
    exact ready.count
  · apply ready.walk.congr
    intro x _ less
    exact kept x less

/-- The table is parsed rightly if and only if its lines are clean, the first is a comment,
and no records are counted before. -/
theorem parse_inittab_right (t : Text) (mem : Nat → UInt8) (default_rl initcount : Nat) :
    Right t (loaded t mem default_rl initcount) ↔ Clean t.bytes initcount := by
  constructor
  · intro right
    have fresh := right.fresh
    subst fresh
    constructor
    · intro l head
      rw [List.head?_eq_getElem?] at head
      exact (right.clean 0 l head).2 rfl
    · intro l member
      obtain ⟨j, entry⟩ := List.mem_iff_getElem?.mp member
      exact (right.clean j l entry).1
    · rfl
  · intro clean
    have fresh := clean.fresh
    subst fresh
    constructor
    · intro i bound
      obtain ⟨rs, ready⟩ := ready_rounds mem default_rl bound (fun j _ => clean_lines clean j)
      exact ⟨rs, ready.toParsed⟩
    · exact parse_inittab_ready mem default_rl clean

end Rounds

/-- A table with one line. -/
def one_line : Text :=
  ⟨24576, ['i', 's', ':', '3', ':', 'o', 'f', 'f', ':', 'x', '\n'].map ascii, by decide⟩

theorem one_line_stray :
    (parse_initline one_line (loaded one_line (fun _ => 0) 2 0)).stray = true := by
  decide +kernel

/-- The id of the first line is copied onto its own colon. -/
theorem first_line_overwritten :
    (∃ l r, split one_line.bytes = [l] ∧ WellFormed l.body r) ∧
      ¬ Right one_line (loaded one_line (fun _ => 0) 2 0) := by
  constructor
  · refine ⟨⟨['i', 's', ':', '3', ':', 'o', 'f', 'f', ':', 'x'].map ascii, true⟩,
      ⟨(ascii 'i', ascii 's'), 8, 0, [ascii 'x']⟩, by decide, [ascii '3'], ⟨['o', 'f', 'f', ':'], 0, false, false⟩,
      ?_, ?_, ?_, ?_, ?_, ?_, ?_⟩
    · simp [keywords]
    · rfl
    · decide
    · intro c member
      rw [List.mem_singleton.mp member]
      decide
    · decide
    · decide
    · rfl
  · intro right
    obtain ⟨rs, parsed⟩ := right.rounds 1 (by decide)
    have near : (parse_initline one_line (loaded one_line (fun _ => 0) 2 0)).stray = false := parsed.near
    rw [one_line_stray] at near
    cases near

end Inittab
