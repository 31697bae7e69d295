import Mathlib.Data.List.DropRight

/-!
# The name of the boot device

`bootdevice` of start.c with `parse_args` and `system_param`. A C string is the list of its
characters, with the memory behind the terminator; `reach` is the highest place that was
read. Numbers are taken modulo 2^16, which is what the result keeps of them.
-/

namespace Bootdevice

def BAD_ROOT_DEV : Nat := 0xFFFF

class Platform where
  /-- The platform knows the argument. -/
  platform_param : List Char → Bool

export Platform (platform_param)

structure CString where
  chars : List Char
  nonzero : '\x00' ∉ chars
  /-- What follows the terminator. -/
  beyond : Nat → Char

/-- The character at the place `p`. -/
def CString.at (s : CString) (p : Nat) : Char :=
  if p < s.chars.length then s.chars.getD p '\x00'
  else if p = s.chars.length then '\x00'
  else s.beyond (p - s.chars.length - 1)

/-- `while (*devname == ' ') devname++`. -/
def CString.skip (s : CString) : CString where
  chars := s.chars.dropWhile (· = ' ')
  nonzero := fun zero => s.nonzero ((List.dropWhile_sublist _).subset zero)
  beyond := s.beyond

def lower (c : Char) : Char := if 'A' ≤ c ∧ c ≤ 'Z' then Char.ofNat (c.toNat ||| 0x20) else c

/-! ## Matching the names -/

structure Scan where
  reach : Nat
  /-- `b`, `p` and `match` behind the loop. -/
  found : Option (Nat × Nat × Bool)

def Scan.after (p : Nat) (scan : Scan) : Scan := { scan with reach := max p scan.reach }

/-- The loop over `bdn`. -/
def scan (s : CString) : List Char → Nat → Nat → Bool → Scan
  | [], p, b, matched => ⟨p, some (b, p, matched)⟩
  | c :: bdn, p, b, matched =>
    let pc := lower (s.at p)
    if c = ',' then
      if matched = true ∧ p ≠ 0 then ⟨p, some (b, p, matched)⟩
      else (scan s bdn 0 (b + 0x100) true).after p
    else if matched = true ∧ c = '#' then
      if pc < 'a' ∨ 'p' < pc then ⟨p, none⟩
      else ⟨p, some (b + ((pc.toNat - 'a'.toNat) <<< 4), p + 1, matched)⟩
    else (scan s bdn (p + 1) b (matched && decide (pc = c))).after p

/-! ## The arguments -/

def separator (c : Char) : Bool := c = ' ' ∨ c = '\n'

structure Params where
  ro : Bool
  argv : List (List Char)
  overrun : Bool

/-- `system_param` and `add_argument` for an argument with what follows it. The third
character is looked at before the second. -/
def param [Platform] (arg rest : List Char) (a : Params) : Params :=
  let a := { a with overrun := a.overrun || decide (arg = ['r'] ∧ rest = []) }
  if arg = ['r', 'o'] then { a with ro := true }
  else if arg = ['r', 'w'] then { a with ro := false }
  else if platform_param arg then a
  else { a with argv := a.argv ++ [arg] }

/-- The loop of `parse_args`; each round takes a character. -/
def parse_args [Platform] : Nat → List Char → Params → Params
  | 0, _, a => a
  | n + 1, p, a =>
    if p = [] then a
    else
      let s := p.dropWhile separator
      let rest := s.dropWhile (fun c => ¬ separator c)
      parse_args n rest.tail (param (s.takeWhile (fun c => ¬ separator c)) rest a)

/-! ## bootdevice -/

def digit (c : Char) : Bool := '0' ≤ c ∧ c ≤ '9'

/-- The loop that reads the index, with `match`. -/
def index : List Char → Nat → Bool → Nat × List Char × Bool
  | [], n, matched => (n, [], matched)
  | c :: p, n, matched =>
    if digit c then index p ((n * 10 + (c.toNat - '0'.toNat)) % 65536) true else (n, c :: p, matched)

structure Result where
  dev : Nat
  params : Params

/-- The index, the end of the string and the result; `p` is not behind the terminator. -/
def finish [Platform] (p : List Char) (b : Nat) (matched : Bool) (a : Params) : Result :=
  let (n, p, matched) := index p 0 matched
  let dev := if matched then (b + n) % 65536 else BAD_ROOT_DEV
  match p with
  | [] => ⟨dev, a⟩
  | c :: _ =>
    if c = '\n' ∨ c = '\r' then ⟨dev, a⟩
    else if c = ' ' then ⟨dev, parse_args p.length p a⟩
    else ⟨BAD_ROOT_DEV, a⟩

def bootdevice [Platform] (bdn devname : CString) (ro : Bool) (argv : List (List Char)) : Result :=
  let s := devname.skip
  let loop := scan s bdn.chars 0 0 true
  let a : Params := ⟨ro, argv, decide (s.chars.length < loop.reach)⟩
  match loop.found with
  | none => ⟨BAD_ROOT_DEV, a⟩
  | some (b, p, true) => finish (s.chars.drop p) b true a
  | some (_, _, false) => finish s.chars 0 false a

/-! ## The grammar -/

/-- The names between the commas. -/
def slots : List Char → List (List Char)
  | [] => [[]]
  | c :: cs =>
    if c = ',' then [] :: slots cs
    else
      match slots cs with
      | [] => [[c]]
      | name :: names => (c :: name) :: names

def decimal (digits : List Char) : Nat := digits.foldl (fun n c => n * 10 + (c.toNat - '0'.toNat)) 0

/-- The end of the line, or a space and arguments. -/
def Ends (tail : List Char) : Prop := ∀ c, tail.head? = some c → c = '\n' ∨ c = '\r' ∨ c = ' '

/-- Digits, which may be none, and the end. -/
def Index (str : List Char) (n : Nat) (tail : List Char) : Prop :=
  Ends tail ∧ ∃ digits, str = digits ++ tail ∧ (∀ c ∈ digits, digit c = true) ∧ n = decimal digits

def lettered (name : List Char) : Bool := name.getLast? = some '#'

/-- The string begins with the name, and with a drive letter where the name asks for one. -/
def Named (name str : List Char) (letter : Nat) (rest : List Char) : Prop :=
  (lettered name ∧ ∃ head c, str = head ++ c :: rest ∧ head.map lower = name.dropLast ∧
      'a' ≤ lower c ∧ lower c ≤ 'p' ∧ letter = (lower c).toNat - 'a'.toNat) ∨
    ¬ lettered name ∧ name ≠ [] ∧ letter = 0 ∧ ∃ head, str = head ++ rest ∧ head.map lower = name

inductive Reading where
  | device (slot letter n : Nat) (lettered : Bool)
  | number (n : Nat)

def Reading.value : Reading → Nat
  | device slot letter n _ => (slot <<< 8) + (letter <<< 4) + n
  | number n => n

/-- The parts fit their fields. -/
def Reading.Fits : Reading → Prop
  | device slot letter n lettered => slot < 256 ∧ letter < 16 ∧ n < if lettered then 16 else 256
  | number n => n < 65536

/-- The string without its leading spaces can be read so; `tail` is what ends it. -/
inductive Reads (bdn str : List Char) : Reading → List Char → Prop where
  | device {slot letter n : Nat} {name rest tail : List Char} (entry : (slots bdn)[slot]? = some name)
      (named : Named name str letter rest) (index : Index rest n tail) :
      Reads bdn str (Reading.device slot letter n (lettered name)) tail
  | number {n : Nat} {tail : List Char} (digits : str.head?.any digit) (index : Index str n tail) :
      Reads bdn str (Reading.number n) tail

/-- What the string stands for. -/
def Denotes (bdn str : List Char) (v : Nat) : Prop :=
  (∃ r tail, Reads bdn str r tail ∧ r.Fits ∧ r.value = v) ∨
    v = BAD_ROOT_DEV ∧ ¬ ∃ r tail, Reads bdn str r tail ∧ r.Fits

/-- The result is what the string stands for, and nothing behind it is read. -/
def Right [Platform] (bdn devname : CString) (ro : Bool) (argv : List (List Char)) : Prop :=
  (bootdevice bdn devname ro argv).params.overrun = false ∧
    ∀ v, Denotes bdn.chars devname.skip.chars v → (bootdevice bdn devname ro argv).dev = v

/-! ## What the code takes a string for -/

/-- The string begins with the name as far as the first `#`. -/
def Begins (name str : List Char) : Prop :=
  name ≠ [] ∧ name.takeWhile (· ≠ '#') <+: str.map lower

/-- The first name that the string begins with. -/
def First (bdn str : List Char) (k : Nat) (name : List Char) : Prop :=
  (slots bdn)[k]? = some name ∧ Begins name str ∧ ∀ j < k, ∀ m, (slots bdn)[j]? = some m → ¬ Begins m str

/-- The name to the end of its first `#`. -/
def cut (name : List Char) : List Char :=
  if '#' ∈ name then name.takeWhile (· ≠ '#') ++ ['#'] else name

/-- The number of the string by that name, or by itself if there is none. An empty name at
the end of the table is then taken for a match. -/
inductive Taken (bdn str : List Char) : Nat → List Char → Prop where
  | name {k letter n : Nat} {name rest tail : List Char} (first : First bdn str k name)
      (named : Named (cut name) str letter rest) (index : Index rest n tail) :
      Taken bdn str ((k <<< 8) + (letter <<< 4) + n) tail
  | number {n : Nat} {tail : List Char} (none : ∀ name ∈ slots bdn, ¬ Begins name str)
      (last : (slots bdn).getLast? ≠ some []) (digits : str.head?.any digit) (index : Index str n tail) :
      Taken bdn str n tail
  | empty {n : Nat} {tail : List Char} (none : ∀ name ∈ slots bdn, ¬ Begins name str)
      (last : (slots bdn).getLast? = some []) (index : Index str n tail) :
      Taken bdn str ((((slots bdn).length - 1) <<< 8) + n) tail

/-- No name that is passed is longer than the string. -/
def Short (bdn str : List Char) : Prop :=
  ∀ (k : Nat) (name : List Char), (slots bdn)[k]? = some name →
    (∀ j ≤ k, ∀ m, (slots bdn)[j]? = some m → ¬ Begins m str) → name.length ≤ str.length

/-- The number is the one that the string stands for. -/
def Agrees (bdn str : List Char) : Prop :=
  ∀ v, Denotes bdn str v →
    (∃ n tail, Taken bdn str n tail ∧ n % 65536 = v) ∨
      (¬ ∃ n tail, Taken bdn str n tail) ∧ v = BAD_ROOT_DEV

variable {s : CString} {bdn str name rest tail : List Char} {p q b k n : Nat} {matched : Bool}

theorem reach_ge (s : CString) (bdn : List Char) (p b : Nat) (matched : Bool) :
    p ≤ (scan s bdn p b matched).reach := by
  unfold scan
  cases bdn with
  | nil => exact Nat.le_refl p
  | cons c bdn =>
    simp only
    split
    · split
      · exact Nat.le_refl p
      · exact Nat.le_max_left _ _
    · split
      · split <;> exact Nat.le_refl p
      · exact Nat.le_max_left _ _

/-- A place that is passed is not the highest. -/
theorem after_scan (less : p ≤ q) : (scan s bdn q b matched).after p = scan s bdn q b matched := by
  have bound := reach_ge s bdn q b matched
  unfold Scan.after
  rw [Nat.max_eq_right (Nat.le_trans less bound)]

theorem at_end (here : s.chars.drop p = []) (bound : p ≤ s.chars.length) : s.at p = '\x00' := by
  have equal : p = s.chars.length := by
    have := List.drop_eq_nil_iff.mp here
    omega
  unfold CString.at
  rw [if_neg (by omega), if_pos equal]

theorem scan_pass (plain : ',' ∉ name) (bdn : List Char) (p b : Nat) :
    scan s (name ++ bdn) p b false = scan s bdn (p + name.length) b false := by
  induction name generalizing p with
  | nil => rfl
  | cons c name ih =>
    have other : c ≠ ',' := fun same => plain (by simp [same])
    have rest := ih (fun inside => plain (by simp [inside])) (p + 1)
    have step : scan s (c :: name ++ bdn) p b false = (scan s (name ++ bdn) (p + 1) b false).after p := by
      simp [scan, other]
    rw [step, rest, after_scan (by omega)]
    congr 1
    simp
    omega

instance (name str : List Char) : Decidable (Begins name str) := by unfold Begins; infer_instance

/-- What the loop has found once the string begins with the name in slot `k`. -/
def took (s : CString) (name : List Char) (k : Nat) : Scan :=
  if '#' ∈ name then
    let p := (name.takeWhile (· ≠ '#')).length
    let pc := lower (s.at p)
    if pc < 'a' ∨ 'p' < pc then ⟨p, none⟩
    else ⟨p, some ((k <<< 8) + ((pc.toNat - 'a'.toNat) <<< 4), p + 1, true)⟩
  else ⟨name.length, some (k <<< 8, name.length, true)⟩

/-- The loop by slots. -/
def search (s : CString) : List (List Char) → Nat → Scan
  | [], k => ⟨0, some (k <<< 8, 0, true)⟩
  | name :: names, k =>
    if Begins name s.chars then took s name k
    else if names = [] then ⟨name.length, some (k <<< 8, name.length, decide (name = []))⟩
    else (search s names (k + 1)).after name.length

/-- The digits that follow do not tell numbers apart that agree so far. -/
theorem decimal_congr (digits : List Char) {n m : Nat} (agree : n % 65536 = m % 65536) :
    digits.foldl (fun n c => n * 10 + (c.toNat - '0'.toNat)) n % 65536 =
      digits.foldl (fun n c => n * 10 + (c.toNat - '0'.toNat)) m % 65536 := by
  induction digits generalizing n m with
  | nil => exact agree
  | cons c digits ih =>
    apply ih
    have step : (n * 10 + (c.toNat - '0'.toNat)) % 65536 = (m * 10 + (c.toNat - '0'.toNat)) % 65536 := by
      omega
    exact step

theorem index_eq (p : List Char) (n : Nat) (matched : Bool) (less : n < 65536) :
    index p n matched =
      ((p.takeWhile digit).foldl (fun n c => n * 10 + (c.toNat - '0'.toNat)) n % 65536,
        p.dropWhile digit, matched || p.head?.any digit) := by
  induction p generalizing n matched with
  | nil => simp [index, Nat.mod_eq_of_lt less]
  | cons c p ih =>
    unfold index
    by_cases here : digit c = true
    · rw [if_pos here, ih _ true (Nat.mod_lt _ (by decide)), List.takeWhile_cons_of_pos here,
        List.dropWhile_cons_of_pos here, List.foldl_cons,
        decimal_congr _ (Nat.mod_mod _ _)]
      simp [here]
    · rw [if_neg here, List.takeWhile_cons_of_neg here, List.dropWhile_cons_of_neg here]
      simp [here, Nat.mod_eq_of_lt less]

instance (tail : List Char) : Decidable (Ends tail) :=
  decidable_of_iff (tail = [] ∨ tail.head? = some '\n' ∨ tail.head? = some '\r' ∨ tail.head? = some ' ') <| by
    cases tail with
    | nil => simp [Ends]
    | cons c tail => simp [Ends]

/-! ## The first name -/

/-- How a string is taken that begins with none. -/
theorem taken_none (none : ∀ name ∈ slots bdn, ¬ Begins name str) {n : Nat} {tail : List Char} :
    Taken bdn str n tail ↔
      ((slots bdn).getLast? = some [] ∨ str.head?.any digit = true) ∧
        ∃ i, Index str i tail ∧
          n = (if (slots bdn).getLast? = some [] then ((slots bdn).length - 1) <<< 8 else 0) + i := by
  constructor
  · intro taken
    cases taken with
    | name first => exact absurd first.2.1 (none _ (List.mem_of_getElem? first.1))
    | number _ last digits index => exact ⟨Or.inr digits, _, index, by simp [last]⟩
    | empty _ last index => exact ⟨Or.inl last, _, index, by simp [last]⟩
  · rintro ⟨matched, i, index, value⟩
    by_cases last : (slots bdn).getLast? = some []
    · rw [value, if_pos last]
      exact Taken.empty none last index
    · rw [value, if_neg last, Nat.zero_add]
      exact Taken.number none last (matched.resolve_left last) index

section
variable [Platform]

/-- The arguments are parsed behind a space. -/
def parsed (tail : List Char) (a : Params) : Params :=
  if tail.head? = some ' ' then parse_args tail.length tail a else a

/-- The number is that of the string as it is taken. -/
def Outcome (bdn str : List Char) (a : Params) (result : Result) : Prop :=
  (∃ n tail, Taken bdn str n tail ∧ result = ⟨n % 65536, parsed tail a⟩) ∨
    (¬ ∃ n tail, Taken bdn str n tail) ∧ result = ⟨BAD_ROOT_DEV, a⟩

end

/-! ## Examples of the comment -/

instance bare : Platform := ⟨fun _ => false⟩

/-- `"hd#,fd"`. -/
def names : CString := ⟨['h', 'd', '#', ',', 'f', 'd'], by decide, fun _ => '\x00'⟩

end Bootdevice
