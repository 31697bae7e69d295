import Fuzix.Blkdev
import Fuzix.Lib.Run

/-!
# Partition tables

`mbr_parse` reads the boot record of a drive and then the extended boot records that are
chained to it, and stores the partitions that they name in the table of the drive. Sector
numbers have 32 bits. What it prints is left out.
-/

namespace Mbr

open Table Run
open Blkdev (Device)

abbrev Lba := BitVec 32
abbrev Sector := Nat → UInt8

def MAX_PARTITIONS : Nat := 15
def MBR_ENTRY_COUNT : Nat := 4
def MBR_SIGNATURE : Nat := 0xAA55

def le16 (b : Sector) (k : Nat) : Nat := (b k).toNat + 256 * (b (k + 1)).toNat

def le32 (b : Sector) (k : Nat) : Lba := BitVec.ofNat 32 (le16 b k + 65536 * le16 b (k + 2))

/-! ## A boot record -/

/-- `type_chs_last[0]` -/
def kind (b : Sector) (i : Nat) : Nat := (b (446 + 16 * i + 4)).toNat

def lba_first (b : Sector) (i : Nat) : Lba := le32 b (446 + 16 * i + 8)

def lba_count (b : Sector) (i : Nat) : Lba := le32 b (446 + 16 * i + 12)

def signature (b : Sector) : Nat := le16 b 510

/-- The entry is an extended boot record or a chained table. -/
def extended (kind : Nat) : Prop := kind = 0x05 ∨ kind = 0x0f ∨ kind = 0x85

instance (kind : Nat) : Decidable (extended kind) := by unfold extended; infer_instance

/-- A sector that can be read and is a boot record. -/
def record (disk : Lba → Option Sector) (lba : Lba) : Option Sector :=
  (disk lba).filter (fun b => signature b = MBR_SIGNATURE)

/-! ## The loop -/

structure State where
  lba : Lba
  seen : Nat
  ep_offset : Lba
  next : Nat
  blkdev : Device

def storeAt (d : Device) (n : Nat) (part : Lba × Lba) : Device :=
  { d with lbaFirst := put d.lbaFirst n part.1, lbaCount := put d.lbaCount n part.2 }

def State.store (st : State) (part : Lba × Lba) : State :=
  { st with blkdev := storeAt st.blkdev st.next part, next := st.next + 1 }

/-- The `switch` for entry `i` of the record at `br_offset`. -/
def entry (br_offset : Lba) (b : Sector) (st : State) (i : Nat) : State :=
  if kind b i = 0 then st
  else if extended (kind b i) then
    let st := { st with lba := st.ep_offset + lba_first b i }
    if 4 ≤ st.next then st else st.store (br_offset + lba_first b i, 2)
  else st.store (br_offset + lba_first b i, lba_count b i)

/-- A round of the `for` loop, which ends for good when the table is full. -/
def forEntry (br_offset : Lba) (b : Sector) (st : State) (i : Nat) : State :=
  if st.next < MAX_PARTITIONS then entry br_offset b st i else st

/-- What the first extended boot record changes. -/
def first (st : State) : State :=
  if st.seen = 1 then { st with ep_offset := st.lba, next := 4 } else st

/-- The `for` loop, with `br_offset` taken before it. -/
def entries (b : Sector) (st : State) : State :=
  upTo (forEntry st.lba b) MBR_ENTRY_COUNT { st with lba := 0 }

def parseRecord (b : Sector) (st : State) : State :=
  let st := entries b (first st)
  { st with seen := st.seen + 1 }

/-- One round, and whether another one follows. `fallback` is `CONFIG_MBR_OFFSET`. -/
def round (disk : Lba → Option Sector) (fallback : Option Lba) (st : State) : State × Bool :=
  match record disk st.lba with
  | none =>
    match fallback with
    | none => (st, false)
    | some offset => if st.lba = 0 then ({ st with lba := offset }, offset ≠ 0) else (st, false)
  | some b =>
    if 50 ≤ st.seen then (st, false)
    else (parseRecord b st, (parseRecord b st).lba ≠ 0)

/-- At most `fuel` sectors are read. -/
def rounds (disk : Lba → Option Sector) (fallback : Option Lba) : Nat → State → Option State
  | 0, _ => none
  | fuel + 1, st =>
    if (round disk fallback st).2 then rounds disk fallback fuel (round disk fallback st).1
    else some (round disk fallback st).1

def mbr_parse (disk : Lba → Option Sector) (fallback : Option Lba) (fuel : Nat) (d : Device) :
    Option Device :=
  (rounds disk fallback fuel ⟨0, 0, 0, 0, d⟩).map State.blkdev

/-! ## What the table is for -/

/-- Partitions stored from entry `n` on, while there is room. -/
def fill : Device → Nat → List (Lba × Lba) → Device
  | d, _, [] => d
  | d, n, part :: parts => if n < MAX_PARTITIONS then fill (storeAt d n part) (n + 1) parts else d

/-- The entries of a record, in order, that name a partition. -/
def parts (part : Nat → Option (Lba × Lba)) (n : Nat) : List (Lba × Lba) := (List.range n).filterMap part

/-- A primary partition, with its length given by `size`. -/
def primary (size : Nat → Lba → Lba) (b : Sector) (i : Nat) : Option (Lba × Lba) :=
  if kind b i = 0 then none else some (lba_first b i, size (kind b i) (lba_count b i))

/-- A logical partition starts relative to its own record. -/
def logical (br_offset : Lba) (b : Sector) (i : Nat) : Option (Lba × Lba) :=
  if kind b i = 0 ∨ extended (kind b i) then none else some (br_offset + lba_first b i, lba_count b i)

/-- The next record, named by the last link among the first `n` entries and relative to
`base`, or 0. -/
def linkTo (base : Lba) (b : Sector) (n : Nat) : Lba :=
  upTo (fun lba i => if extended (kind b i) then base + lba_first b i else lba) n 0

/-- The extended boot records from `lba` on, at most `n` of them. -/
def chain (disk : Lba → Option Sector) (base : Lba) : Nat → Lba → List (Lba × Sector)
  | 0, _ => []
  | n + 1, lba =>
    if lba = 0 then []
    else
      match record disk lba with
      | none => []
      | some b => (lba, b) :: chain disk base n (linkTo base b MBR_ENTRY_COUNT)

def logicals (records : List (Lba × Sector)) : List (Lba × Lba) :=
  records.flatMap (fun r => parts (logical r.1 r.2) MBR_ENTRY_COUNT)

/-- The drive whose record `b` is the boot record: its primary partitions, and then those of
the first 49 extended boot records. -/
def partitioned (size : Nat → Lba → Lba) (disk : Lba → Option Sector) (b : Sector) (d : Device) : Device :=
  let extension := linkTo 0 b MBR_ENTRY_COUNT
  fill (fill d 0 (parts (primary size b) MBR_ENTRY_COUNT)) 4 (logicals (chain disk extension 49 extension))

/-- The length of an extended partition is knobbled to prevent accidents. -/
def knobbled (kind : Nat) (count : Lba) : Lba := if extended kind then 2 else count

/-! ## The table fills up -/

section Fill
variable {d : Device} {n k : Nat} {L M : List (Lba × Lba)} {part : Nat → Option (Lba × Lba)} {p : Lba × Lba}

theorem fill_full (full : MAX_PARTITIONS ≤ n) : fill d n L = d := by
  cases L with
  | nil => rfl
  | cons p L =>
    rw [fill, if_neg (Nat.not_lt.mpr full)]

theorem fill_append : fill d n (L ++ M) = fill (fill d n L) (n + L.length) M := by
  induction L generalizing d n with
  | nil => rfl
  | cons p L ih =>
    have behind : n + (p :: L).length = n + 1 + L.length := by
      simp only [List.length_cons]
      omega
    rw [behind, List.cons_append, fill, fill]
    by_cases room : n < MAX_PARTITIONS
    · rw [if_pos room, if_pos room, ih]
    · rw [if_neg room, if_neg room, fill_full (by omega)]

theorem fill_one (room : n < MAX_PARTITIONS) : fill d n [p] = storeAt d n p := by
  rw [fill, if_pos room, fill]

theorem parts_succ (k : Nat) : parts part (k + 1) = parts part k ++ (part k).toList := by
  unfold parts
  rw [List.range_succ, List.filterMap_append]
  cases found : part k <;> simp [found]

theorem parts_le (k : Nat) : (parts part k).length ≤ k := by
  have bound := List.length_filterMap_le part (List.range k)
  rw [List.length_range] at bound
  exact bound

end Fill

/-! ## A record -/

section Record
variable {b : Sector} {br : Lba} {st : State} {d : Device}

/-- The loop over the entries has stored `L` from entry `n` on and has met the link. -/
structure Stored (d : Device) (n : Nat) (L : List (Lba × Lba)) (link : Lba) (st st' : State) : Prop where
  blkdev : st'.blkdev = fill d n L
  next : st'.next = min MAX_PARTITIONS (n + L.length)
  ep_offset : st'.ep_offset = st.ep_offset
  seen : st'.seen = st.seen
  lba : st'.next < MAX_PARTITIONS → st'.lba = link

theorem Stored.full {L L' : List (Lba × Lba)} {n : Nat} {link link' : Lba} {st' : State}
    (stored : Stored d n L link st st') (full : ¬ st'.next < MAX_PARTITIONS) :
    Stored d n (L ++ L') link' st st' := by
  have next := stored.next
  constructor
  · rw [fill_append, fill_full (by omega)]
    exact stored.blkdev
  · rw [List.length_append]
    omega
  · exact stored.ep_offset
  · exact stored.seen
  · exact fun room => absurd room full

/-- One more partition is stored. -/
theorem Stored.store {L : List (Lba × Lba)} {n : Nat} {link : Lba} {st' : State} {p : Lba × Lba}
    (stored : Stored d n L link st st') (room : st'.next < MAX_PARTITIONS) (lba : Lba) :
    Stored d n (L ++ [p]) lba st ({ st' with lba := lba }.store p) := by
  have next := stored.next
  have here : st'.next = n + L.length := by omega
  constructor
  · rw [fill_append, fill_one (by omega), ← stored.blkdev, ← here]
    rfl
  · rw [List.length_append]
    show st'.next + 1 = _
    simp only [List.length_singleton]
    omega
  · exact stored.ep_offset
  · exact stored.seen
  · exact fun _ => rfl

/-- A link alone. -/
theorem Stored.link {L : List (Lba × Lba)} {n : Nat} {link : Lba} {st' : State}
    (stored : Stored d n L link st st') (lba : Lba) :
    Stored d n (L ++ []) lba st { st' with lba := lba } := by
  rw [List.append_nil]
  exact ⟨stored.blkdev, stored.next, stored.ep_offset, stored.seen, fun _ => rfl⟩

theorem linkTo_succ (base : Lba) (b : Sector) (k : Nat) : linkTo base b (k + 1) =
    if extended (kind b k) then base + lba_first b k else linkTo base b k := rfl

theorem zero_plus (x : Lba) : 0 + x = x := BitVec.zero_add x

theorem not_extended_zero : ¬ extended 0 := by decide

/-- An extended boot record: its links are not stored. -/
theorem stored_logical (k : Nat) (logical' : 4 ≤ st.next) (table : st.next ≤ MAX_PARTITIONS) (empty : st.lba = 0) :
    Stored st.blkdev st.next (parts (logical br b) k) (linkTo st.ep_offset b k) st
      (upTo (forEntry br b) k st) := by
  induction k with
  | zero => exact ⟨rfl, by show st.next = min _ (_ + 0); omega, rfl, rfl, fun _ => empty⟩
  | succ k ih =>
    rw [parts_succ, linkTo_succ, upTo]
    generalize upTo (forEntry br b) k st = st' at *
    unfold forEntry
    by_cases room : st'.next < MAX_PARTITIONS
    · rw [if_pos room]
      have same := ih.lba room
      have low : 4 ≤ st'.next := by
        have next := ih.next
        unfold MAX_PARTITIONS at *
        omega
      unfold entry
      by_cases none : kind b k = 0
      · have nothing : logical br b k = .none := if_pos (Or.inl none)
        rw [if_pos none, nothing, none, if_neg not_extended_zero, ← same]
        exact ih.link st'.lba
      · rw [if_neg none]
        by_cases ext : extended (kind b k)
        · have nothing : logical br b k = .none := if_pos (Or.inr ext)
          rw [if_pos ext, if_pos ext, nothing]
          dsimp only
          rw [if_pos low, ← ih.ep_offset]
          exact ih.link _
        · have some : logical br b k = .some (br + lba_first b k, lba_count b k) :=
            if_neg (fun either => either.elim none ext)
          rw [if_neg ext, if_neg ext, some, ← same]
          exact ih.store room st'.lba
    · rw [if_neg room]
      exact ih.full room

/-- The boot record: its extended partitions are stored with the length 2. -/
theorem stored_primary {k : Nat} (few : k ≤ MBR_ENTRY_COUNT) (begins : st.next = 0) (empty : st.lba = 0)
    (base : st.ep_offset = 0) :
    Stored st.blkdev 0 (parts (primary knobbled b) k) (linkTo 0 b k) st (upTo (forEntry 0 b) k st) := by
  induction k with
  | zero => exact ⟨rfl, by rw [upTo, begins]; rfl, rfl, rfl, fun _ => empty⟩
  | succ k ih =>
    have ih := ih (by omega)
    rw [parts_succ, linkTo_succ, upTo]
    generalize upTo (forEntry 0 b) k st = st' at *
    have next := ih.next
    have few' : (parts (primary knobbled b) k).length ≤ k := parts_le k
    have low : st'.next < 4 := by
      unfold MAX_PARTITIONS MBR_ENTRY_COUNT at *
      omega
    have room : st'.next < MAX_PARTITIONS := by
      unfold MAX_PARTITIONS
      omega
    have same := ih.lba room
    unfold forEntry entry
    rw [if_pos room]
    by_cases none : kind b k = 0
    · have nothing : primary knobbled b k = .none := if_pos none
      rw [if_pos none, nothing, none, if_neg not_extended_zero, ← same]
      exact ih.link st'.lba
    · have some : primary knobbled b k = .some (lba_first b k, knobbled (kind b k) (lba_count b k)) := if_neg none
      rw [if_neg none, some]
      by_cases ext : extended (kind b k)
      · have size : knobbled (kind b k) (lba_count b k) = 2 := if_pos ext
        have link : st'.ep_offset + lba_first b k = 0 + lba_first b k := by rw [ih.ep_offset, base]
        rw [if_pos ext, if_pos ext, size]
        dsimp only
        rw [if_neg (by omega), link, zero_plus]
        exact ih.store room _
      · have size : knobbled (kind b k) (lba_count b k) = lba_count b k := if_neg ext
        rw [if_neg ext, if_neg ext, size, zero_plus, ← same]
        exact ih.store room st'.lba

end Record

/-! ## The chain -/

section Chain
variable {disk : Lba → Option Sector} {fallback : Option Lba} {b : Sector} {st st' : State} {d : Device} {fuel : Nat}

theorem chain_zero (base : Lba) (n : Nat) : chain disk base n 0 = [] := by
  cases n with
  | zero => rfl
  | succ n => rw [chain, if_pos rfl]

theorem chain_end {base lba : Lba} (n : Nat) (ends : record disk lba = none) : chain disk base n lba = [] := by
  cases n with
  | zero => rfl
  | succ n =>
    rw [chain, ends]
    split <;> rfl

theorem chain_next {base lba : Lba} {n : Nat} (some' : lba ≠ 0) (found : record disk lba = some b) :
    chain disk base (n + 1) lba = (lba, b) :: chain disk base n (linkTo base b MBR_ENTRY_COUNT) := by
  rw [chain, if_neg some', found]

theorem first_later (later : st.seen ≠ 1) : first st = st := if_neg later

theorem first_same (st : State) :
    (first st).lba = st.lba ∧ (first st).seen = st.seen ∧ (first st).blkdev = st.blkdev := by
  unfold first
  split
  · exact ⟨rfl, rfl, rfl⟩
  · exact ⟨rfl, rfl, rfl⟩

theorem logicals_cons (lba : Lba) (b : Sector) (records : List (Lba × Sector)) :
    logicals ((lba, b) :: records) = parts (logical lba b) MBR_ENTRY_COUNT ++ logicals records := List.flatMap_cons

section Parsed
variable (b : Sector) (st : State)

theorem parseRecord_eq : parseRecord b st =
    { entries b (first st) with seen := (entries b (first st)).seen + 1 } := by rw [parseRecord]

theorem parse_lba : (parseRecord b st).lba = (entries b (first st)).lba := by rw [parseRecord_eq]
theorem parse_seen : (parseRecord b st).seen = (entries b (first st)).seen + 1 := by rw [parseRecord_eq]
theorem parse_ep : (parseRecord b st).ep_offset = (entries b (first st)).ep_offset := by rw [parseRecord_eq]
theorem parse_next : (parseRecord b st).next = (entries b (first st)).next := by rw [parseRecord_eq]
theorem parse_blkdev : (parseRecord b st).blkdev = (entries b (first st)).blkdev := by rw [parseRecord_eq]

end Parsed

/-- A link of the record leads on, unless the table is full. -/
theorem Stored.rest {L : List (Lba × Lba)} {n m : Nat} {base : Lba}
    (stored : Stored d n L (linkTo base b MBR_ENTRY_COUNT) st st') (same : st.ep_offset = base) :
    fill d n (L ++ logicals (chain disk base m (linkTo base b MBR_ENTRY_COUNT))) =
      fill st'.blkdev st'.next (logicals (chain disk st'.ep_offset m st'.lba)) := by
  have next := stored.next
  rw [fill_append, ← stored.blkdev]
  by_cases room : st'.next < MAX_PARTITIONS
  · have here : st'.next = n + L.length := by omega
    rw [stored.lba room, stored.ep_offset, same, here]
  · rw [fill_full (by omega), fill_full (by omega)]

/-- The entries of an extended boot record. -/
theorem stored_record (low : 4 ≤ st.next) (table : st.next ≤ MAX_PARTITIONS) :
    Stored st.blkdev st.next (parts (logical st.lba b) MBR_ENTRY_COUNT)
      (linkTo st.ep_offset b MBR_ENTRY_COUNT) st (entries b st) := by
  have stored := @stored_logical b st.lba { st with lba := 0 } MBR_ENTRY_COUNT low table rfl
  exact ⟨stored.blkdev, stored.next, stored.ep_offset, stored.seen, stored.lba⟩

theorem rounds_stop (stops : round disk fallback st = (st', false)) :
    rounds disk fallback (fuel + 1) st = some st' := by
  rw [rounds, stops]
  rfl

theorem rounds_go (goes : round disk fallback st = (st', true)) :
    rounds disk fallback (fuel + 1) st = rounds disk fallback fuel st' := by
  rw [rounds, goes]
  rfl

theorem round_end (some' : st.lba ≠ 0) (ends : record disk st.lba = none) :
    round disk fallback st = (st, false) := by
  unfold round
  rw [ends]
  cases fallback with
  | none => rfl
  | some offset => exact if_neg some'

theorem round_many (found : record disk st.lba = some b) (many : 50 ≤ st.seen) :
    round disk fallback st = (st, false) := by
  unfold round
  rw [found]
  exact if_pos many

theorem round_record (found : record disk st.lba = some b) (few : ¬ 50 ≤ st.seen) :
    round disk fallback st = (parseRecord b st, decide ((parseRecord b st).lba ≠ 0)) := by
  unfold round
  rw [found]
  exact if_neg few

/-- A record is parsed, and the rounds go on from what it leaves. -/
theorem rounds_record {P : State → Prop} (found : record disk st.lba = some b) (few : ¬ 50 ≤ st.seen)
    (last : (parseRecord b st).lba = 0 → P (parseRecord b st))
    (more : (parseRecord b st).lba ≠ 0 → ∃ st', rounds disk fallback fuel (parseRecord b st) = some st' ∧ P st') :
    ∃ st', rounds disk fallback (fuel + 1) st = some st' ∧ P st' := by
  have here := @round_record disk fallback b st found few
  by_cases done : (parseRecord b st).lba = 0
  · rw [decide_eq_false (not_not.mpr done)] at here
    exact ⟨_, rounds_stop here, last done⟩
  · rw [decide_eq_true done] at here
    rw [rounds_go here]
    exact more done

/-- The rounds from an extended boot record on. -/
theorem parse_chain (some' : st.lba ≠ 0) (begun : 1 ≤ st.seen) (seen : st.seen ≤ 50) (low : 4 ≤ (first st).next)
    (table : (first st).next ≤ MAX_PARTITIONS) (enough : 51 ≤ fuel + st.seen) :
    ∃ st', rounds disk fallback fuel st = some st' ∧ st'.blkdev = fill st.blkdev (first st).next
      (logicals (chain disk (first st).ep_offset (50 - st.seen) st.lba)) := by
  induction fuel generalizing st with
  | zero => omega
  | succ fuel ih =>
    have same := first_same st
    cases found : record disk st.lba with
    | none =>
      refine ⟨st, rounds_stop (round_end some' found), ?_⟩
      rw [chain_end _ found]
      rfl
    | some b =>
      by_cases many : 50 ≤ st.seen
      · have last : 50 - st.seen = 0 := by omega
        rw [last]
        exact ⟨st, rounds_stop (round_many found many), rfl⟩
      · have left : 50 - st.seen = (50 - (st.seen + 1)) + 1 := by omega
        have stored := stored_record (b := b) low table
        have next := stored.next
        have counts : (parseRecord b st).seen = st.seen + 1 := by
          rw [parse_seen, stored.seen, same.2.1]
        have behind : fill st.blkdev (first st).next
            (logicals (chain disk (first st).ep_offset (50 - st.seen) st.lba)) =
            fill (parseRecord b st).blkdev (parseRecord b st).next
              (logicals (chain disk (parseRecord b st).ep_offset (50 - (st.seen + 1)) (parseRecord b st).lba)) := by
          rw [left, chain_next some' found, logicals_cons, parse_blkdev, parse_next, parse_ep, parse_lba]
          have rest := @Stored.rest disk _ _ _ _ _ _ (50 - (st.seen + 1)) _ stored rfl
          rw [same.2.2, same.1] at rest
          exact rest
        rw [behind]
        apply rounds_record found many
        · intro done
          rw [done, chain_zero]
          rfl
        · intro more
          have later : first (parseRecord b st) = parseRecord b st := first_later (by omega)
          have tail := ih more (by omega) (by omega)
            (by rw [later, parse_next]; unfold MAX_PARTITIONS at *; omega)
            (by rw [later, parse_next]; omega) (by omega)
          rw [later, counts] at tail
          exact tail

/-- The entries of the boot record. -/
theorem stored_boot (lba : st.lba = 0) (base : st.ep_offset = 0) (begins : st.next = 0) :
    Stored st.blkdev 0 (parts (primary knobbled b) MBR_ENTRY_COUNT) (linkTo 0 b MBR_ENTRY_COUNT) st (entries b st) := by
  have stored := @stored_primary b { st with lba := 0 } MBR_ENTRY_COUNT (Nat.le_refl _) begins rfl base
  unfold entries
  rw [lba]
  exact ⟨stored.blkdev, stored.next, stored.ep_offset, stored.seen, stored.lba⟩

/-- The boot record and what is chained to it. -/
theorem rounds_boot (found : record disk st.lba = some b) (lba : st.lba = 0) (seen : st.seen = 0)
    (base : st.ep_offset = 0) (begins : st.next = 0) (enough : 51 ≤ fuel + 1) :
    ∃ st', rounds disk fallback (fuel + 1) st = some st' ∧
      st'.blkdev = partitioned knobbled disk b st.blkdev := by
  have stored := @stored_boot b st lba base begins
  have few : (parts (primary knobbled b) MBR_ENTRY_COUNT).length ≤ MBR_ENTRY_COUNT := parts_le _
  have next := stored.next
  have link := stored.lba (by unfold MAX_PARTITIONS MBR_ENTRY_COUNT at *; omega)
  have before : first st = st := first_later (by omega)
  have one : (parseRecord b st).seen = 1 := by rw [parse_seen, before, stored.seen, seen]
  have extension : (parseRecord b st).lba = linkTo 0 b MBR_ENTRY_COUNT := by rw [parse_lba, before, link]
  have whole : partitioned knobbled disk b st.blkdev = fill (parseRecord b st).blkdev 4
      (logicals (chain disk (parseRecord b st).lba 49 (parseRecord b st).lba)) := by
    rw [extension, parse_blkdev, before, stored.blkdev]
    rfl
  rw [whole]
  apply rounds_record found (by omega)
  · intro done
    rw [done, chain_zero]
    rfl
  · intro more
    have begun : first (parseRecord b st) = { parseRecord b st with
        ep_offset := (parseRecord b st).lba, next := 4 } := if_pos one
    have four : (first (parseRecord b st)).next = 4 := congrArg State.next begun
    have tail := @parse_chain disk fallback _ fuel more (by omega) (by omega) (Nat.le_of_eq four.symm)
      (by rw [four]; decide) (by omega)
    rw [begun, one] at tail
    dsimp only at tail
    exact tail

/-- The whole function from a drive with a boot record. -/
theorem parse_record {fuel : Nat} (found : record disk 0 = some b) (enough : 51 ≤ fuel) :
    mbr_parse disk fallback fuel d = some (partitioned knobbled disk b d) := by
  cases fuel with
  | zero => omega
  | succ fuel =>
    obtain ⟨st', run, same⟩ := @rounds_boot disk fallback b ⟨0, 0, 0, 0, d⟩ fuel found rfl rfl rfl rfl enough
    unfold mbr_parse
    rw [run, Option.map_some, same]

/-! ## Every disk -/

/-- The table is written below `MAX_PARTITIONS` only. -/
structure Within (d : Device) (st : State) : Prop where
  next : st.next ≤ MAX_PARTITIONS
  first : ∀ j, MAX_PARTITIONS ≤ j → st.blkdev.lbaFirst j = d.lbaFirst j
  count : ∀ j, MAX_PARTITIONS ≤ j → st.blkdev.lbaCount j = d.lbaCount j

theorem Within.store {p : Lba × Lba} (within : Within d st) (room : st.next < MAX_PARTITIONS) : Within d (st.store p) := by
  constructor
  · exact room
  · intro j outside
    exact (put_ne _ _ (by omega)).trans (within.first j outside)
  · intro j outside
    exact (put_ne _ _ (by omega)).trans (within.count j outside)

theorem Within.forEntry {br : Lba} {i : Nat} (within : Within d st) : Within d (forEntry br b st i) := by
  unfold Mbr.forEntry entry
  split
  · rename_i room
    split
    · exact within
    · split
      · have linked : Within d { st with lba := st.ep_offset + lba_first b i } :=
          ⟨within.next, within.first, within.count⟩
        dsimp only
        split
        · exact linked
        · exact linked.store room
      · exact within.store room
  · exact within

theorem entries_seen (b : Sector) (st : State) : (entries b st).seen = st.seen := by
  unfold entries
  refine upTo_keeps (I := fun _ (u : State) => u.seen = st.seen) rfl ?_
  intro k u _ same
  rw [← same]
  unfold Mbr.forEntry entry State.store
  split
  · split
    · rfl
    · split
      · dsimp only
        split
        · rfl
        · rfl
      · rfl
  · rfl

theorem Within.parse (within : Within d st) : Within d (parseRecord b st) := by
  have begins : Within d { Mbr.first st with lba := 0 } := by
    unfold Mbr.first
    split
    · exact ⟨(by decide : 4 ≤ MAX_PARTITIONS), within.first, within.count⟩
    · exact ⟨within.next, within.first, within.count⟩
  have all : Within d (entries b (Mbr.first st)) :=
    upTo_keeps (I := fun _ u => Within d u) begins (fun _ _ _ before => before.forEntry)
  rw [parseRecord_eq]
  exact ⟨all.next, all.first, all.count⟩

/-- From a sector other than 0 the rounds end. -/
theorem rounds_end (some' : st.lba ≠ 0) (seen : st.seen ≤ 50) (enough : 51 ≤ fuel + st.seen) (within : Within d st) :
    ∃ st', rounds disk fallback fuel st = some st' ∧ Within d st' := by
  induction fuel generalizing st with
  | zero => omega
  | succ fuel ih =>
    cases found : record disk st.lba with
    | none => exact ⟨st, rounds_stop (round_end some' found), within⟩
    | some b =>
      by_cases many : 50 ≤ st.seen
      · exact ⟨st, rounds_stop (round_many found many), within⟩
      · have counts : (parseRecord b st).seen = st.seen + 1 := by
          rw [parse_seen, entries_seen, (first_same st).2.1]
        exact rounds_record found many (fun _ => within.parse)
          (fun more => ih more (by omega) (by omega) within.parse)

end Chain

end Mbr
