import Mathlib.Algebra.Group.Nat.Defs
import Fuzix.Lib.Fuel
import Fuzix.Lib.Table
import Fuzix.Lib.Tiling
import Fuzix.Lib.Run

/-!
# The kernel memory pool

malloc.c of the kernel, for machines with a flat address space of 32 bits. The memory is seen
as the `struct block` at each address; what the users of a block keep in it is left out. The
loops run over linked lists and take fuel.
-/

namespace Kmalloc

open Table Tiling Fuel

/-- Pointers and `size_t` are below this. -/
def WORD : Nat := 2 ^ 32

/-- The bit of a length that says that the block is used. -/
def HIGH : Nat := 2 ^ 31

/-- `sizeof(struct block)`. -/
def HEADER : Nat := 8

theorem header_high : HEADER < HIGH := by decide

def NULL : Nat := 0

structure Block where
  next : Nat
  length : Nat
deriving DecidableEq

abbrev Memory := Nat → Block

/-- Where the static blocks are, and the pools, which are discontiguous. -/
class Machine where
  START : Nat
  DUMMY : Nat
  pools : List (Nat × Nat)
  pool : ∀ p ∈ pools, 0 < p.1 ∧ HEADER ≤ p.2 ∧ p.2 < HIGH ∧ p.1 + p.2 < WORD
  apart : pools.Pairwise fun p q => p.1 + p.2 < q.1 ∨ q.1 + q.2 < p.1
  start : 0 < START ∧ START + HEADER ≤ WORD ∧ ∀ p ∈ pools, p.1 + p.2 ≤ START ∨ START + HEADER < p.1
  dummy : ∀ p ∈ pools, p.1 + p.2 ≤ DUMMY ∨ DUMMY < p.1

export Machine (START DUMMY pools)

def UNUSED (b : Block) : Prop := b.length < HIGH

instance (b : Block) : Decidable (UNUSED b) := by unfold UNUSED; infer_instance

def setNext (m : Memory) (b next : Nat) : Memory := put m b { m b with next := next }

def setLength (m : Memory) (b length : Nat) : Memory := put m b { m b with length := length }

section
variable [Machine]

/-- The last block of the list. -/
def lastBlock (m : Memory) : Nat → Nat → Option Nat
  | 0, _ => none
  | fuel + 1, b => if (m b).next = NULL then some b else lastBlock m fuel (m b).next

def kmemaddblk (fuel base size : Nat) (m : Memory) : Option Memory :=
  (lastBlock m fuel START).map fun b => put (setNext m b base) base ⟨NULL, size⟩

/-- The loop of `find_smallest`, and the place of `b` behind it. -/
def search (m : Memory) (length : Nat) : Nat → Nat → Nat → Option Nat
  | 0, _, _ => none
  | fuel + 1, b, smallest =>
    if (m b).next = NULL then some b
    else
      let smallest := if UNUSED (m b) ∧ length ≤ (m b).length ∧ (m b).length < (m smallest).length then b else smallest
      search m length fuel (m b).next smallest

def find_smallest (fuel length : Nat) (m : Memory) : Option Nat :=
  (search m length fuel START DUMMY).map fun b => if b = DUMMY then NULL else b

/-- The block `b` is cut at `n`. -/
def cut (m : Memory) (b n size newsize : Nat) : Memory :=
  let m' := setNext m n (m b).next
  let m' := setNext m' b n
  let m' := setLength m' b size
  setLength m' n newsize

/-- `newsize` is compared with a `size_t`, so that it is not negative. -/
def split_block (m : Memory) (b size : Nat) : Memory :=
  let newsize := ((m b).length + WORD - size) % WORD
  let m := if HEADER * 4 < newsize then cut m b ((b + size) % WORD) size newsize else m
  setLength m b (if UNUSED (m b) then (m b).length + HIGH else (m b).length)

/-- The machines with 32 bits do not define another one. -/
def ALIGNUP (v : Nat) : Nat := v

def kmalloc (fuel size : Nat) (m : Memory) : Option (Nat × Memory) :=
  let size := (ALIGNUP size + HEADER) % WORD
  (find_smallest fuel size m).map fun b =>
    if b = NULL then (NULL, m) else ((b + HEADER) % WORD, split_block m b size)

/-- The loop of `merge_all_blocks`. -/
def merge : Nat → Memory → Nat → Option Memory
  | 0, _, _ => none
  | fuel + 1, m, b =>
    let n := (m b).next
    if n = NULL then some m
    else if UNUSED (m b) ∧ UNUSED (m n) ∧ (b + (m b).length) % WORD = n then
      merge fuel (put m b ⟨(m n).next, ((m b).length + (m n).length) % WORD⟩) b
    else merge fuel m n

def merge_all_blocks (fuel : Nat) (m : Memory) : Option Memory := merge fuel m START

inductive Panic where
  | badfree
deriving DecidableEq

def kfree (fuel p : Nat) (m : Memory) : Option (Except Panic Memory) :=
  let b := (p + WORD - HEADER) % WORD
  if UNUSED (m b) then some (.error .badfree)
  else (merge_all_blocks fuel (setLength m b ((m b).length % HIGH))).map .ok

end

/-! ## Lists of blocks -/

/-- The length field of a block. -/
def word (a : Piece) : Nat := if a.used then a.len + HIGH else a.len

/-- From `p` to `e` the memory links blocks for these pieces. -/
def Links (m : Memory) : Nat → List Piece → Nat → Prop
  | p, [], e => p = e
  | p, a :: l, e => p = a.addr ∧ p ≠ NULL ∧ a.len < HIGH ∧ (m p).length = word a ∧ Links m (m p).next l e

section
variable {m m' : Memory} {p q e : Nat} {a b : Piece} {l l' xs ys : List Piece}

theorem Links.append : Links m p (xs ++ ys) e ↔ ∃ q, Links m p xs q ∧ Links m q ys e := by
  induction xs generalizing p with
  | nil =>
    constructor
    · exact fun links => ⟨p, rfl, links⟩
    · rintro ⟨q, same, links⟩
      rw [show p = q from same]
      exact links
  | cons a xs ih =>
    constructor
    · rintro ⟨here, real, small, length, rest⟩
      obtain ⟨q, front, back⟩ := ih.mp rest
      exact ⟨q, ⟨here, real, small, length, front⟩, back⟩
    · rintro ⟨q, ⟨here, real, small, length, front⟩, back⟩
      exact ⟨here, real, small, length, ih.mpr ⟨q, front, back⟩⟩

/-- Only the blocks of the list matter. -/
theorem Links.frame (links : Links m p l e) (same : ∀ a ∈ l, m' a.addr = m a.addr) : Links m' p l e := by
  induction l generalizing p with
  | nil => exact links
  | cons a l ih =>
    obtain ⟨here, real, small, length, rest⟩ := links
    have block : m' p = m p := by
      rw [here]
      exact same a List.mem_cons_self
    refine ⟨here, real, small, ?_, ?_⟩
    · rw [block]
      exact length
    · rw [block]
      exact ih rest fun b member => same b (List.mem_cons_of_mem a member)

theorem word_unused (small : a.len < HIGH) (length : (m p).length = word a) : UNUSED (m p) ↔ a.used = false := by
  unfold UNUSED
  rw [length]
  unfold word
  cases a.used with
  | false => simpa using small
  | true => simp

/-- The list is determined. -/
theorem Links.unique (links : Links m p l NULL) (links' : Links m p l' NULL) : l = l' := by
  induction l generalizing p l' with
  | nil =>
    cases l' with
    | nil => rfl
    | cons a l' => exact absurd links links'.2.1
  | cons a l ih =>
    cases l' with
    | nil => exact absurd links' links.2.1
    | cons b l' =>
      obtain ⟨here, _, small, length, rest⟩ := links
      obtain ⟨here', _, small', length', rest'⟩ := links'
      rw [ih rest rest']
      have addr : a.addr = b.addr := here.symm.trans here'
      have used : a.used = b.used := by
        have both := (word_unused small length).symm.trans (word_unused small' length')
        cases ua : a.used <;> cases ub : b.used <;> simp_all
      have len : a.len = b.len := by
        have words := length.symm.trans length'
        unfold word at words
        rw [used] at words
        split at words <;> omega
      have whole : a = b := by
        cases a
        cases b
        simp_all
      rw [whole]

theorem Links.addr_ne (links : Links m p l e) : ∀ a ∈ l, a.addr ≠ NULL := by
  induction l generalizing p with
  | nil => exact fun a no => absurd no List.not_mem_nil
  | cons b l ih =>
    obtain ⟨here, real, _, _, rest⟩ := links
    intro a member
    rcases List.mem_cons.mp member with same | later
    · rw [same, ← here]
      exact real
    · exact ih rest a later

theorem Links.small (links : Links m p l e) : ∀ a ∈ l, a.len < HIGH := by
  induction l generalizing p with
  | nil => exact fun a no => absurd no List.not_mem_nil
  | cons b l ih =>
    obtain ⟨_, _, small, _, rest⟩ := links
    intro a member
    rcases List.mem_cons.mp member with same | later
    · rw [same]
      exact small
    · exact ih rest a later

/-! ## The loops -/

theorem Links.real (links : Links m p (l ++ [a]) e) : p ≠ NULL := by
  cases l with
  | nil => exact links.2.1
  | cons b l => exact links.2.1

section Loops
variable {fuel n smallest : Nat} {region : Nat → Prop}

theorem lastBlock_links (links : Links m p (l ++ [a]) NULL) (enough : l.length < fuel) :
    lastBlock m fuel p = some a.addr := by
  induction l generalizing p fuel with
  | nil =>
    obtain ⟨fuel, rfl⟩ := Nat.exists_eq_succ_of_ne_zero (Nat.ne_of_gt enough)
    have last : (m p).next = NULL := links.2.2.2.2
    rw [lastBlock, if_pos last]
    exact congrArg some links.1
  | cons b l ih =>
    obtain ⟨fuel, rfl⟩ := Nat.exists_eq_succ_of_ne_zero (Nat.ne_of_gt (Nat.zero_lt_of_lt enough))
    have rest : Links m (m p).next (l ++ [a]) NULL := links.2.2.2.2
    rw [lastBlock, if_neg rest.real]
    exact ih rest (Nat.lt_of_succ_lt_succ enough)

/-- The search returns the last block of the list, whatever it looks for. -/
theorem search_links (links : Links m p (l ++ [a]) NULL) (enough : l.length < fuel) :
    search m n fuel p smallest = some a.addr := by
  induction l generalizing p fuel smallest with
  | nil =>
    obtain ⟨fuel, rfl⟩ := Nat.exists_eq_succ_of_ne_zero (Nat.ne_of_gt enough)
    have last : (m p).next = NULL := links.2.2.2.2
    rw [search, if_pos last]
    exact congrArg some links.1
  | cons b l ih =>
    obtain ⟨fuel, rfl⟩ := Nat.exists_eq_succ_of_ne_zero (Nat.ne_of_gt (Nat.zero_lt_of_lt enough))
    have rest : Links m (m p).next (l ++ [a]) NULL := links.2.2.2.2
    rw [search, if_neg rest.real]
    exact ih rest (Nat.lt_of_succ_lt_succ enough)

theorem setLength_same (m : Memory) (b n : Nat) : setLength m b n b = ⟨(m b).next, n⟩ := put_same ..

theorem setLength_other (m : Memory) {b q : Nat} (n : Nat) (other : q ≠ b) : setLength m b n q = m q := put_ne _ _ other

theorem setNext_same (m : Memory) (b n : Nat) : setNext m b n b = ⟨n, (m b).length⟩ := put_same ..

theorem setNext_other (m : Memory) {b q : Nat} (n : Nat) (other : q ≠ b) : setNext m b n q = m q := put_ne _ _ other

/-- One block gets another length or another mark. -/
theorem Links.relabel (links : Links m p (l ++ a :: ys) e) (apart : ∀ c ∈ l ++ ys, c.addr ≠ a.addr)
    (addr : b.addr = a.addr) (small : b.len < HIGH) :
    Links (setLength m a.addr (word b)) p (l ++ b :: ys) e := by
  obtain ⟨q, front, here, real, _, _, rest⟩ := Links.append.mp links
  refine Links.append.mpr ⟨q, ?_, ?_⟩
  · refine front.frame fun c member => setLength_other m _ ?_
    exact apart c (List.mem_append_left _ member)
  · have block := setLength_same m a.addr (word b)
    refine ⟨here.trans addr.symm, real, small, ?_, ?_⟩
    · rw [here, block]
    · rw [here, block]
      rw [here] at rest
      refine rest.frame fun c member => setLength_other m _ ?_
      exact apart c (List.mem_append_right _ member)

theorem Links.length (links : Links m p (l ++ a :: ys) e) : (m a.addr).length = word a := by
  obtain ⟨q, _, here, _, _, length, _⟩ := Links.append.mp links
  rw [here] at length
  exact length

/-- `b->length |= 0x80000000`. -/
theorem Links.use (links : Links m p (l ++ a :: ys) e) (apart : ∀ c ∈ l ++ ys, c.addr ≠ a.addr) (unused : a.used = false) :
    Links (setLength m a.addr (if UNUSED (m a.addr) then (m a.addr).length + HIGH else (m a.addr).length)) p
      (l ++ { a with used := true } :: ys) e := by
  have small : a.len < HIGH := links.small a (List.mem_append_right _ List.mem_cons_self)
  have free : UNUSED (m a.addr) := (word_unused small links.length).mpr unused
  have marked : (m a.addr).length + HIGH = word { a with used := true } := by
    rw [links.length, word, unused]
    rfl
  rw [if_pos free, marked]
  exact links.relabel apart rfl small

/-- A block is added behind the last one. -/
theorem Links.add {base size : Nat} (links : Links m p (l ++ [a]) NULL) (apart : ∀ b ∈ l, b.addr ≠ a.addr)
    (fresh : ∀ b ∈ l ++ [a], b.addr ≠ base) (real : base ≠ NULL) (small : size < HIGH) :
    Links (put (setNext m a.addr base) base ⟨NULL, size⟩) p (l ++ [a] ++ [⟨base, size, false⟩]) NULL := by
  obtain ⟨q, front, here, realA, smallA, length, _⟩ := Links.append.mp links
  have other : a.addr ≠ base := fresh a (List.mem_append_right _ (List.mem_singleton.mpr rfl))
  have first : put (setNext m a.addr base) base ⟨NULL, size⟩ a.addr = ⟨base, (m a.addr).length⟩ := by
    rw [put_ne _ _ other, setNext_same]
  rw [List.append_assoc]
  refine Links.append.mpr ⟨q, ?_, here, realA, smallA, ?_, ?_, ?_, small, ?_, ?_⟩
  · refine front.frame fun b member => ?_
    rw [put_ne _ _ (fresh b (List.mem_append_left _ member)), setNext_other _ _ (apart b member)]
  · rw [here, first]
    rw [here] at length
    exact length
  · rw [here, first]
  · rw [here, first]
    exact real
  · rw [here, first]
    dsimp only
    rw [put_same]
    rfl
  · rw [here, first]
    dsimp only
    rw [put_same]
    rfl

/-- The last block is cut in two. -/
theorem Links.cut {t newsize : Nat} (links : Links m p (l ++ [a]) NULL)
    (apart : ∀ b ∈ l, b.addr ≠ a.addr ∧ b.addr ≠ t) (above : a.addr < t) (small : n < HIGH) (rest : newsize < HIGH) :
    Links (Kmalloc.cut m a.addr t n newsize) p (l ++ [⟨a.addr, n, false⟩, ⟨t, newsize, false⟩]) NULL := by
  obtain ⟨q, front, here, real, _, _, last⟩ := Links.append.mp links
  have first : Kmalloc.cut m a.addr t n newsize a.addr = ⟨t, n⟩ := by
    unfold Kmalloc.cut
    rw [setLength_other _ _ (Nat.ne_of_lt above), setLength_same, setNext_same]
  have second : Kmalloc.cut m a.addr t n newsize t = ⟨(m a.addr).next, newsize⟩ := by
    unfold Kmalloc.cut
    rw [setLength_same, setLength_other _ _ (Nat.ne_of_gt above), setNext_other _ _ (Nat.ne_of_gt above), setNext_same]
  have others : ∀ k, k ≠ a.addr → k ≠ t → Kmalloc.cut m a.addr t n newsize k = m k := by
    intro k left right
    unfold Kmalloc.cut
    rw [setLength_other _ _ right, setLength_other _ _ left, setNext_other _ _ left, setNext_other _ _ right]
  rw [here] at last real
  refine Links.append.mpr ⟨q, ?_, here, ?_, small, ?_, ?_, ?_, rest, ?_, ?_⟩
  · exact front.frame fun b member => others _ (apart b member).1 (apart b member).2
  · rw [here]
    exact real
  · rw [here, first]
    rfl
  · rw [here, first]
  · rw [here, first]
    unfold NULL
    dsimp only
    omega
  · rw [here, first]
    dsimp only
    rw [second]
    rfl
  · rw [here, first]
    dsimp only
    rw [second]
    exact last

/-- `merge_all_blocks` from a block of the list on. -/
theorem Links.merge (links : Links m p (a :: l) NULL) (tiles : Tiles region (xs ++ a :: l))
    (bound : ∀ b : Piece, 0 < b.len → (∀ x, b.covers x → region x) → b.limit ≤ WORD ∧ b.len < HIGH) :
    ∃ m', (∀ fuel, l.length < fuel → Kmalloc.merge fuel m p = some m') ∧ Links m' p (coalesce a l) NULL ∧
      ∀ q, (∀ b ∈ a :: l, b.addr ≠ q) → m' q = m q := by
  induction l generalizing m a xs p with
  | nil =>
    have last : (m p).next = NULL := links.2.2.2.2
    refine ⟨m, fun fuel enough => ?_, links, fun _ _ => rfl⟩
    obtain ⟨fuel, rfl⟩ := Nat.exists_eq_succ_of_ne_zero (Nat.ne_of_gt enough)
    rw [Kmalloc.merge]
    exact if_pos last
  | cons b l ih =>
    obtain ⟨here, real, small, length, rest⟩ := links
    have next : (m p).next = b.addr := rest.1
    have some : (m p).next ≠ NULL := rest.2.1
    have ha : a ∈ xs ++ a :: b :: l := List.mem_append_right _ List.mem_cons_self
    have hb : b ∈ xs ++ a :: b :: l := List.mem_append_right _ (List.mem_cons_of_mem _ List.mem_cons_self)
    have below : b.limit ≤ WORD := (bound b (tiles.some b hb) fun x => tiles.inside hb).1
    have addrs := (List.pairwise_append.mp tiles.addrs).2.1
    have others : ∀ c ∈ b :: l, c.addr ≠ p := by
      intro c member same
      exact (List.pairwise_cons.mp addrs).1 c member (here.symm.trans same.symm)
    have step : ∀ fuel, Kmalloc.merge (fuel + 1) m p =
        if UNUSED (m p) ∧ UNUSED (m b.addr) ∧ (p + (m p).length) % WORD = b.addr then
          Kmalloc.merge fuel (put m p ⟨(m b.addr).next, ((m p).length + (m b.addr).length) % WORD⟩) p
        else Kmalloc.merge fuel m b.addr := by
      intro fuel
      rw [Kmalloc.merge]
      rw [if_neg some, next]
    rw [next] at rest
    obtain ⟨_, _, smallB, lengthB, restB⟩ := rest
    by_cases joins : Joins a b
    · have free : (m p).length = a.len := by
        rw [length, word, joins.1]
        rfl
      have freeB : (m b.addr).length = b.len := by
        rw [lengthB, word, joins.2.1]
        rfl
      have joined := tiles.join joins
      have hj : a.join b ∈ xs ++ a.join b :: l := List.mem_append_right _ List.mem_cons_self
      have fits := bound (a.join b) (joined.some _ hj) fun x => joined.inside hj
      have sum : (a.len + b.len) % WORD = a.len + b.len := by
        apply Nat.mod_eq_of_lt
        have high : HIGH < WORD := by decide
        have total : a.len + b.len < HIGH := fits.2
        omega
      have meet : (p + a.len) % WORD = b.addr := by
        have limit := joins.2.2
        have positive := tiles.some b hb
        unfold Piece.limit at limit below
        rw [here, limit]
        exact Nat.mod_eq_of_lt (by omega)
      rw [coalesce_joins joins]
      have linked : Links (put m p ⟨(m b.addr).next, a.len + b.len⟩) p (a.join b :: l) NULL := by
        refine ⟨here, real, fits.2, ?_, ?_⟩
        · rw [put_same]
          rfl
        · rw [put_same]
          exact restB.frame fun c member => put_ne _ _ (others c (List.mem_cons_of_mem b member))
      obtain ⟨m', done, links', frame⟩ := ih linked joined
      refine ⟨m', fun fuel enough => ?_, links', fun q away => ?_⟩
      · obtain ⟨fuel, rfl⟩ := Nat.exists_eq_succ_of_ne_zero (Nat.ne_of_gt (Nat.zero_lt_of_lt enough))
        rw [step, if_pos ⟨(word_unused small length).mpr joins.1, (word_unused smallB lengthB).mpr joins.2.1,
          free ▸ meet⟩, free, freeB, sum]
        exact done fuel (Nat.lt_of_succ_lt_succ enough)
      · have notP : q ≠ p := fun same => away a List.mem_cons_self (here.symm.trans same.symm)
        rw [frame q ?_, put_ne _ _ notP]
        intro c member
        rcases List.mem_cons.mp member with same | later
        · rw [same]
          exact away a List.mem_cons_self
        · exact away c (List.mem_cons_of_mem a (List.mem_cons_of_mem b later))
    · have failed : ¬ (UNUSED (m p) ∧ UNUSED (m b.addr) ∧ (p + (m p).length) % WORD = b.addr) := by
        rintro ⟨free, freeB, meet⟩
        have unused := (word_unused small length).mp free
        rw [length, word, unused] at meet
        refine joins ⟨unused, (word_unused smallB lengthB).mp freeB, ?_⟩
        have limit := (bound a (tiles.some a ha) fun x => tiles.inside ha).1
        rw [next] at some
        unfold Piece.limit at limit ⊢
        unfold NULL at some
        rw [here] at meet
        by_cases whole : a.addr + a.len = WORD
        · have zero : (a.addr + if false = true then a.len + HIGH else a.len) % WORD = 0 := by
            rw [if_neg Bool.false_ne_true, whole, Nat.mod_self]
          omega
        · rw [if_neg Bool.false_ne_true, Nat.mod_eq_of_lt (by omega)] at meet
          exact meet
      rw [coalesce_apart joins]
      have shifted : Tiles region ((xs ++ [a]) ++ b :: l) := by
        rw [List.append_assoc]
        exact tiles
      have linked : Links m b.addr (b :: l) NULL := ⟨rfl, next ▸ some, smallB, lengthB, restB⟩
      obtain ⟨m', done, links', frame⟩ := ih linked shifted
      have block : m' p = m p := frame p others
      refine ⟨m', fun fuel enough => ?_, ⟨here, real, small, ?_, ?_⟩, fun q away => ?_⟩
      · obtain ⟨fuel, rfl⟩ := Nat.exists_eq_succ_of_ne_zero (Nat.ne_of_gt (Nat.zero_lt_of_lt enough))
        rw [step, if_neg failed]
        exact done fuel (Nat.lt_of_succ_lt_succ enough)
      · rw [block]
        exact length
      · rw [block, next]
        exact links'
      · exact frame q fun c member => away c (List.mem_cons_of_mem a member)

end Loops

end

end Kmalloc
