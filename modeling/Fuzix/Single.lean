import Fuzix.Lib.Memory

/-!
# Swapping into high memory

With memory for one process only, swapping a process out squeezes its bytes into the space
between its top and `ramtop`, downwards with a run-length code, and moves `ramtop` below
them; the last image out is the first one back. The encoder and the decoder of single.c.
The addresses that either writes are kept. What is printed is left out.
-/

namespace Single

open Memory

abbrev Addr := BitVec 16

def ENOMEM : Nat := 12

def LCODE : UInt8 := 0xC7
def LCODE_QUOTED : UInt8 := 0
def LCODE_END : UInt8 := 1

structure State where
  mem : Bytes 16
  ramtop : Addr
  wrote : List Addr

def State.put (st : State) (a : Addr) (b : UInt8) : State :=
  { st with mem := fun x => if x = a then b else st.mem x, wrote := a :: st.wrote }

/-! ## The encoder -/

/-- The loop of `count`: the place behind the run, its length, and how much is left. -/
def countOn (mem : Bytes 16) (c : UInt8) : Nat → Addr → Nat → Nat → Addr × Nat × Nat
  | 0, s, ct, l => (s, ct, l)
  | fuel + 1, s, ct, l =>
    if mem s = c ∧ 1 < l ∧ ct < 255 then countOn mem c fuel (s + 1) (ct + 1) (l - 1) else (s, ct, l)

def count (mem : Bytes 16) (s : Addr) (l : Nat) : Addr × Nat × Nat := countOn mem (mem s) 252 (s + 1) 3 l

/-- The loop of `do_swap_out`, which takes a byte at least in every round: where `p` is at its
end, or nothing if there is no room. `top` is `u_top`. -/
def pack (top : Addr) : Nat → Addr → Addr → Nat → State → Option Addr × State
  | 0, _, p, _, st => (some p, st)
  | fuel + 1, s, p, l, st =>
    if l = 0 then (some p, st)
    else if (p - top).toNat < 6 then (none, st)
    else if 4 < l ∧ st.mem s = st.mem (s + 1) ∧ st.mem s = st.mem (s + 2) then
      let c := st.mem s
      let st := st.put p LCODE
      let run := count st.mem (s + 2) (l - 2)
      pack top fuel run.1 (p - 3) (run.2.2 - 1) ((st.put (p - 1) (UInt8.ofNat run.2.1)).put (p - 2) c)
    else if st.mem s = LCODE then
      pack top fuel (s + 1) (p - 2) (l - 1) ((st.put p LCODE).put (p - 1) LCODE_QUOTED)
    else pack top fuel (s + 1) (p - 1) (l - 1) (st.put p (st.mem s))

/-- The end marker, and the pointer to the beginning of the block. -/
def finish (p : Addr) (st : State) : State :=
  let low := UInt8.ofNat st.ramtop.toNat
  let high := UInt8.ofNat (st.ramtop.toNat / 256)
  { (((st.put p LCODE).put (p - 1) LCODE_END).put (p - 2) high).put (p - 3) low with ramtop := p - 3 }

def do_swap_out (top s l : Addr) (st : State) : Nat × State :=
  let packed := pack top l.toNat s (st.ramtop - 1) l.toNat st
  match packed.1 with
  | none => (ENOMEM, packed.2)
  | some p => (0, finish p packed.2)

/-! ## The decoder -/

/-- `for (i = *p; i > 0; i--)` -/
def fill (c : UInt8) : Nat → Addr → Addr → State → Addr × Addr × State
  | 0, d, l, st => (d, l, st)
  | i + 1, d, l, st => fill c i (d + 1) (l - 1) (st.put d c)

/-- `l` may pass zero in the middle of a run, and then goes on from the other end. -/
def unpack : Nat → Addr → Addr → Addr → State → Option State
  | 0, _, _, _, _ => none
  | fuel + 1, d, p, l, st =>
    if l = 0 then some st
    else if st.mem p ≠ LCODE then unpack fuel (d + 1) (p - 1) (l - 1) (st.put d (st.mem p))
    else if st.mem (p - 1) = LCODE_QUOTED then
      unpack fuel (d + 1) (p - 1 - 1) (l - 1) (st.put d LCODE)
    else
      let filled := fill (st.mem (p - 1 - 1)) (st.mem (p - 1)).toNat d l st
      unpack fuel filled.1 (p - 1 - 2) filled.2.1 filled.2.2

def oldRamtop (st : State) : Addr :=
  BitVec.ofNat 16 ((st.mem st.ramtop).toNat + 256 * (st.mem (st.ramtop + 1)).toNat)

def do_swap_in (fuel : Nat) (d l : Addr) (st : State) : Option State :=
  (unpack fuel d (oldRamtop st) l st).map fun st' => { st' with ramtop := oldRamtop st }

/-! ## What they are for -/

/-- The image comes back as it was, `ramtop` with it, and nothing else is written. -/
def Restored (before : State) (s l : Addr) (st : State) : Prop :=
  ∃ fuel after, do_swap_in fuel s l st = some after ∧ after.ramtop = before.ramtop ∧
    (∀ a, Span s l.toNat a → after.mem a = before.mem a) ∧ ∀ a ∈ after.wrote, Span s l.toNat a

/-- Only memory from the top of the process up is used, and the image is restored even if the
process's memory and the image have changed since. -/
def Kept (top s l : Addr) (st : State) : Prop :=
  (∀ a ∈ (do_swap_out top s l st).2.wrote, top ≤ a) ∧
    ∀ mem : Bytes 16, (∀ a, top ≤ a → ¬ Span s l.toNat a → mem a = (do_swap_out top s l st).2.mem a) →
      Restored st s l ⟨mem, (do_swap_out top s l st).2.ramtop, []⟩

/-- The process ends below `ramtop`, and the image is no part of the space between them. -/
structure Placed (top s l ramtop : Addr) : Prop where
  live : 0 < top
  below : top ≤ ramtop
  clear : ∀ a, Span s l.toNat a → a < top ∨ ramtop < a

/-! ## How far the encoder goes -/

section Out
variable {top s p q r a : Addr} {l fuel : Nat} {st t u : State} {b : UInt8}

/-- Between `p` and `q` nothing above `p` was touched. -/
structure Went (top p : Addr) (st : State) (q : Addr) (t : State) : Prop where
  down : (q - top).toNat ≤ (p - top).toNat
  ramtop : t.ramtop = st.ramtop
  wrote : ∀ a ∈ t.wrote, a ∈ st.wrote ∨ (a - top).toNat ≤ (p - top).toNat
  kept : ∀ a, (p - top).toNat < (a - top).toNat → t.mem a = st.mem a
  more : ∀ a ∈ st.wrote, a ∈ t.wrote

theorem Went.refl : Went top p st p st where
  down := Nat.le_refl _
  ramtop := rfl
  wrote := fun _ => Or.inl
  kept := fun _ _ => rfl
  more := fun _ => id

theorem Went.trans (first : Went top p st q t) (second : Went top q t r u) : Went top p st r u where
  down := Nat.le_trans second.down first.down
  ramtop := second.ramtop.trans first.ramtop
  wrote := by
    intro a new
    rcases second.wrote a new with old | low
    · exact first.wrote a old
    · exact Or.inr (Nat.le_trans low first.down)
  kept := by
    intro a above
    rw [second.kept a (Nat.lt_of_le_of_lt first.down above), first.kept a above]
  more := fun a old => second.more a (first.more a old)

/-- A byte at `p` or below it. -/
theorem Went.put (went : Went top p st q t) (low : (a - top).toNat ≤ (p - top).toNat) :
    Went top p st q (t.put a b) where
  down := went.down
  ramtop := went.ramtop
  wrote := by
    intro c new
    rcases List.mem_cons.1 new with same | old
    · rw [same]
      exact Or.inr low
    · exact went.wrote c old
  kept := by
    intro c above
    have apart : c ≠ a := by
      intro same
      rw [same] at above
      omega
    have other : (t.put a b).mem c = t.mem c := if_neg apart
    rw [other, went.kept c above]
  more := fun c old => List.mem_cons_of_mem a (went.more c old)

theorem Went.lower (went : Went top p st q t) (low : (r - top).toNat ≤ (p - top).toNat) :
    Went top p st r t where
  down := low
  ramtop := went.ramtop
  wrote := went.wrote
  kept := went.kept
  more := went.more

theorem sub_top (k : Nat) (le : k ≤ (p - top).toNat) :
    (p - BitVec.ofNat 16 k - top).toNat = (p - top).toNat - k := by
  have bound := (p - top).isLt
  have small : (BitVec.ofNat 16 k).toNat = k := by
    rw [BitVec.toNat_ofNat]
    exact Nat.mod_eq_of_lt (by omega)
  have swap : p - BitVec.ofNat 16 k - top = p - top - BitVec.ofNat 16 k := by
    rw [← sub_add, ← sub_add, BitVec.add_comm]
  rw [swap, BitVec.toNat_sub_of_le, small]
  rw [BitVec.le_def, small]
  exact le

/-- One round stores three bytes at most, the first one at `p`. -/
theorem pack_next (left : l ≠ 0) (room : 6 ≤ (p - top).toNat) : ∃ s' q l' t,
    pack top (fuel + 1) s p l st = pack top fuel s' q l' t ∧ Went top p st q t ∧
      (p - top).toNat ≤ (q - top).toNat + 3 ∧ p ∈ t.wrote := by
  have guard : ¬ (p - top).toNat < 6 := Nat.not_lt.2 room
  have one : (p - 1 - top).toNat = (p - top).toNat - 1 := sub_top 1 (by omega)
  have two : (p - 2 - top).toNat = (p - top).toNat - 2 := sub_top 2 (by omega)
  have three : (p - 3 - top).toNat = (p - top).toNat - 3 := sub_top 3 (by omega)
  by_cases run : 4 < l ∧ st.mem s = st.mem (s + 1) ∧ st.mem s = st.mem (s + 2)
  · refine ⟨_, _, _, _, by rw [pack, if_neg left, if_neg guard, if_pos run], ?_, by omega, ?_⟩
    · apply Went.lower (q := p) _ (by omega)
      exact ((Went.refl.put (Nat.le_refl _)).put (by omega)).put (by omega)
    · exact List.mem_cons_of_mem _ (List.mem_cons_of_mem _ List.mem_cons_self)
  · by_cases escape : st.mem s = LCODE
    · refine ⟨_, _, _, _, by rw [pack, if_neg left, if_neg guard, if_neg run, if_pos escape], ?_, by omega, ?_⟩
      · apply Went.lower (q := p) _ (by omega)
        exact (Went.refl.put (Nat.le_refl _)).put (by omega)
      · exact List.mem_cons_of_mem _ List.mem_cons_self
    · refine ⟨_, _, _, _, by rw [pack, if_neg left, if_neg guard, if_neg run, if_neg escape], ?_, by omega, ?_⟩
      · apply Went.lower (q := p) _ (by omega)
        exact Went.refl.put (Nat.le_refl _)
      · exact List.mem_cons_self

/-- The whole loop leaves room for the end marker. -/
theorem pack_went (packed : pack top fuel s p l st = (some q, t)) : Went top p st q t ∧
    (fuel ≠ 0 → l ≠ 0 → 3 ≤ (q - top).toNat ∧ p ∈ t.wrote) := by
  induction fuel generalizing s p l st with
  | zero =>
    cases packed
    exact ⟨Went.refl, fun empty => absurd rfl empty⟩
  | succ fuel ih =>
    by_cases done : l = 0
    · rw [pack, if_pos done] at packed
      cases packed
      exact ⟨Went.refl, fun _ left => absurd done left⟩
    · by_cases full : (p - top).toNat < 6
      · rw [pack, if_neg done, if_pos full] at packed
        cases congrArg Prod.fst packed
      · obtain ⟨s', p', l', st', next, went, near, first⟩ :=
          pack_next (s := s) done (Nat.le_of_not_lt full)
        rw [next] at packed
        obtain ⟨rest, enough⟩ := ih packed
        refine ⟨went.trans rest, fun _ _ => ⟨?_, rest.more p first⟩⟩
        by_cases last : fuel ≠ 0 ∧ l' ≠ 0
        · exact (enough last.1 last.2).1
        · have stays : q = p' := by
            cases fuel with
            | zero =>
              cases packed
              rfl
            | succ fuel =>
              have none_left : l' = 0 := by
                by_contra left
                exact last ⟨Nat.succ_ne_zero fuel, left⟩
              rw [pack, if_pos none_left] at packed
              cases packed
              rfl
          rw [stays]
          omega

/-- The marker and the pointer take four bytes. -/
theorem finish_went (room : 3 ≤ (p - top).toNat) :
    ∀ a, (a ∈ (finish p st).wrote → a ∈ st.wrote ∨ (a - top).toNat ≤ (p - top).toNat) ∧
      ((p - top).toNat < (a - top).toNat → (finish p st).mem a = st.mem a) := by
  have one : (p - 1 - top).toNat = (p - top).toNat - 1 := sub_top 1 (by omega)
  have two : (p - 2 - top).toNat = (p - top).toNat - 2 := sub_top 2 (by omega)
  have three : (p - 3 - top).toNat = (p - top).toNat - 3 := sub_top 3 room
  have went : Went top p st p ((((st.put p LCODE).put (p - 1) LCODE_END).put (p - 2)
      (UInt8.ofNat (st.ramtop.toNat / 256))).put (p - 3) (UInt8.ofNat st.ramtop.toNat)) :=
    (((Went.refl.put (Nat.le_refl _)).put (by omega)).put (by omega)).put (by omega)
  intro a
  exact ⟨went.wrote a, went.kept a⟩

end Out

/-! ## Where the decoder begins -/

section In
variable {top s d p a ramtop : Addr} {l : Addr} {n fuel : Nat} {st t : State} {b c : UInt8}

/-- Either the first byte stored is still there, or the byte behind the image was written. -/
def Trail (s : Addr) (n : Nat) (b : UInt8) (d : Addr) (st : State) : Prop :=
  (∃ k, 1 ≤ k ∧ k ≤ n ∧ d = s + BitVec.ofNat 16 k ∧ st.mem s = b) ∨ s + BitVec.ofNat 16 n ∈ st.wrote

theorem Trail.put (small : n < 65536) (trail : Trail s n b d st) : Trail s n b (d + 1) (st.put d c) := by
  rcases trail with ⟨k, pos, le, here, first⟩ | past
  · by_cases last : k = n
    · right
      rw [here, last]
      exact List.mem_cons_self
    · left
      have apart : s ≠ d := by
        rw [here]
        bv_omega
      have other : (st.put d c).mem s = st.mem s := if_neg apart
      refine ⟨k + 1, by omega, by omega, ?_, other.trans first⟩
      rw [here, BitVec.ofNat_add, BitVec.add_assoc]
      rfl
  · exact Or.inr (List.mem_cons_of_mem d past)

theorem fill_trail (small : n < 65536) (i : Nat) (trail : Trail s n b d st) :
    Trail s n b (fill c i d l st).1 (fill c i d l st).2.2 := by
  induction i generalizing d l st with
  | zero => exact trail
  | succ i ih => exact ih (trail.put small)

theorem unpack_trail (small : n < 65536) (trail : Trail s n b d st)
    (unpacked : unpack fuel d p l st = some t) : t.mem s = b ∨ s + BitVec.ofNat 16 n ∈ t.wrote := by
  induction fuel generalizing d p l st with
  | zero => cases unpacked
  | succ fuel ih =>
    by_cases done : l = 0
    · rw [unpack, if_pos done] at unpacked
      cases unpacked
      rcases trail with ⟨_, _, _, _, first⟩ | past
      · exact Or.inl first
      · exact Or.inr past
    · by_cases plain : st.mem p ≠ LCODE
      · rw [unpack, if_neg done, if_pos plain] at unpacked
        exact ih (trail.put small) unpacked
      · by_cases quoted : st.mem (p - 1) = LCODE_QUOTED
        · rw [unpack, if_neg done, if_neg plain, if_pos quoted] at unpacked
          exact ih (trail.put small) unpacked
        · rw [unpack, if_neg done, if_neg plain, if_neg quoted] at unpacked
          exact ih (fill_trail small _ trail) unpacked

/-- The decoder takes the byte at the old `ramtop` for the first byte of the image. -/
theorem not_restored {before : State} (nonempty : l ≠ 0) (plain : st.mem (oldRamtop st) ≠ LCODE)
    (other : before.mem s ≠ st.mem (oldRamtop st)) : ¬ Restored before s l st := by
  rintro ⟨fuel, after, swapped, _, same, inside⟩
  have bound := l.isLt
  have pos : 0 < l.toNat := Nat.pos_of_ne_zero fun zero => nonempty (BitVec.eq_of_toNat_eq zero)
  unfold do_swap_in at swapped
  cases fuel with
  | zero => cases swapped
  | succ fuel =>
    rw [unpack, if_neg nonempty, if_pos plain] at swapped
    obtain ⟨t, unpacked, result⟩ := Option.map_eq_some_iff.1 swapped
    have first : (st.put s (st.mem (oldRamtop st))).mem s = st.mem (oldRamtop st) := if_pos rfl
    have trail : Trail s l.toNat (st.mem (oldRamtop st)) (s + 1) (st.put s (st.mem (oldRamtop st))) :=
      Or.inl ⟨1, Nat.le_refl 1, pos, rfl, first⟩
    rw [← result] at same inside
    rcases unpack_trail bound trail unpacked with kept | past
    · exact other ((same s (Span.first pos)).symm.trans kept)
    · have reached := inside _ past
      unfold Span at reached
      bv_omega

end In

/-! ## Which images are kept -/

section Kept
variable {top s l ramtop : Addr} {st : State}

/-- Memory from the top up to `ramtop`. -/
theorem area (lt : top < ramtop) (a : Addr) :
    (a - top).toNat ≤ (ramtop - 1 - top).toNat ↔ top ≤ a ∧ a < ramtop := by
  bv_omega

theorem oldRamtop_finish (p : Addr) (mem : Bytes 16) (low : mem (p - 3) = (finish p st).mem (p - 3))
    (high : mem (p - 2) = (finish p st).mem (p - 2)) :
    oldRamtop ⟨mem, (finish p st).ramtop, []⟩ = st.ramtop := by
  have bound := st.ramtop.isLt
  have next : p - 3 + 1 = p - 2 := by bv_omega
  have apart : p - 2 ≠ p - 3 := by bv_omega
  have lowByte : (finish p st).mem (p - 3) = UInt8.ofNat st.ramtop.toNat := if_pos rfl
  have highByte : (finish p st).mem (p - 2) = UInt8.ofNat (st.ramtop.toNat / 256) :=
    (if_neg apart).trans (if_pos rfl)
  have here : (finish p st).ramtop = p - 3 := rfl
  unfold oldRamtop
  dsimp only
  rw [here, next, low, high, lowByte, highByte, UInt8.toNat_ofNat', UInt8.toNat_ofNat']
  apply BitVec.eq_of_toNat_eq
  rw [BitVec.toNat_ofNat]
  omega

theorem swap_out_zero (top s : Addr) (st : State) : do_swap_out top s 0 st = (0, finish (st.ramtop - 1) st) := rfl

theorem swap_out_accepted (accepted : (do_swap_out top s l st).1 = 0) : ∃ p t,
    pack top l.toNat s (st.ramtop - 1) l.toNat st = (some p, t) ∧ do_swap_out top s l st = (0, finish p t) := by
  unfold do_swap_out at accepted ⊢
  dsimp only at accepted ⊢
  cases packed : pack top l.toNat s (st.ramtop - 1) l.toNat st with
  | mk found t =>
    rw [packed] at accepted
    cases found with
    | none =>
      have wrong : ENOMEM = 0 := accepted
      exact absurd wrong (by decide)
    | some p => exact ⟨p, t, rfl, rfl⟩

/-- The image fits, whatever else is in memory. -/
def Fits (top s l ramtop : Addr) (image : Bytes 16) : Prop :=
  ∀ mem, (∀ a, Span s l.toNat a → mem a = image a) → (do_swap_out top s l ⟨mem, ramtop, []⟩).1 = 0

/-- With an empty area the encoder goes below the top at once. -/
theorem not_kept_full (live : 0 < top) (nonempty : l ≠ 0) (full : st.ramtop = top)
    (accepted : (do_swap_out top s l st).1 = 0) : ¬ Kept top s l st := by
  rintro ⟨above, _⟩
  obtain ⟨p, t, packed, result⟩ := swap_out_accepted accepted
  have pos : l.toNat ≠ 0 := fun zero => nonempty (BitVec.eq_of_toNat_eq zero)
  have first := ((pack_went packed).2 pos pos).2
  rw [result] at above
  have low := above (st.ramtop - 1) (List.mem_cons_of_mem _ (List.mem_cons_of_mem _
    (List.mem_cons_of_mem _ (List.mem_cons_of_mem _ first))))
  rw [full] at low
  bv_omega

/-- The byte at `ramtop` comes back in the place of the first byte. -/
theorem not_kept_shifted (lt : top < st.ramtop) (nonempty : l ≠ 0)
    (accepted : (do_swap_out top s l st).1 = 0) (plain : st.mem st.ramtop ≠ LCODE)
    (other : st.mem s ≠ st.mem st.ramtop) : ¬ Kept top s l st := by
  rintro ⟨_, restored⟩
  obtain ⟨p, t, packed, result⟩ := swap_out_accepted accepted
  have pos : l.toNat ≠ 0 := fun zero => nonempty (BitVec.eq_of_toNat_eq zero)
  obtain ⟨went, enough⟩ := pack_went packed
  have room := (enough pos pos).1
  have back := restored (do_swap_out top s l st).2.mem (fun _ _ _ => rfl)
  rw [result] at back
  have place : oldRamtop ⟨(finish p t).mem, (finish p t).ramtop, []⟩ = st.ramtop :=
    (oldRamtop_finish p _ rfl rfl).trans went.ramtop
  have far : (st.ramtop - 1 - top).toNat < (st.ramtop - top).toNat := by bv_omega
  have untouched : (finish p t).mem st.ramtop = st.mem st.ramtop :=
    ((finish_went room st.ramtop).2 (Nat.lt_of_le_of_lt went.down far)).trans (went.kept _ far)
  apply not_restored nonempty _ _ back
  · dsimp only
    rw [place, untouched]
    exact plain
  · dsimp only
    rw [place, untouched]
    exact other

/-- An empty image takes four bytes. -/
theorem kept_empty (placed : Placed top s 0 st.ramtop) (fresh : st.wrote = []) :
    Kept top s 0 st ↔ top.toNat + 4 ≤ st.ramtop.toNat := by
  have live := placed.live
  have below := placed.below
  unfold Kept
  rw [swap_out_zero]
  constructor
  · rintro ⟨above, _⟩
    by_contra short
    have wrote : (finish (st.ramtop - 1) st).wrote =
        (st.ramtop - 1 - 3) :: (st.ramtop - 1 - 2) :: (st.ramtop - 1 - 1) :: (st.ramtop - 1) :: st.wrote := rfl
    have under : top - 1 ∈ (finish (st.ramtop - 1) st).wrote := by
      rw [wrote]
      simp only [List.mem_cons]
      have near : top - 1 = st.ramtop - 1 - 3 ∨ top - 1 = st.ramtop - 1 - 2 ∨
          top - 1 = st.ramtop - 1 - 1 ∨ top - 1 = st.ramtop - 1 := by bv_omega
      rcases near with fourth | third | second | first
      · exact Or.inl fourth
      · exact Or.inr (Or.inl third)
      · exact Or.inr (Or.inr (Or.inl second))
      · exact Or.inr (Or.inr (Or.inr (Or.inl first)))
    have low := above _ under
    bv_omega
  · intro enough
    have lt : top < st.ramtop := by bv_omega
    have room : 3 ≤ (st.ramtop - 1 - top).toNat := by bv_omega
    constructor
    · intro a new
      rcases (finish_went room a).1 new with old | low
      · rw [fresh] at old
        cases old
      · exact ((area lt a).1 low).1
    · intro mem same
      refine ⟨1, _, rfl, ?_, fun a inside => absurd inside not_span_zero, fun a new => absurd new List.not_mem_nil⟩
      apply oldRamtop_finish
      · exact same _ (by bv_omega) not_span_zero
      · exact same _ (by bv_omega) not_span_zero

/-- No image is kept whatever else is in memory, but for the empty one. -/
theorem swap_keeps (top s l ramtop : Addr) (image : Bytes 16) (placed : Placed top s l ramtop)
    (fits : Fits top s l ramtop image) :
    (∀ mem, (∀ a, Span s l.toNat a → mem a = image a) → Kept top s l ⟨mem, ramtop, []⟩) ↔
      l = 0 ∧ top.toNat + 4 ≤ ramtop.toNat := by
  constructor
  · intro kept
    by_cases empty : l = 0
    · rw [empty] at placed kept
      exact ⟨empty, (kept_empty placed rfl).1 (kept image fun _ _ => rfl)⟩
    · exfalso
      by_cases lt : top < ramtop
      · have pos : 0 < l.toNat := Nat.pos_of_ne_zero fun zero => empty (BitVec.eq_of_toNat_eq zero)
        have byte : ∃ b : UInt8, b ≠ LCODE ∧ image s ≠ b := by
          by_cases zero : image s = 0
          · exact ⟨1, by decide, by rw [zero]; decide⟩
          · exact ⟨0, by decide, zero⟩
        obtain ⟨b, plain, other⟩ := byte
        have away : ∀ a, Span s l.toNat a → a ≠ ramtop := by
          intro a inside same
          rcases placed.clear a inside with low | high
          · bv_omega
          · bv_omega
        have same : ∀ a, Span s l.toNat a → (if a = ramtop then b else image a) = image a :=
          fun a inside => if_neg (away a inside)
        have there : (if ramtop = ramtop then b else image ramtop) = b := if_pos rfl
        apply not_kept_shifted lt empty
          (fits _ same) _ _ (kept _ same)
        · dsimp only
          rw [there]
          exact plain
        · dsimp only
          rw [there, same s (Span.first pos)]
          exact other
      · have below := placed.below
        have full : ramtop = top := by bv_omega
        exact not_kept_full placed.live empty full (fits image fun _ _ => rfl) (kept image fun _ _ => rfl)
  · rintro ⟨empty, enough⟩ mem _
    rw [empty] at placed ⊢
    exact (kept_empty placed rfl).2 enough

end Kept

/-- A process of one byte. -/
theorem swap_keeps_one : Placed 1 0 1 0xf000 ∧ Fits 1 0 1 0xf000 (fun _ => 0) ∧
    ¬ ∀ mem, (∀ a, Span 0 1 a → mem a = 0) → Kept 1 0 1 ⟨mem, 0xf000, []⟩ := by
  have placed : Placed 1 0 1 0xf000 := by
    refine ⟨by decide, by decide, ?_⟩
    intro a inside
    unfold Span at inside
    left
    bv_omega
  have fits : Fits 1 0 1 0xf000 (fun _ => 0) := by
    intro mem same
    have zero : mem 0 = 0 := same 0 (by decide)
    have plain : mem 0 ≠ LCODE := by
      rw [zero]
      decide
    have short : ¬ (4 < 1 ∧ mem 0 = mem (0 + 1) ∧ mem 0 = mem (0 + 2)) := fun run => absurd run.1 (by decide)
    have packed : pack 1 1 0 (0xf000 - 1) 1 ⟨mem, 0xf000, []⟩ =
        (some (0xf000 - 1 - 1), (State.mk mem 0xf000 []).put (0xf000 - 1) (mem 0)) := by
      rw [pack, if_neg (by decide), if_neg (by decide), if_neg short, if_neg plain]
      rfl
    have one : (1 : Addr).toNat = 1 := rfl
    unfold do_swap_out
    rw [one, packed]
  refine ⟨placed, fits, ?_⟩
  intro kept
  exact absurd ((swap_keeps 1 0 1 0xf000 (fun _ => 0) placed fits).1 kept).1 (by decide)

/-- Memory with the bytes 1 to 8 from address 0 on. -/
def eight : State := ⟨fun a => if a.toNat < 8 then UInt8.ofNat (a.toNat + 1) else 0, 0x1000, []⟩

theorem eight_not_kept : Placed 8 0 8 eight.ramtop ∧ (do_swap_out 8 0 8 eight).1 = 0 ∧ ¬ Kept 8 0 8 eight := by
  have accepted : (do_swap_out 8 0 8 eight).1 = 0 := by decide +kernel
  refine ⟨⟨by decide, by decide, ?_⟩, accepted, ?_⟩
  · intro a inside
    unfold Span at inside
    left
    bv_omega
  · exact not_kept_shifted (by decide) (by decide) accepted (by decide) (by decide)

end Single
