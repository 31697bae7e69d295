import Fuzix.Kmalloc

/-!
# Runs of kmalloc and kfree

A run of calls from the boot on. The list of the memory tiles the pools, its used blocks are
those that `kmalloc` returned and that are not freed, and no two free ones are adjacent, as long
as `kmalloc` finds the last block of the list unused and long enough.
-/

set_option linter.unusedSectionVars false

namespace Kmalloc

open Table Tiling Fuel Run

variable [Machine] {m m' : Memory} {l xs ys : List Piece} {a b : Piece} {x n size p fuel : Nat}

/-! ## The pools -/

def inPool (p : Nat × Nat) (x : Nat) : Prop := p.1 ≤ x ∧ x < p.1 + p.2

def region (x : Nat) : Prop := ∃ p ∈ pools, inPool p x

def ends (e : Nat) : Prop := ∃ p ∈ pools, e = p.1 + p.2

theorem ends_outside (isEnd : ends x) : ¬ region x := by
  obtain ⟨p, hp, same⟩ := isEnd
  rintro ⟨q, hq, low, high⟩
  by_cases other : p = q
  · subst other
    omega
  · have symm : Std.Symm fun p q : Nat × Nat => p.1 + p.2 < q.1 ∨ q.1 + q.2 < p.1 := ⟨fun _ _ => Or.symm⟩
    rcases Machine.apart.forall hp hq other with before | after
    · omega
    · omega

/-- What lies in the pools lies in one of them. -/
theorem region_bound (a : Piece) (some : 0 < a.len) (inside : ∀ x, a.covers x → region x) :
    a.limit < WORD ∧ a.len < HIGH := by
  obtain ⟨p, hp, low, high⟩ := inside a.addr (Piece.covers_addr some)
  obtain ⟨_, _, small, fits⟩ := Machine.pool p hp
  have within : a.limit ≤ p.1 + p.2 := by
    by_contra beyond
    have isEnd : ends (p.1 + p.2) := ⟨p, hp, rfl⟩
    exact ends_outside isEnd (inside _ ⟨by omega, by omega⟩)
  unfold Piece.limit at *
  omega

theorem region_start (inside : region x) : x < START ∨ START + HEADER < x := by
  obtain ⟨p, hp, low, high⟩ := inside
  rcases Machine.start.2.2 p hp with before | after
  · omega
  · omega

theorem region_dummy (inside : region x) : x ≠ DUMMY := by
  obtain ⟨p, hp, low, high⟩ := inside
  rcases Machine.dummy p hp with before | after
  · omega
  · omega

/-! ## Worlds -/

/-- The memory and the size that was asked for each pointer that is not freed. -/
structure World where
  mem : Memory
  live : Nat → Option Nat

/-- The block `start`. -/
def first : Piece := ⟨START, HEADER, false⟩

/-- The memory after the pools have been added. -/
def Booted (m : Memory) : Prop :=
  ∃ m₀ : Memory, m₀ START = ⟨NULL, HEADER⟩ ∧
    Steps (fun m p m' => Returns (fun fuel => kmemaddblk fuel p.1 p.2 m) m') m₀ pools m

inductive Action where
  | kmalloc (size p : Nat)
  | kfree (p : Nat)

def Action.step (s : World) : Action → World → Prop
  | .kmalloc size p, t => Returns (fun fuel => Kmalloc.kmalloc fuel size s.mem) (p, t.mem) ∧
      t.live = if p = NULL then s.live else put s.live p (some size)
  | .kfree p, t => s.live p ≠ none ∧ Returns (fun fuel => Kmalloc.kfree fuel p s.mem) (.ok t.mem) ∧
      t.live = put s.live p none

/-- The last block of the list is unused and has room for the header and `size`. -/
def Fits (m : Memory) (size : Nat) : Prop :=
  ∃ l a, Links m START (first :: (l ++ [a])) NULL ∧ a.used = false ∧ size + HEADER ≤ a.len

def Action.fits (s : World) : Action → Prop
  | .kmalloc size _ => Fits s.mem size
  | .kfree _ => True

/-- The blocks of the list tile the pools, the used ones are those that are not freed, with
room for what was asked for, and no two free ones are adjacent. -/
structure Sound (s : World) (l : List Piece) : Prop where
  links : Links s.mem START (first :: l) NULL
  tiles : Tiles region l
  room : ∀ a ∈ l, HEADER ≤ a.len
  used : ∀ a ∈ l, a.used = true → s.live (a.addr + HEADER) ≠ none
  kept : ∀ p size, s.live p = some size → ∃ a ∈ l, a.used = true ∧ p = a.addr + HEADER ∧ size + HEADER ≤ a.len
  merged : ∀ a ∈ l, ∀ b ∈ l, ¬ Joins a b

/-- What carries the soundness from call to call. -/
structure Inv (s : World) (l : List Piece) : Prop where
  sound : Sound s l
  follows : Follows ends l
  unjoined : Unjoined l

/-! ## Boot -/

def fresh (p : Nat × Nat) : Piece := ⟨p.1, p.2, false⟩

theorem pool_region {p : Nat × Nat} (hp : p ∈ pools) : region p.1 := by
  have room := (Machine.pool p hp).2.1
  unfold HEADER at room
  exact ⟨p, hp, Nat.le_refl _, by omega⟩

theorem kmemaddblk_returns {base : Nat} (links : Links m START (l ++ [a]) NULL) :
    Returns (fun fuel => kmemaddblk fuel base size m) (put (setNext m a.addr base) base ⟨NULL, size⟩) := by
  refine ⟨l.length + 1, fun fuel enough => ?_⟩
  show kmemaddblk fuel base size m = _
  rw [kmemaddblk, lastBlock_links links enough]
  rfl

theorem added_links {m₀ : Memory} {ps : List (Nat × Nat)} (start : m₀ START = ⟨NULL, HEADER⟩)
    (run : Steps (fun m p m' => Returns (fun fuel => kmemaddblk fuel p.1 p.2 m) m') m₀ ps m)
    (real : ∀ p ∈ ps, p ∈ pools) (apart : ps.Pairwise fun p q => p.1 ≠ q.1) :
    Links m START (first :: ps.map fresh) NULL := by
  have outside : ∀ p ∈ pools, START ≠ p.1 := by
    intro p hp same
    have away := region_start (pool_region hp)
    omega
  induction run with
  | nil =>
    refine ⟨rfl, Nat.ne_of_gt Machine.start.1, header_high, ?_, ?_⟩
    · rw [start]
      rfl
    · rw [start]
      rfl
  | @snoc m m' ps p before last ih =>
    obtain ⟨pairs, _, across⟩ := List.pairwise_append.mp apart
    have earlier : ∀ q ∈ ps, q ∈ pools := fun q hq => real q (List.mem_append_left _ hq)
    have links := ih earlier pairs
    have hp : p ∈ pools := real p (List.mem_append_right _ (List.mem_singleton.mpr rfl))
    obtain ⟨some, _, small, _⟩ := Machine.pool p hp
    have addrs : (first :: ps.map fresh).Pairwise fun a b => a.addr ≠ b.addr := by
      refine List.pairwise_cons.mpr ⟨?_, List.pairwise_map.mpr pairs⟩
      intro a member
      obtain ⟨q, hq, same⟩ := List.mem_map.mp member
      rw [← same]
      exact outside q (earlier q hq)
    have new : ∀ a ∈ first :: ps.map fresh, a.addr ≠ p.1 := by
      intro a member
      rcases List.mem_cons.mp member with isFirst | later
      · rw [isFirst]
        exact outside p hp
      · obtain ⟨q, hq, same⟩ := List.mem_map.mp later
        rw [← same]
        exact across q hq p (List.mem_singleton.mpr rfl)
    rw [List.map_append, ← List.cons_append]
    rcases List.eq_nil_or_concat (first :: ps.map fresh) with none | ⟨xs, z, whole⟩
    · cases none
    · rw [List.concat_eq_append] at whole
      rw [whole] at links addrs new ⊢
      have done := last.unique (kmemaddblk_returns links)
      rw [done]
      refine links.add ?_ new (Nat.ne_of_gt some) small
      intro b member
      exact (List.pairwise_append.mp addrs).2.2 b member z (List.mem_singleton.mpr rfl)

theorem booted_inv (booted : Booted m) : Inv ⟨m, fun _ => none⟩ (pools.map fresh) := by
  obtain ⟨m₀, start, run⟩ := booted
  have apart : pools.Pairwise fun p q => p.1 ≠ q.1 := by
    refine List.Pairwise.imp (fun far same => ?_) Machine.apart
    omega
  have tiles : Tiles region (pools.map fresh) := by
    constructor
    · intro x
      constructor
      · rintro ⟨p, hp, inside⟩
        exact ⟨fresh p, List.mem_map.mpr ⟨p, hp, rfl⟩, inside⟩
      · rintro ⟨a, ha, inside⟩
        obtain ⟨p, hp, same⟩ := List.mem_map.mp ha
        rw [← same] at inside
        exact ⟨p, hp, inside⟩
    · refine List.pairwise_map.mpr (List.Pairwise.imp (fun far x left right => ?_) Machine.apart)
      unfold Piece.covers Piece.limit fresh at left right
      dsimp only at left right
      omega
    · intro a ha
      obtain ⟨p, hp, same⟩ := List.mem_map.mp ha
      have room := (Machine.pool p hp).2.1
      rw [← same]
      exact Nat.lt_of_lt_of_le (by decide) room
  have follows : ∀ ps : List (Nat × Nat), (∀ p ∈ ps, p ∈ pools) → Follows ends (ps.map fresh) := by
    intro ps
    induction ps with
    | nil => exact fun _ => trivial
    | cons p ps ih =>
      intro real
      refine ⟨Or.inl ⟨p, real p List.mem_cons_self, rfl⟩, ih fun q hq => real q (List.mem_cons_of_mem p hq)⟩
  have unjoined : Unjoined (pools.map fresh) := by
    refine List.Pairwise.isChain (List.pairwise_map.mpr (List.Pairwise.imp (fun far joins => ?_) Machine.apart))
    have meet := joins.2.2
    unfold Piece.limit fresh at meet
    dsimp only at meet
    omega
  refine ⟨⟨added_links start run (fun _ hp => hp) apart, tiles, ?_, ?_, ?_, ?_⟩, follows pools fun _ hp => hp, unjoined⟩
  · intro a ha
    obtain ⟨p, hp, same⟩ := List.mem_map.mp ha
    rw [← same]
    exact (Machine.pool p hp).2.1
  · intro a ha used
    obtain ⟨p, _, same⟩ := List.mem_map.mp ha
    rw [← same] at used
    cases used
  · intro p size no
    cases no
  · intro a ha b hb
    exact tiles.unjoined (follows pools fun _ hp => hp) (fun _ => ends_outside) unjoined ha hb

/-! ## kmalloc -/

section Calls
variable {s t : World}

theorem Inv.holds (links : Links s.mem START (first :: l) NULL) (tiles : Tiles region l) (follows : Follows ends l)
    (unjoined : Unjoined l) (room : ∀ a ∈ l, HEADER ≤ a.len)
    (used : ∀ a ∈ l, a.used = true → s.live (a.addr + HEADER) ≠ none)
    (kept : ∀ p size, s.live p = some size → ∃ a ∈ l, a.used = true ∧ p = a.addr + HEADER ∧ size + HEADER ≤ a.len) :
    Inv s l where
  sound :=
    { links := links
      tiles := tiles
      room := room
      used := used
      kept := kept
      merged := fun _ ha _ hb => tiles.unjoined follows (fun _ => ends_outside) unjoined ha hb }
  follows := follows
  unjoined := unjoined

/-- The blocks are apart from each other and from `start`. -/
theorem Sound.addrs (sound : Sound s (xs ++ a :: ys)) : ∀ b ∈ (first :: xs) ++ ys, b.addr ≠ a.addr := by
  obtain ⟨_, right, across⟩ := List.pairwise_append.mp sound.tiles.addrs
  have ha : a ∈ xs ++ a :: ys := List.mem_append_right _ List.mem_cons_self
  intro b member
  rcases List.mem_append.mp member with front | after
  · rcases List.mem_cons.mp front with isFirst | before
    · rw [isFirst]
      have inside := sound.tiles.inside ha (Piece.covers_addr (sound.tiles.some a ha))
      have away := region_start inside
      intro same
      have start : START = a.addr := same
      omega
    · exact across b before a List.mem_cons_self
  · exact fun same => (List.pairwise_cons.mp right).1 b after same.symm

theorem Sound.free (sound : Sound s l) (ha : a ∈ l) (unused : a.used = false) : s.live (a.addr + HEADER) = none := by
  by_contra some
  obtain ⟨size, some⟩ := Option.ne_none_iff_exists'.mp some
  obtain ⟨b, hb, used, same, _⟩ := sound.kept _ size some
  have here : a = b := sound.tiles.at_addr ha hb (by omega)
  rw [here, used] at unused
  cases unused

/-- What was returned lies in the pools. -/
theorem Sound.inside (sound : Sound s l) (live : s.live p = some size) : ∀ x, p ≤ x → x < p + size → region x := by
  obtain ⟨a, ha, _, place, large⟩ := sound.kept p size live
  intro x low high
  apply sound.tiles.inside ha
  unfold Piece.covers Piece.limit
  omega

/-- What was returned is apart from what else was returned. -/
theorem Sound.disjoint (sound : Sound s l) {q k : Nat} (live : s.live p = some n) (live' : s.live q = some k)
    (other : p ≠ q) : p + n ≤ q ∨ q + k ≤ p := by
  obtain ⟨a, ha, _, place, large⟩ := sound.kept p n live
  obtain ⟨b, hb, _, place', large'⟩ := sound.kept q k live'
  by_contra meet
  apply other
  rw [place, place']
  have common : a = b := by
    have header : HEADER = 8 := rfl
    apply sound.tiles.once (x := max p q - 1) ha hb
    · unfold Piece.covers Piece.limit
      omega
    · unfold Piece.covers Piece.limit
      omega
  rw [common]

/-- What `kmalloc` makes of the last block. -/
def carved (a : Piece) (n : Nat) : List Piece :=
  if HEADER * 4 < a.len - n then [⟨a.addr, n, true⟩, ⟨a.addr + n, a.len - n, false⟩] else [{ a with used := true }]

theorem split_links (sound : Sound s (l ++ [a])) (unused : a.used = false) (some : 0 < n) (fits : n ≤ a.len) :
    Links (split_block s.mem a.addr n) START (first :: (l ++ carved a n)) NULL := by
  have ha : a ∈ l ++ [a] := List.mem_append_right _ (List.mem_singleton.mpr rfl)
  have bound := region_bound a (sound.tiles.some a ha) fun x => sound.tiles.inside ha
  have links : Links s.mem START ((first :: l) ++ [a]) NULL := sound.links
  have apart : ∀ b ∈ first :: l, b.addr ≠ a.addr := by
    intro b member
    exact sound.addrs b (List.mem_append_left _ member)
  have length : (s.mem a.addr).length = a.len := by
    rw [links.length, word, unused]
    rfl
  have high : HIGH < WORD := by decide
  have newsize : (a.len + WORD - n) % WORD = a.len - n := by
    rw [show a.len + WORD - n = a.len - n + WORD from by omega, Nat.add_mod_right]
    exact Nat.mod_eq_of_lt (by omega)
  unfold split_block carved
  rw [length, newsize]
  dsimp only
  by_cases large : HEADER * 4 < a.len - n
  · rw [if_pos large, if_pos large]
    have place : (a.addr + n) % WORD = a.addr + n := by
      apply Nat.mod_eq_of_lt
      unfold Piece.limit at bound
      omega
    have away : ∀ b ∈ first :: l, b.addr ≠ a.addr ∧ b.addr ≠ a.addr + n := by
      intro b member
      refine ⟨apart b member, fun same => ?_⟩
      have covers : a.covers b.addr := by
        unfold Piece.covers Piece.limit
        omega
      rcases List.mem_cons.mp member with isFirst | before
      · have outside := region_start (sound.tiles.inside ha covers)
        rw [isFirst] at outside
        have start : first.addr = START := rfl
        omega
      · have hb : b ∈ l ++ [a] := List.mem_append_left _ before
        have here := sound.tiles.once ha hb covers (Piece.covers_addr (sound.tiles.some b hb))
        exact apart b member (here ▸ rfl)
    rw [place]
    have pieces := links.cut away (show a.addr < a.addr + n by omega) (show n < HIGH by omega)
      (show a.len - n < HIGH by omega)
    refine pieces.use (a := ⟨a.addr, n, false⟩) (fun b member => ?_) rfl
    rcases List.mem_append.mp member with before | after
    · exact apart b before
    · rw [List.mem_singleton.mp after]
      show a.addr + n ≠ a.addr
      omega
  · rw [if_neg large, if_neg large]
    exact links.use (fun b member => apart b (by simpa using member)) unused

/-- The last block is returned, whether it is unused and long enough or not. -/
theorem kmalloc_returns (sound : Sound s (l ++ [a])) (size : Nat) :
    Returns (fun fuel => Kmalloc.kmalloc fuel size s.mem)
      (a.addr + HEADER, split_block s.mem a.addr ((size + HEADER) % WORD)) := by
  have ha : a ∈ l ++ [a] := List.mem_append_right _ (List.mem_singleton.mpr rfl)
  have bound := region_bound a (sound.tiles.some a ha) fun x => sound.tiles.inside ha
  have inside := sound.tiles.inside ha (Piece.covers_addr (sound.tiles.some a ha))
  have room := sound.room a ha
  have real := sound.links.addr_ne a (List.mem_cons_of_mem _ ha)
  have links : Links s.mem START ((first :: l) ++ [a]) NULL := sound.links
  unfold Piece.limit at bound
  refine ⟨(first :: l).length + 1, fun fuel enough => ?_⟩
  show Kmalloc.kmalloc fuel size s.mem = _
  unfold Kmalloc.kmalloc find_smallest ALIGNUP
  dsimp only
  rw [search_links links enough, Option.map_some, Option.map_some, if_neg (region_dummy inside), if_neg real,
    Nat.mod_eq_of_lt (show a.addr + HEADER < WORD by omega)]

theorem carved_follows (follows : Follows ends (l ++ [a])) (fits : n ≤ a.len) : Follows ends (l ++ carved a n) := by
  have last := follows.right.1
  unfold carved
  split
  · refine follows.exchange rfl ⟨Or.inr ⟨_, rfl, rfl⟩, ?_, trivial⟩
    rcases last with isEnd | ⟨b, no, _⟩
    · left
      have limit : (⟨a.addr + n, a.len - n, false⟩ : Piece).limit = a.limit := by
        unfold Piece.limit
        dsimp only
        omega
      rw [limit]
      exact isEnd
    · cases no
  · exact follows.exchange rfl ⟨last, trivial⟩

/-- The piece before the last one is not joined to a used one. -/
theorem carved_unjoined (unjoined : Unjoined (l ++ [a])) : Unjoined (l ++ carved a n) := by
  have front : l.IsChain fun a b => ¬ Joins a b := unjoined.left_of_append
  unfold Unjoined carved
  split
  · refine front.append ?_ ?_
    · exact List.isChain_pair.mpr fun joins => by cases joins.1
    · intro b _ c head joins
      injection head with head
      rw [← head] at joins
      cases joins.2.1
  · refine front.append (List.isChain_singleton _) ?_
    intro b _ c head joins
    injection head with head
    rw [← head] at joins
    cases joins.2.1

theorem carved_tiles (tiles : Tiles region (l ++ [a])) (some : 0 < n) : Tiles region (l ++ carved a n) := by
  unfold carved
  split
  · exact tiles.cut some (by omega) true false
  · exact tiles.mark true

/-- The first of the pieces is used, and another one is not. -/
theorem mem_carved (fits : n ≤ a.len) (room : HEADER ≤ n) (member : b ∈ carved a n) :
    HEADER ≤ b.len ∧ (b.used = true → b.addr = a.addr ∧ n ≤ b.len) := by
  unfold carved at member
  split at member
  · rcases List.mem_cons.mp member with isFirst | isSecond
    · rw [isFirst]
      exact ⟨room, fun _ => ⟨rfl, Nat.le_refl n⟩⟩
    · rw [List.mem_singleton.mp isSecond]
      refine ⟨?_, fun no => by cases no⟩
      dsimp only
      omega
  · rw [List.mem_singleton.mp member]
    exact ⟨Nat.le_trans room fits, fun _ => ⟨rfl, fits⟩⟩

theorem carved_used (a : Piece) (n : Nat) (fits : n ≤ a.len) :
    ∃ b ∈ carved a n, b.used = true ∧ b.addr = a.addr ∧ n ≤ b.len := by
  unfold carved
  split
  · exact ⟨_, List.mem_cons_self, rfl, rfl, Nat.le_refl n⟩
  · exact ⟨_, List.mem_cons_self, rfl, rfl, fits⟩

theorem Inv.kmalloc (inv : Inv s (l ++ [a])) (unused : a.used = false) (fits : size + HEADER ≤ a.len) :
    Inv ⟨split_block s.mem a.addr (size + HEADER), put s.live (a.addr + HEADER) (some size)⟩
      (l ++ carved a (size + HEADER)) := by
  obtain ⟨sound, follows, unjoined⟩ := inv
  have room : HEADER ≤ size + HEADER := Nat.le_add_left _ _
  have positive : 0 < size + HEADER := Nat.lt_of_lt_of_le (by decide) room
  refine Inv.holds (split_links sound unused positive fits) (carved_tiles sound.tiles positive)
    (carved_follows follows fits) (carved_unjoined unjoined) ?_ ?_ ?_
  · intro b member
    rcases List.mem_append.mp member with before | new
    · exact sound.room b (List.mem_append_left _ before)
    · exact (mem_carved fits room new).1
  · intro b member used
    dsimp only
    by_cases here : b.addr = a.addr
    · rw [here, put_same]
      exact Option.some_ne_none size
    · rw [put_ne _ _ (by omega)]
      rcases List.mem_append.mp member with before | new
      · exact sound.used b (List.mem_append_left _ before) used
      · exact absurd ((mem_carved fits room new).2 used).1 here
  · intro p n live
    dsimp only at live
    by_cases here : p = a.addr + HEADER
    · rw [here, put_same] at live
      injection live with same
      obtain ⟨b, new, used, addr, large⟩ := carved_used a (size + HEADER) fits
      refine ⟨b, List.mem_append_right _ new, used, ?_, ?_⟩
      · rw [here, addr]
      · rw [← same]
        exact large
    · rw [put_ne _ _ here] at live
      obtain ⟨b, member, used, place, large⟩ := sound.kept p n live
      rcases List.mem_append.mp member with before | last
      · exact ⟨b, List.mem_append_left _ before, used, place, large⟩
      · rw [List.mem_singleton.mp last] at place
        exact absurd place here

/-! ## kfree -/

/-- `start` is not merged with a block of the pools. -/
theorem merge_all_returns (links : Links m START (first :: a :: l) NULL) (tiles : Tiles region (a :: l)) :
    ∃ m', Returns (fun fuel => merge_all_blocks fuel m) m' ∧ Links m' START (first :: coalesce a l) NULL := by
  have ha : a ∈ a :: l := List.mem_cons_self
  have bound : ∀ b : Piece, 0 < b.len → (∀ x, b.covers x → region x) → b.limit ≤ WORD ∧ b.len < HIGH := by
    intro b some inside
    have both := region_bound b some inside
    exact ⟨Nat.le_of_lt both.1, both.2⟩
  have away := region_start (tiles.inside ha (Piece.covers_addr (tiles.some a ha)))
  have real := links.addr_ne a (List.mem_cons_of_mem _ ha)
  have limit := Machine.start.2.1
  obtain ⟨_, some, small, length, rest⟩ := links
  have next : (m START).next = a.addr := rest.1
  have header : (m START).length = HEADER := length
  rw [next] at rest
  have apart : ¬ (UNUSED (m START) ∧ UNUSED (m a.addr) ∧ (START + (m START).length) % WORD = a.addr) := by
    rintro ⟨_, _, meet⟩
    rw [header] at meet
    unfold NULL at real
    by_cases whole : START + HEADER = WORD
    · rw [whole, Nat.mod_self] at meet
      exact real meet.symm
    · rw [Nat.mod_eq_of_lt (by omega)] at meet
      omega
  have step : ∀ fuel, merge (fuel + 1) m START = merge fuel m a.addr := by
    intro fuel
    rw [merge, next, if_neg real, if_neg apart]
  have elsewhere : ∀ b ∈ a :: l, b.addr ≠ START := by
    intro b hb
    have outside := region_start (tiles.inside hb (Piece.covers_addr (tiles.some b hb)))
    omega
  obtain ⟨m', done, links', frame⟩ := rest.merge (show Tiles region ([] ++ a :: l) from tiles) bound
  have block : m' START = m START := frame START elsewhere
  refine ⟨m', ⟨l.length + 2, fun fuel enough => ?_⟩, rfl, some, small, ?_, ?_⟩
  · obtain ⟨fuel, rfl⟩ := Nat.exists_eq_succ_of_ne_zero (show fuel ≠ 0 by omega)
    show merge (fuel + 1) m START = _
    rw [step]
    exact done fuel (by omega)
  · rw [block]
    exact length
  · rw [block, next]
    exact links'

theorem Inv.kfree (inv : Inv s l) (live : s.live p ≠ none) :
    ∃ m' l', Returns (fun fuel => Kmalloc.kfree fuel p s.mem) (.ok m') ∧ Inv ⟨m', put s.live p none⟩ l' := by
  obtain ⟨sound, follows, _⟩ := inv
  obtain ⟨size, some⟩ := Option.ne_none_iff_exists'.mp live
  obtain ⟨a, ha, used, place, _⟩ := sound.kept p size some
  have bound := region_bound a (sound.tiles.some a ha) fun x => sound.tiles.inside ha
  obtain ⟨xs, ys, whole⟩ := List.append_of_mem ha
  subst whole
  have links : Links s.mem START ((first :: xs) ++ a :: ys) NULL := sound.links
  have length : (s.mem a.addr).length = a.len + HIGH := by
    rw [links.length, word, used]
    rfl
  have back : (p + WORD - HEADER) % WORD = a.addr := by
    unfold Piece.limit at bound
    rw [place, show a.addr + HEADER + WORD - HEADER = a.addr + WORD from by omega, Nat.add_mod_right]
    exact Nat.mod_eq_of_lt (by omega)
  have marked : ¬ UNUSED (s.mem a.addr) := by
    unfold UNUSED
    omega
  have unmarked : (s.mem a.addr).length % HIGH = word { a with used := false } := by
    rw [length, Nat.add_mod_right]
    exact Nat.mod_eq_of_lt bound.2
  have freed := links.relabel (b := { a with used := false }) sound.addrs rfl bound.2
  have tiles := sound.tiles.mark false
  have following : Follows ends (xs ++ { a with used := false } :: ys) := follows.exchange rfl follows.right
  obtain ⟨c, rest, list⟩ := List.exists_cons_of_ne_nil (List.append_ne_nil_of_right_ne_nil xs
    (List.cons_ne_nil { a with used := false } ys))
  rw [List.cons_append, list] at freed
  rw [list] at tiles following
  obtain ⟨m', done, links'⟩ := merge_all_returns freed tiles
  refine ⟨m', coalesce c rest, ?_, ?_⟩
  · obtain ⟨least, enough⟩ := done
    refine ⟨least, fun fuel more => ?_⟩
    show Kmalloc.kfree fuel p s.mem = _
    have merged : merge_all_blocks fuel _ = Option.some m' := enough fuel more
    unfold Kmalloc.kfree
    rw [back, if_neg marked, unmarked, merged]
    rfl
  have others : ∀ b, b.used = true → (b ∈ coalesce c rest ↔ b ∈ xs ++ ys) := by
    intro b usedB
    rw [coalesce_used usedB, ← list]
    have notFreed : b ≠ { a with used := false } := by
      intro same
      rw [same] at usedB
      cases usedB
    simp [notFreed]
  have old : ∀ b ∈ xs ++ ys, b ∈ xs ++ a :: ys ∧ b.addr ≠ a.addr := by
    intro b member
    refine ⟨?_, sound.addrs b (List.mem_cons_of_mem _ member)⟩
    rcases List.mem_append.mp member with before | after
    · exact List.mem_append_left _ before
    · exact List.mem_append_right _ (List.mem_cons_of_mem a after)
  have joined : Tiles region (coalesce c rest) :=
    (show Tiles region ([] ++ c :: rest) from tiles).coalesce
  refine Inv.holds links' joined following.coalesce (coalesce_unjoined c rest) ?_ ?_ ?_
  · intro b member
    obtain ⟨d, hd, less⟩ := coalesce_len member
    rw [← list] at hd
    refine Nat.le_trans ?_ less
    rcases List.mem_append.mp hd with before | after
    · exact sound.room d (List.mem_append_left _ before)
    · rcases List.mem_cons.mp after with isFreed | later
      · rw [isFreed]
        exact sound.room a ha
      · exact sound.room d (List.mem_append_right _ (List.mem_cons_of_mem a later))
  · intro b member usedB
    obtain ⟨inside, other⟩ := old b ((others b usedB).mp member)
    dsimp only
    rw [put_ne _ _ (by omega)]
    exact sound.used b inside usedB
  · intro q n alive
    dsimp only at alive
    have notP : q ≠ p := by
      intro same
      rw [same, put_same] at alive
      cases alive
    rw [put_ne _ _ notP] at alive
    obtain ⟨b, hb, usedB, placeB, large⟩ := sound.kept q n alive
    refine ⟨b, (others b usedB).mpr ?_, usedB, placeB, large⟩
    rcases List.mem_append.mp hb with before | after
    · exact List.mem_append_left _ before
    · rcases List.mem_cons.mp after with same | later
      · rw [same, ← place] at placeB
        exact absurd placeB notP
      · exact List.mem_append_right _ later

/-! ## Runs -/

/-- A call of `kmalloc` for which the last block of the list is unused and long enough. -/
def Action.fitting (s : World) (a : Action) (t : World) : Prop := a.fits s ∧ a.step s t

theorem Inv.allocates (inv : Inv s l) (fits : Fits s.mem size) :
    ∃ p t, Returns (fun fuel => Kmalloc.kmalloc fuel size s.mem) (p, t) ∧ p ≠ NULL ∧ s.live p = none ∧
      ∃ l', Inv ⟨t, put s.live p (some size)⟩ l' := by
  obtain ⟨front, a, links, unused, large⟩ := fits
  have same := inv.sound.links.unique links
  injection same with _ same
  subst same
  have ha : a ∈ front ++ [a] := List.mem_append_right _ (List.mem_singleton.mpr rfl)
  have small : size + HEADER < WORD := by
    have high : HIGH < WORD := by decide
    have bound := region_bound a (inv.sound.tiles.some a ha) fun x => inv.sound.tiles.inside ha
    omega
  have returns := kmalloc_returns inv.sound size
  rw [Nat.mod_eq_of_lt small] at returns
  refine ⟨_, _, returns, ?_, inv.sound.free ha unused, _, inv.kmalloc unused large⟩
  unfold NULL HEADER
  omega

theorem Inv.step {a : Action} (inv : Inv s l) (step : a.fitting s t) : ∃ l', Inv t l' := by
  obtain ⟨fits, step⟩ := step
  obtain ⟨mem, live⟩ := t
  cases a with
  | kmalloc size p =>
    obtain ⟨returns, after⟩ := step
    obtain ⟨q, m', returns', real, _, l', inv'⟩ := inv.allocates fits
    have same := returns.unique returns'
    injection same with samePointer sameMemory
    dsimp only at after sameMemory
    rw [samePointer, if_neg real] at after
    rw [after, sameMemory]
    exact ⟨l', inv'⟩
  | kfree p =>
    obtain ⟨alive, returns, after⟩ := step
    obtain ⟨m', l', returns', inv'⟩ := inv.kfree alive
    have same := returns.unique returns'
    injection same with same
    dsimp only at after same
    rw [after, same]
    exact ⟨l', inv'⟩

/-- The blocks of the list and what is not freed tile the pools all along, and the calls do
what they should. -/
theorem pool_sound {m : Memory} {as : List Action} {t : World} (booted : Booted m)
    (run : Steps (fun s (a : Action) t => a.fitting s t) ⟨m, fun _ => none⟩ as t) :
    (∃ l, Sound t l) ∧
      (∀ p size, t.live p = some size → ∀ x, p ≤ x → x < p + size → region x) ∧
      (∀ p q n k, p ≠ q → t.live p = some n → t.live q = some k → p + n ≤ q ∨ q + k ≤ p) ∧
      (∀ size, Fits t.mem size → ∃ p m', Returns (fun fuel => Kmalloc.kmalloc fuel size t.mem) (p, m') ∧
        p ≠ NULL ∧ t.live p = none) ∧
      ∀ p, t.live p ≠ none → ∃ m', Returns (fun fuel => Kmalloc.kfree fuel p t.mem) (.ok m') := by
  obtain ⟨l, inv⟩ : ∃ l, Inv t l :=
    run.keeps (I := fun s => ∃ l, Inv s l) (fun _ _ _ ⟨_, inv⟩ step => inv.step step) ⟨_, booted_inv booted⟩
  refine ⟨⟨l, inv.sound⟩, fun p size live => inv.sound.inside live,
    fun p q n k other live live' => inv.sound.disjoint live live' other, fun size fits => ?_, fun p alive => ?_⟩
  · obtain ⟨p, m', returns, real, new, _⟩ := inv.allocates fits
    exact ⟨p, m', returns, real, new⟩
  · obtain ⟨m', _, returns, _⟩ := inv.kfree alive
    exact ⟨m', returns⟩

end Calls

/-! ## One pool of 200 bytes -/

omit [Machine] in
theorem one_pool : ∃ (_ : Machine) (m : Memory), Booted m ∧ Inv ⟨m, fun _ => none⟩ [⟨100, 200, false⟩] := by
  let machine : Machine :=
    { START := 16
      DUMMY := 32
      pools := [(100, 200)]
      pool := by decide
      apart := by decide
      start := by decide
      dummy := by decide }
  let m₀ : Memory := fun b => if b = 16 then ⟨NULL, HEADER⟩ else ⟨NULL, 0⟩
  have links : Links m₀ START ([] ++ [first]) NULL := ⟨rfl, by decide, by decide, rfl, rfl⟩
  have booted : Booted (put (setNext m₀ START 100) 100 ⟨NULL, 200⟩) := by
    refine ⟨m₀, rfl, ?_⟩
    exact Steps.cons (kmemaddblk_returns links) (Steps.nil _)
  exact ⟨machine, _, booted, booted_inv booted⟩

omit [Machine] in
theorem pool_sound_once : ∃ (_ : Machine) (m : Memory) (t : World) (p : Nat), Booted m ∧
    Steps (fun s (a : Action) t => a.fitting s t) ⟨m, fun _ => none⟩ [.kmalloc 20 p] t ∧ t.live p = some 20 ∧
      ∃ l, Sound t l := by
  obtain ⟨machine, m, booted, inv⟩ := one_pool
  have fits : Fits m 20 := ⟨[], ⟨100, 200, false⟩, inv.sound.links, rfl, by decide⟩
  obtain ⟨p, m', returns, real, _⟩ := inv.allocates fits
  let t : World := ⟨m', put (fun _ => none) p (some 20)⟩
  have step : Action.fitting ⟨m, fun _ => none⟩ (.kmalloc 20 p) t := ⟨fits, returns, (if_neg real).symm⟩
  have run : Steps (fun s (a : Action) t => a.fitting s t) ⟨m, fun _ => none⟩ [.kmalloc 20 p] t :=
    Steps.cons step (Steps.nil t)
  exact ⟨machine, m, t, p, booted, run, put_same (fun _ => none) p (some 20), (pool_sound booted run).1⟩

omit [Machine] in
/-- The only block is returned again while it is in use. -/
theorem pool_unsound : ∃ (_ : Machine) (m : Memory) (s : World) (p : Nat) (t : Memory), Booted m ∧
    Steps (fun s (a : Action) t => a.step s t) ⟨m, fun _ => none⟩ [.kmalloc 192 p] s ∧
      Returns (fun fuel => kmalloc fuel 8 s.mem) (p, t) ∧ p ≠ NULL ∧ s.live p = some 192 := by
  obtain ⟨machine, m, booted, inv⟩ := one_pool
  have room : 192 + HEADER ≤ (⟨100, 200, false⟩ : Piece).len := by decide
  have size : (192 + HEADER) % WORD = 192 + HEADER := by decide
  have whole : carved ⟨100, 200, false⟩ (192 + HEADER) = [⟨100, 200, true⟩] := by decide
  have real : 100 + HEADER ≠ NULL := by decide
  have returns := kmalloc_returns (l := []) inv.sound 192
  have taken := Inv.kmalloc (l := []) inv rfl room
  rw [size] at returns
  rw [whole] at taken
  have again := kmalloc_returns taken.sound 8
  have step : Action.step ⟨m, fun _ => none⟩ (.kmalloc 192 (100 + HEADER))
      ⟨split_block m 100 (192 + HEADER), put (fun _ => none) (100 + HEADER) (some 192)⟩ :=
    ⟨returns, (if_neg real).symm⟩
  have run : Steps (fun s (a : Action) t => a.step s t) ⟨m, fun _ => none⟩ [.kmalloc 192 (100 + HEADER)] _ :=
    Steps.cons step (Steps.nil _)
  exact ⟨machine, m, _, 100 + HEADER, _, booted, run, again, real, put_same (fun _ => none) (100 + HEADER) (some 192)⟩

end Kmalloc
