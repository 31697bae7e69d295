import Mathlib.Data.List.Chain

/-!
# Pieces that tile a region

A list of pieces, in use or not, covers a region of addresses, each address once. Pieces are
cut, and neighbours that are not in use are joined. No piece begins where the region ends.
-/

namespace Tiling

structure Piece where
  addr : Nat
  len : Nat
  used : Bool
deriving DecidableEq

def Piece.limit (a : Piece) : Nat := a.addr + a.len

def Piece.covers (a : Piece) (x : Nat) : Prop := a.addr ≤ x ∧ x < a.limit

/-- Two pieces have no address in common. -/
def Apart (a b : Piece) : Prop := ∀ x, a.covers x → ¬ b.covers x

structure Tiles (region : Nat → Prop) (l : List Piece) : Prop where
  cover : ∀ x, region x ↔ ∃ a ∈ l, a.covers x
  apart : l.Pairwise Apart
  some : ∀ a ∈ l, 0 < a.len

/-- Each piece is followed by the one that begins where it ends, or the region ends there. -/
def Follows (ends : Nat → Prop) : List Piece → Prop
  | [] => True
  | a :: l => (ends a.limit ∨ ∃ b ∈ l.head?, a.limit = b.addr) ∧ Follows ends l

/-- Two pieces that could be one. -/
def Joins (a b : Piece) : Prop := a.used = false ∧ b.used = false ∧ a.limit = b.addr

instance (a b : Piece) : Decidable (Joins a b) := by unfold Joins; infer_instance

def Unjoined (l : List Piece) : Prop := l.IsChain fun a b => ¬ Joins a b

def Piece.join (a b : Piece) : Piece := ⟨a.addr, a.len + b.len, false⟩

/-- Neighbours that could be one are joined, from the piece `a` on. -/
def coalesce (a : Piece) : List Piece → List Piece
  | [] => [a]
  | b :: l => if Joins a b then coalesce (a.join b) l else a :: coalesce b l

variable {region ends : Nat → Prop} {xs ys l new : List Piece} {a b c : Piece} {x n : Nat}

theorem Piece.covers_addr (some : 0 < a.len) : a.covers a.addr := by
  unfold covers limit
  omega

/-! ## Tilings -/

section
variable (tiles : Tiles region l)
include tiles

theorem Tiles.inside (member : a ∈ l) (covers : a.covers x) : region x :=
  (tiles.cover x).mpr ⟨a, member, covers⟩

/-- No address is in two pieces. -/
theorem Tiles.once (ha : a ∈ l) (hb : b ∈ l) (ca : a.covers x) (cb : b.covers x) : a = b := by
  by_contra other
  have symm : Std.Symm Apart := ⟨fun a b apart x cb ca => apart x ca cb⟩
  exact tiles.apart.forall ha hb other x ca cb

theorem Tiles.at_addr (ha : a ∈ l) (hb : b ∈ l) (same : a.addr = b.addr) : a = b := by
  have ca := Piece.covers_addr (tiles.some a ha)
  have cb := Piece.covers_addr (tiles.some b hb)
  rw [← same] at cb
  exact tiles.once ha hb ca cb

/-- No two pieces begin at one address. -/
theorem Tiles.addrs : l.Pairwise fun a b => a.addr ≠ b.addr := by
  refine List.Pairwise.imp_of_mem (fun ha hb apart same => ?_) tiles.apart
  have ca := Piece.covers_addr (tiles.some _ ha)
  have cb := Piece.covers_addr (tiles.some _ hb)
  rw [← same] at cb
  exact apart _ ca cb

end

/-- Some pieces are exchanged for others on the same addresses. -/
theorem Tiles.exchange (old new : List Piece) (tiles : Tiles region (xs ++ (old ++ ys)))
    (same : ∀ x, (∃ a ∈ new, a.covers x) ↔ ∃ a ∈ old, a.covers x) (apart : new.Pairwise Apart)
    (some : ∀ a ∈ new, 0 < a.len) : Tiles region (xs ++ (new ++ ys)) := by
  obtain ⟨cover, whole, positive⟩ := tiles
  obtain ⟨left, rest, between⟩ := List.pairwise_append.mp whole
  obtain ⟨_, right, across⟩ := List.pairwise_append.mp rest
  constructor
  · intro x
    rw [cover x]
    simp only [List.mem_append, or_and_right, exists_or]
    rw [same x]
  · rw [List.pairwise_append, List.pairwise_append]
    refine ⟨left, ⟨apart, right, ?_⟩, ?_⟩
    · intro a ha b hb x ca cb
      obtain ⟨a', ha', ca'⟩ := (same x).mp ⟨a, ha, ca⟩
      exact across a' ha' b hb x ca' cb
    · intro a ha b hb x ca cb
      rcases List.mem_append.mp hb with isNew | after
      · obtain ⟨b', hb', cb'⟩ := (same x).mp ⟨b, isNew, cb⟩
        exact between a ha b' (List.mem_append_left _ hb') x ca cb'
      · exact between a ha b (List.mem_append_right _ after) x ca cb
  · intro a ha
    rcases List.mem_append.mp ha with before | rest
    · exact positive a (List.mem_append_left _ before)
    · rcases List.mem_append.mp rest with isNew | after
      · exact some a isNew
      · exact positive a (List.mem_append_right _ (List.mem_append_right _ after))

theorem Tiles.mark (tiles : Tiles region (xs ++ a :: ys)) (used : Bool) :
    Tiles region (xs ++ { a with used := used } :: ys) := by
  refine tiles.exchange [a] [{ a with used := used }] ?_ ?_ ?_
  · intro x
    simp only [List.mem_singleton, exists_eq_left]
    exact Iff.rfl
  · exact List.pairwise_singleton _ _
  · intro b hb
    rw [List.mem_singleton.mp hb]
    exact tiles.some a (List.mem_append_right _ List.mem_cons_self)

/-- A piece is cut in two. -/
theorem Tiles.cut (tiles : Tiles region (xs ++ a :: ys)) (some : 0 < n) (less : n < a.len) (first second : Bool) :
    Tiles region (xs ++ ⟨a.addr, n, first⟩ :: ⟨a.addr + n, a.len - n, second⟩ :: ys) := by
  refine tiles.exchange [a] [⟨a.addr, n, first⟩, ⟨a.addr + n, a.len - n, second⟩] ?_ ?_ ?_
  · intro x
    simp only [List.mem_cons, List.not_mem_nil, or_false, exists_eq_or_imp, exists_eq_left]
    unfold Piece.covers Piece.limit
    dsimp only
    omega
  · rw [List.pairwise_pair]
    intro x ca cb
    unfold Piece.covers Piece.limit at ca cb
    dsimp only at ca cb
    omega
  · intro b hb
    rcases List.mem_cons.mp hb with same | later
    · rw [same]
      exact some
    · rw [List.mem_singleton.mp later]
      exact Nat.sub_pos_of_lt less

theorem Tiles.join (tiles : Tiles region (xs ++ a :: b :: ys)) (joins : Joins a b) :
    Tiles region (xs ++ a.join b :: ys) := by
  have first := tiles.some a (List.mem_append_right _ List.mem_cons_self)
  refine tiles.exchange [a, b] [a.join b] ?_ ?_ ?_
  · intro x
    simp only [List.mem_cons, List.not_mem_nil, or_false, exists_eq_or_imp, exists_eq_left]
    have meet := joins.2.2
    unfold Piece.covers Piece.limit at *
    unfold Piece.join
    dsimp only
    omega
  · exact List.pairwise_singleton _ _
  · intro c hc
    rw [List.mem_singleton.mp hc]
    exact Nat.add_pos_left first _

/-! ## Joining neighbours -/

theorem coalesce_joins (joins : Joins a b) : coalesce a (b :: l) = coalesce (a.join b) l := if_pos joins

theorem coalesce_apart (no : ¬ Joins a b) : coalesce a (b :: l) = a :: coalesce b l := if_neg no

theorem Joins.limit (joins : Joins a b) : (a.join b).limit = b.limit := by
  have meet := joins.2.2
  unfold Piece.limit at *
  unfold Piece.join
  dsimp only
  omega

theorem Tiles.coalesce (tiles : Tiles region (xs ++ a :: l)) : Tiles region (xs ++ coalesce a l) := by
  induction l generalizing xs a with
  | nil => exact tiles
  | cons b l ih =>
    by_cases joins : Joins a b
    · rw [coalesce_joins joins]
      exact ih (tiles.join joins)
    · rw [coalesce_apart joins]
      have inner : Tiles region ((xs ++ [a]) ++ b :: l) := by
        rw [List.append_assoc]
        exact tiles
      have done := ih inner
      rw [List.append_assoc] at done
      exact done

/-- The first piece stays where it begins, and it ends no earlier. -/
theorem coalesce_head (a : Piece) (l : List Piece) :
    ∃ b rest, coalesce a l = b :: rest ∧ b.addr = a.addr ∧ b.used = a.used := by
  induction l generalizing a with
  | nil => exact ⟨a, [], rfl, rfl, rfl⟩
  | cons b l ih =>
    by_cases joins : Joins a b
    · rw [coalesce_joins joins]
      obtain ⟨c, rest, whole, addr, used⟩ := ih (a.join b)
      exact ⟨c, rest, whole, addr, used.trans joins.1.symm⟩
    · rw [coalesce_apart joins]
      exact ⟨a, _, rfl, rfl, rfl⟩

theorem Follows.coalesce (follows : Follows ends (a :: l)) : Follows ends (coalesce a l) := by
  induction l generalizing a with
  | nil => exact follows
  | cons b l ih =>
    obtain ⟨next, after, rest⟩ := follows
    by_cases joins : Joins a b
    · rw [coalesce_joins joins]
      refine ih ⟨?_, rest⟩
      rw [joins.limit]
      exact after
    · rw [coalesce_apart joins]
      refine ⟨?_, ih ⟨after, rest⟩⟩
      rcases next with isEnd | ⟨c, head, meet⟩
      · exact Or.inl isEnd
      · right
        obtain ⟨d, tail, whole, same, _⟩ := coalesce_head b l
        injection head with head
        refine ⟨d, by rw [whole]; rfl, ?_⟩
        rw [meet, ← head, same]

theorem coalesce_unjoined (a : Piece) (l : List Piece) : Unjoined (coalesce a l) := by
  induction l generalizing a with
  | nil => exact List.isChain_singleton a
  | cons b l ih =>
    by_cases joins : Joins a b
    · rw [coalesce_joins joins]
      exact ih _
    · rw [coalesce_apart joins]
      obtain ⟨c, rest, whole, addr, used⟩ := coalesce_head b l
      have later := ih b
      unfold Unjoined at *
      rw [whole] at later ⊢
      refine List.IsChain.cons_cons (fun no => joins ?_) later
      exact ⟨no.1, used ▸ no.2.1, addr ▸ no.2.2⟩

/-- Pieces in use are left alone. -/
theorem coalesce_used (used : c.used = true) : c ∈ coalesce a l ↔ c ∈ a :: l := by
  have other : ∀ d : Piece, d.used = false → c ≠ d := by
    intro d free same
    rw [same, free] at used
    cases used
  induction l generalizing a with
  | nil => exact Iff.rfl
  | cons b l ih =>
    by_cases joins : Joins a b
    · rw [coalesce_joins joins]
      refine ih.trans ?_
      simp [other a joins.1, other b joins.2.1, other (a.join b) rfl]
    · rw [coalesce_apart joins, List.mem_cons, List.mem_cons]
      exact or_congr_right ih

/-- Joining makes no piece shorter. -/
theorem coalesce_len (member : c ∈ coalesce a l) : ∃ d ∈ a :: l, d.len ≤ c.len := by
  induction l generalizing a with
  | nil => exact ⟨c, member, Nat.le_refl _⟩
  | cons b l ih =>
    by_cases joins : Joins a b
    · rw [coalesce_joins joins] at member
      obtain ⟨d, hd, less⟩ := ih member
      rcases List.mem_cons.mp hd with same | later
      · refine ⟨a, List.mem_cons_self, Nat.le_trans ?_ less⟩
        rw [same]
        exact Nat.le_add_right _ _
      · exact ⟨d, List.mem_cons_of_mem a (List.mem_cons_of_mem b later), less⟩
    · rw [coalesce_apart joins] at member
      rcases List.mem_cons.mp member with same | later
      · exact ⟨a, List.mem_cons_self, same ▸ Nat.le_refl _⟩
      · obtain ⟨d, hd, less⟩ := ih later
        exact ⟨d, List.mem_cons_of_mem a hd, less⟩

/-! ## Neighbours -/

theorem Follows.next {R : Piece → Piece → Prop} (follows : Follows ends l) (chain : l.IsChain R) (member : a ∈ l) :
    ends a.limit ∨ ∃ b ∈ l, a.limit = b.addr ∧ R a b := by
  induction l with
  | nil => cases member
  | cons c l ih =>
    obtain ⟨next, rest⟩ := follows
    obtain ⟨first, others⟩ := List.isChain_cons.mp chain
    rcases List.mem_cons.mp member with here | later
    · rw [here]
      rcases next with isEnd | ⟨b, head, meet⟩
      · exact Or.inl isEnd
      · exact Or.inr ⟨b, List.mem_cons_of_mem c (List.mem_of_mem_head? head), meet, first b head⟩
    · rcases ih rest others later with isEnd | ⟨b, inside, found⟩
      · exact Or.inl isEnd
      · exact Or.inr ⟨b, List.mem_cons_of_mem c inside, found⟩

/-- If no neighbours on the list could be one, no two pieces could. -/
theorem Tiles.unjoined (tiles : Tiles region l) (follows : Follows ends l) (closed : ∀ e, ends e → ¬ region e)
    (chain : Unjoined l) (ha : a ∈ l) (hb : b ∈ l) : ¬ Joins a b := by
  intro joins
  have covers := Piece.covers_addr (tiles.some b hb)
  rcases follows.next chain ha with isEnd | ⟨c, hc, meet, no⟩
  · rw [joins.2.2] at isEnd
    exact closed b.addr isEnd (tiles.inside hb covers)
  · have same := tiles.at_addr hb hc (joins.2.2.symm.trans meet)
    exact no (same ▸ joins)

theorem Follows.exchange (follows : Follows ends (xs ++ a :: ys)) (addr : b.addr = a.addr)
    (after : Follows ends (b :: new)) : Follows ends (xs ++ b :: new) := by
  induction xs with
  | nil => exact after
  | cons c xs ih =>
    obtain ⟨next, rest⟩ := follows
    refine ⟨?_, ih rest⟩
    rcases next with isEnd | ⟨d, head, meet⟩
    · exact Or.inl isEnd
    · right
      cases xs with
      | nil =>
        injection head with head
        refine ⟨b, rfl, ?_⟩
        rw [meet, ← head, addr]
      | cons e xs => exact ⟨d, head, meet⟩

theorem Follows.right (follows : Follows ends (xs ++ ys)) : Follows ends ys := by
  induction xs with
  | nil => exact follows
  | cons c xs ih => exact ih follows.2

end Tiling
