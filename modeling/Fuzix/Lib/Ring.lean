import Mathlib.Tactic.Common

/-!
# Rings in a flat store

A store gives every offset a cell. `slice` reads and `blit` writes a run of cells. A
ring is the first `N` cells of a store with a reading and a writing end; `span` counts
the cells between the two and `contents` lists them.
-/

namespace Ring

variable {α : Type}

/-! ## Runs of cells -/

def slice (f : Nat → α) (off n : Nat) : List α := (List.range n).map fun i => f (off + i)

def blit (f : Nat → α) (off : Nat) (bs : List α) : Nat → α :=
  fun a => if off ≤ a then (bs[a - off]?).getD (f a) else f a

section Runs
variable {f g : Nat → α} {off n a : Nat} {bs : List α}

theorem slice_congr (same : ∀ i, i < n → f (off + i) = g (off + i)) :
    slice f off n = slice g off n :=
  List.map_congr_left fun i member => same i (List.mem_range.mp member)

theorem slice_shift (base : Nat) : slice (fun c => f (base + c)) off n = slice f (base + off) n := by
  apply List.map_congr_left
  intro i _
  show f (base + (off + i)) = f (base + off + i)
  rw [Nat.add_assoc]

theorem take_slice (m : Nat) : (slice f off n).take m = slice f off (min m n) := by
  unfold slice
  rw [← List.map_take, List.take_range]

theorem slice_of_getElem? (same : ∀ i, i < bs.length → bs[i]? = some (f (off + i))) :
    slice f off bs.length = bs := by
  apply List.ext_getElem?
  intro i
  unfold slice
  rw [List.getElem?_map]
  by_cases inside : i < bs.length
  · rw [List.getElem?_range inside, same i inside]
    rfl
  · rw [List.getElem?_eq_none (by simpa using inside), List.getElem?_eq_none (by omega)]
    rfl

theorem blit_outside (outside : a < off ∨ off + bs.length ≤ a) : blit f off bs a = f a := by
  unfold blit
  split
  · have past : bs.length ≤ a - off := by omega
    rw [List.getElem?_eq_none past]
    rfl
  · rfl

theorem blit_inside {i : Nat} (inside : i < bs.length) :
    bs[i]? = some (blit f off bs (off + i)) := by
  unfold blit
  rw [if_pos (Nat.le_add_right off i), Nat.add_sub_cancel_left, List.getElem?_eq_getElem inside]
  rfl

@[simp] theorem blit_nil : blit f off [] = f := by
  funext a
  unfold blit
  split <;> rfl

theorem slice_blit (f : Nat → α) (off : Nat) (bs : List α) :
    slice (blit f off bs) off bs.length = bs :=
  slice_of_getElem? fun _ inside => blit_inside inside

theorem slice_blit_apart {at' : Nat} (apart : off + n ≤ at' ∨ at' + bs.length ≤ off) :
    slice (blit f at' bs) off n = slice f off n :=
  slice_congr fun i hi => blit_outside (by omega)

end Runs

/-! ## Going round -/

/-- An index that ran past the end once. -/
def wrap (N a : Nat) : Nat := if a < N then a else a - N

def span (N a b : Nat) : Nat := if a ≤ b then b - a else N + b - a

section Round
variable {N a b k : Nat}

theorem wrap_lt (small : a < N + N) : wrap N a < N := by
  unfold wrap
  split <;> omega

theorem wrap_small (small : a < N) : wrap N a = a := if_pos small

theorem span_lt (ha : a < N) (hb : b < N) : span N a b < N := by
  unfold span
  split <;> omega

@[simp] theorem span_self : span N a a = 0 := by
  unfold span
  rw [if_pos (Nat.le_refl a), Nat.sub_self]

theorem span_eq_zero (ha : a < N) (none_left : span N a b = 0) : a = b := by
  unfold span at none_left
  split at none_left <;> omega

theorem wrap_span (ha : a < N) (hb : b < N) : wrap N (a + span N a b) = b := by
  unfold wrap span
  split_ifs <;> omega

theorem span_wrap (ha : a < N) (small : k < N) : span N a (wrap N (a + k)) = k := by
  unfold wrap span
  split_ifs <;> omega

theorem span_push (ha : a < N) (hb : b < N) (room : span N a b + k < N) :
    span N a (wrap N (b + k)) = span N a b + k := by
  unfold wrap span at *
  split_ifs at * <;> omega

theorem span_pop (ha : a < N) (hb : b < N) (enough : k ≤ span N a b) :
    span N (wrap N (a + k)) b = span N a b - k := by
  unfold wrap span at *
  split_ifs at * <;> omega

/-- Two spans that do not go round are one. -/
theorem span_add {c : Nat} (ha : a < N) (hb : b < N) (hc : c < N)
    (small : span N a b + span N b c < N) : span N a c = span N a b + span N b c := by
  rw [← span_push ha hb small, wrap_span hb hc]

theorem wrap_wrap {i : Nat} (ha : a < N) (small : k + i ≤ N) :
    wrap N (wrap N (a + k) + i) = wrap N (a + (k + i)) := by
  unfold wrap
  split_ifs <;> omega

end Round

/-! ## What a ring holds -/

def window (N : Nat) (f : Nat → α) (a n : Nat) : List α :=
  (List.range n).map fun i => f (wrap N (a + i))

/-- The cells from the reading end `a` up to the writing end `b`. -/
def contents (N : Nat) (f : Nat → α) (a b : Nat) : List α := window N f a (span N a b)

/-- The cells of `bs` are stored from `b` on, around the end. -/
def store (N : Nat) (f : Nat → α) (b : Nat) (bs : List α) : Nat → α :=
  fun c => (bs[span N b c]?).getD (f c)

section Contents
variable {N a b k n : Nat} {f g : Nat → α} {bs : List α}

@[simp] theorem window_length : (window N f a n).length = n := by
  simp [window]

@[simp] theorem contents_empty : contents N f a a = [] := by
  simp [contents, window]

theorem window_congr (same : ∀ i, i < n → f (wrap N (a + i)) = g (wrap N (a + i))) :
    window N f a n = window N g a n :=
  List.map_congr_left fun i member => same i (List.mem_range.mp member)

theorem window_add (ha : a < N) (small : k + n ≤ N) :
    window N f a (k + n) = window N f a k ++ window N f (wrap N (a + k)) n := by
  unfold window
  rw [List.range_add, List.map_append, List.map_map]
  congr 1
  apply List.map_congr_left
  intro i member
  have hi := List.mem_range.mp member
  show f (wrap N (a + (k + i))) = f (wrap N (wrap N (a + k) + i))
  rw [wrap_wrap ha (by omega)]

/-- A run that does not go round. -/
theorem window_slice (short : a + n ≤ N) : window N f a n = slice f a n := by
  apply List.map_congr_left
  intro i member
  have hi := List.mem_range.mp member
  rw [wrap_small (by omega)]

/-- A run that may go round, as one up to the end and one from the start. -/
theorem window_split (ha : a < N) (small : n ≤ N) :
    window N f a n = slice f a (min n (N - a)) ++ slice f 0 (n - (N - a)) := by
  by_cases short : n ≤ N - a
  · rw [window_slice (by omega), Nat.min_eq_left short, Nat.sub_eq_zero_of_le short]
    exact (List.append_nil _).symm
  · have parts : n = (N - a) + (n - (N - a)) := by omega
    have back : wrap N (a + (N - a)) = 0 := by
      unfold wrap
      split_ifs <;> omega
    rw [Nat.min_eq_right (by omega), parts, window_add ha (by omega), back, window_slice (by omega),
      window_slice (by omega), Nat.add_sub_cancel_left]

theorem store_inside {i : Nat} (hb : b < N) (inside : i < bs.length) (small : bs.length ≤ N) :
    bs[i]? = some (store N f b bs (wrap N (b + i))) := by
  unfold store
  rw [span_wrap hb (by omega), List.getElem?_eq_getElem inside]
  rfl

theorem store_outside {c : Nat} (outside : bs.length ≤ span N b c) : store N f b bs c = f c := by
  unfold store
  rw [List.getElem?_eq_none outside]
  rfl

theorem window_store (hb : b < N) (small : bs.length ≤ N) :
    window N (store N f b bs) b bs.length = bs := by
  apply List.ext_getElem?
  intro i
  unfold window
  rw [List.getElem?_map]
  by_cases inside : i < bs.length
  · rw [List.getElem?_range inside, store_inside hb inside small]
    rfl
  · rw [List.getElem?_eq_none (by simpa using inside), List.getElem?_eq_none (by omega)]
    rfl

/-- Cells in use are not the ones that are stored. -/
theorem window_store_apart (ha : a < N) (hb : b < N) (inside : n ≤ span N a b)
    (room : span N a b + bs.length < N) : window N (store N f b bs) a n = window N f a n := by
  apply window_congr
  intro i hi
  apply store_outside
  unfold span wrap at *
  split_ifs at * <;> omega

/-- What is stored at the writing end joins the contents. -/
theorem contents_push (ha : a < N) (hb : b < N) (room : span N a b + bs.length < N) :
    contents N (store N f b bs) a (wrap N (b + bs.length)) = contents N f a b ++ bs := by
  unfold contents
  rw [span_push ha hb room, window_add ha (Nat.le_of_lt room), wrap_span ha hb,
    window_store hb (by omega), window_store_apart ha hb (Nat.le_refl _) room]

/-- What is taken at the reading end leaves the contents. -/
theorem contents_pop (ha : a < N) (hb : b < N) (enough : k ≤ span N a b) :
    contents N f a b = window N f a k ++ contents N f (wrap N (a + k)) b := by
  have bound := span_lt ha hb
  have rest : span N a b = k + (span N a b - k) := by omega
  unfold contents
  rw [span_pop ha hb enough, ← window_add ha (by omega), ← rest]

theorem contents_congr (same : ∀ c, c < N → f c = g c) (ha : a < N) (hb : b < N) :
    contents N f a b = contents N g a b := by
  have bound := span_lt ha hb
  exact window_congr fun i hi => same _ (wrap_lt (by omega))

/-- One cell joins the contents. -/
theorem contents_push_one {d : α} (here : g b = d) (rest : ∀ c, c < N → c ≠ b → g c = f c)
    (ha : a < N) (hb : b < N) (room : span N a b + 1 < N) :
    contents N g a (wrap N (b + 1)) = contents N f a b ++ [d] := by
  have room' : span N a b + [d].length < N := room
  rw [← contents_push ha hb room']
  apply contents_congr
  · intro c hc
    unfold store
    by_cases same : c = b
    · rw [same, span_self, here]
      rfl
    · have away : [d].length ≤ span N b c := by
        by_contra near
        have zero : span N b c = 0 := Nat.lt_one_iff.mp (Nat.lt_of_not_le near)
        exact same (span_eq_zero hb zero).symm
      rw [rest c hc same, List.getElem?_eq_none away]
      rfl
  · exact ha
  · exact wrap_lt (by omega)

theorem contents_pop_one (ha : a < N) (hb : b < N) (some_left : a ≠ b) :
    contents N f a b = f a :: contents N f (wrap N (a + 1)) b := by
  have enough : 1 ≤ span N a b := Nat.pos_of_ne_zero fun zero => some_left (span_eq_zero ha zero)
  rw [contents_pop ha hb enough]
  unfold window
  rw [List.range_one, List.map_singleton, Nat.add_zero, wrap_small ha]
  rfl

/-- A ring that is written in two parts: up to the end, and from the start. -/
theorem store_split (hb : b < N) (small : bs.length ≤ N) {base c : Nat} {f : Nat → α} (hc : c < N) :
    blit (blit f (base + b) (bs.take (N - b))) base (bs.drop (N - b)) (base + c) =
      store N (fun c => f (base + c)) b bs c := by
  unfold store
  by_cases low : c < b
  · have around : span N b c = N - b + c := by
      unfold span
      split <;> omega
    rw [around]
    unfold blit
    rw [if_pos (Nat.le_add_right base c), Nat.add_sub_cancel_left, List.getElem?_drop,
      if_neg (by omega)]
  · have ahead : span N b c = c - b := by
      unfold span
      split <;> omega
    have second : base + (bs.drop (N - b)).length ≤ base + c ∨ base + c < base := by
      rw [List.length_drop]
      omega
    have first : base + c - (base + b) = c - b := by omega
    rw [blit_outside second.symm, ahead]
    unfold blit
    rw [if_pos (by omega), first, List.getElem?_take, if_pos (by omega)]

end Contents

end Ring
