import Fuzix.Vmmu

/-!
# Blocks in a row

`moveblks` takes blocks that follow one another out of a list and merges them into another one.
The list they go to is passed once: either its next block comes first, or as many of the moved
blocks as belong in front of it.
-/

set_option linter.unusedSectionVars false

namespace Vmmu

open Table Fuel Dll

variable [Machine] {B : Type} {s t : Map B} {n : Node} {l xs ys zs rest : List Nat} {b c k d first fuel : Nat}

theorem blk_injective : Function.Injective Node.blk := by
  intro a b same
  injection same

section Pointers
variable {q : Node} {a : Option Nat} {c : Nat}

@[simp] theorem setNext_next : (setNext s q a).next = put s.next q a := rfl
@[simp] theorem setNext_prev : (setNext s q a).prev = s.prev := rfl
@[simp] theorem setPrev_next : (setPrev s c q).next = s.next := rfl
@[simp] theorem setPrev_prev : (setPrev s c q).prev = put s.prev c q := rfl

end Pointers

/-- A node is not in front of itself. -/
def Outside (n : Node) (l : List Nat) : Prop := ∀ c ∈ l, n ≠ .blk c

theorem outside_head (k : Nat) (l : List Nat) : Outside (.head k) l := fun _ _ no => by cases no

theorem outside_blk (away : b ∉ l) : Outside (.blk b) l :=
  fun _ member same => away (blk_injective same ▸ member)

theorem last_blk (first : Nat) (l : List Nat) : ∃ e, last Node.blk (Node.blk first) l = Node.blk e := by
  rcases last_mem Node.blk (.blk first) l with same | ⟨e, _, same⟩
  · exact ⟨first, same⟩
  · exact ⟨e, same⟩

theorem last_run (atLast : last Node.blk (Node.blk first) xs = Node.blk b) : b ∈ first :: xs := by
  rcases last_mem Node.blk (.blk first) xs with same | ⟨e, member, same⟩
  · exact blk_injective (atLast.symm.trans same) ▸ List.mem_cons_self
  · exact blk_injective (atLast.symm.trans same) ▸ List.mem_cons_of_mem first member

/-! ## The owner -/

/-- The memory in `n` blocks, if the list is the free one. -/
def amount (k n : Nat) : BitVec 32 := if k = freelist then BitVec.ofNat 32 (n * MMU_BLKSIZE) else 0#32

/-- The blocks of the run have their owner, and the free memory is counted. -/
structure Assigned (s t : Map B) (k d : Nat) (l : List Nat) : Prop where
  next : t.next = s.next
  prev : t.prev = s.prev
  vaddr : t.vaddr = s.vaddr
  data : t.data = s.data
  home : ∀ b, t.home b = if b ∈ l then d else s.home b
  gap : ∀ b, t.gap b = if b ∈ l then 0 else s.gap b
  freemem : t.freemem = s.freemem + amount d l.length - amount k l.length

theorem amount_zero (k : Nat) : amount k 0 = 0#32 := by
  unfold amount
  split
  · rw [Nat.zero_mul]
  · rfl

theorem amount_succ (k n : Nat) : amount k (n + 1) = amount k 1 + amount k n := by
  unfold amount
  split
  · rw [Nat.succ_mul, Nat.one_mul, Nat.add_comm, BitVec.ofNat_add]
  · rfl

theorem assign_run (k d : Nat) (links : Links .blk s.next s.prev n (l ++ ys)) :
    ∃ t, assign k d l.length (l ++ ys).head? s = (ys.head?, t) ∧ Assigned s t k d l := by
  induction l generalizing s n with
  | nil =>
    refine ⟨s, ?_, rfl, rfl, rfl, rfl, fun b => (if_neg List.not_mem_nil).symm,
      fun b => (if_neg List.not_mem_nil).symm, ?_⟩
    · cases ys with
      | nil => rfl
      | cons a ys => rfl
    · rw [List.length_nil, amount_zero, amount_zero, BitVec.add_zero, BitVec.sub_zero]
  | cons b l ih =>
    let u : Map B := { s with
      home := put s.home b d
      gap := put s.gap b 0
      freemem := s.freemem + amount d 1 - amount k 1 }
    obtain ⟨_, _, rest⟩ := links
    have behind : Links .blk u.next u.prev (.blk b) (l ++ ys) := rest
    obtain ⟨t, done, assigned⟩ := ih behind
    have counted : (if k = freelist then
        (if d = freelist then s.freemem + BitVec.ofNat 32 MMU_BLKSIZE else s.freemem) - BitVec.ofNat 32 MMU_BLKSIZE
        else if d = freelist then s.freemem + BitVec.ofNat 32 MMU_BLKSIZE else s.freemem) = u.freemem := by
      show _ = s.freemem + amount d 1 - amount k 1
      unfold amount
      rw [Nat.one_mul]
      by_cases source : k = freelist
      · by_cases dest : d = freelist
        · rw [if_pos source, if_pos dest, if_pos source, if_pos dest]
        · rw [if_pos source, if_neg dest, if_pos source, if_neg dest, BitVec.add_zero]
      · by_cases dest : d = freelist
        · rw [if_neg source, if_pos dest, if_neg source, if_pos dest, BitVec.sub_zero]
        · rw [if_neg source, if_neg dest, if_neg source, if_neg dest, BitVec.add_zero, BitVec.sub_zero]
    refine ⟨t, ?_, assigned.next, assigned.prev, assigned.vaddr, assigned.data, fun c => ?_, fun c => ?_, ?_⟩
    · rw [← done, ← behind.head]
      show assign k d (l.length + 1) (some b) s = _
      rw [assign, counted]
    · rw [assigned.home]
      show (if c ∈ l then d else put s.home b d c) = _
      by_cases here : c = b
      · subst here
        simp
      · rw [put_ne _ _ here]
        simp [here]
    · rw [assigned.gap]
      show (if c ∈ l then 0 else put s.gap b 0 c) = _
      by_cases here : c = b
      · subst here
        simp
      · rw [put_ne _ _ here]
        simp [here]
    · rw [assigned.freemem, List.length_cons, amount_succ d, amount_succ k]
      show s.freemem + amount d 1 - amount k 1 + amount d l.length - amount k l.length = _
      simp only [BitVec.sub_eq_add_neg, BitVec.neg_add]
      ac_rfl

/-! ## Taking the run out -/

structure Detached (s t : Map B) (first : Nat) (rest ys : List Nat) : Prop where
  run : Links .blk t.next t.prev (.blk first) rest
  next : ∀ q, q ≠ s.prev first → (∀ c ∈ first :: rest, q ≠ .blk c) → t.next q = s.next q
  prev : ∀ c, c ∉ ys.head? → t.prev c = s.prev c
  vaddr : t.vaddr = s.vaddr
  home : t.home = s.home
  gap : t.gap = s.gap
  freemem : t.freemem = s.freemem
  data : t.data = s.data

/-- The pointers after the run is taken out. -/
theorem detach_pointers (links : Links .blk s.next s.prev (.blk first) (rest ++ ys)) :
    (detach first ys.head? s).next (s.prev first) = ys.head? ∧
    (last .blk (.blk first) rest ≠ s.prev first →
      (detach first ys.head? s).next (last .blk (.blk first) rest) = none) ∧
    (∀ q, q ≠ s.prev first → q ≠ last .blk (.blk first) rest → (detach first ys.head? s).next q = s.next q) ∧
    (∀ c ∈ ys.head?, (detach first ys.head? s).prev c = s.prev first) ∧
    ∀ c, c ∉ ys.head? → (detach first ys.head? s).prev c = s.prev c := by
  have after := (links_append.mp links).2
  cases ys with
  | nil =>
    have ended : s.next (last .blk (.blk first) rest) = none := after
    refine ⟨put_same _ _ _, fun apart => ?_, fun q away _ => put_ne _ _ away, fun c no => (by cases no), fun _ _ => rfl⟩
    exact (put_ne _ _ apart).trans ended
  | cons a ys =>
    have back : s.prev a = last .blk (.blk first) rest := after.2.1
    refine ⟨put_same _ _ _, fun apart => ?_, fun q away other => ?_, fun c here => ?_, fun c away => ?_⟩
    · refine (put_ne _ _ apart).trans ?_
      show put s.next (s.prev a) none _ = none
      rw [back]
      exact put_same _ _ _
    · refine (put_ne _ _ away).trans ?_
      show put s.next (s.prev a) none q = _
      rw [back]
      exact put_ne _ _ other
    · injection here with same
      subst same
      exact put_same _ _ _
    · exact put_ne _ _ fun same => away (same ▸ rfl)

theorem detach_fields (first : Nat) (after : Option Nat) (s : Map B) :
    (detach first after s).vaddr = s.vaddr ∧ (detach first after s).home = s.home ∧
      (detach first after s).gap = s.gap ∧ (detach first after s).freemem = s.freemem ∧
      (detach first after s).data = s.data := by
  cases after with
  | none => exact ⟨rfl, rfl, rfl, rfl, rfl⟩
  | some a => exact ⟨rfl, rfl, rfl, rfl, rfl⟩

theorem detach_run (links : Links .blk s.next s.prev (.head k) (xs ++ first :: (rest ++ ys)))
    (nodup : (xs ++ first :: (rest ++ ys)).Nodup) :
    Links .blk (detach first ys.head? s).next (detach first ys.head? s).prev (.head k) (xs ++ ys) ∧
      Detached s (detach first ys.head? s) first rest ys := by
  obtain ⟨vaddr, home, gap, freemem, data⟩ := detach_fields first ys.head? s
  obtain ⟨_, before, others⟩ := List.nodup_append.mp nodup
  have behind : Links .blk s.next s.prev (.blk first) (rest ++ ys) := links.behind
  obtain ⟨path, _⟩ := links_append.mp behind
  have distinct : (first :: rest).Nodup := by
    have whole : (first :: rest ++ ys).Nodup := before
    exact (List.nodup_append.mp whole).1
  obtain ⟨firstNew, restNodup⟩ := List.nodup_cons.mp distinct
  have front : ∀ c ∈ first :: (rest ++ ys), Node.blk c ≠ s.prev first := by
    intro c member same
    rcases links.prev_mem with root | ⟨a, inside, equal⟩
    · rw [root] at same
      cases same
    · exact others a inside c member (blk_injective (same.trans equal)).symm
  obtain ⟨e, atLast⟩ := last_blk first rest
  have inRun := last_run atLast
  have apart : last .blk (.blk first) rest ≠ s.prev first := by
    rw [atLast]
    exact front e (List.mem_append_left ys inRun)
  obtain ⟨forth, ended, next, back, prev⟩ := detach_pointers behind
  have kept : ∀ q, q ≠ s.prev first → (∀ c ∈ first :: rest, q ≠ .blk c) →
      (detach first ys.head? s).next q = s.next q :=
    fun q away outside => next q away fun same => outside e inRun (same.trans atLast)
  refine ⟨links.cut blk_injective nodup (fun _ _ no => by cases no) forth kept back prev, ?_, kept, prev, vaddr, home,
    gap, freemem, data⟩
  rw [← List.append_nil rest]
  have root : ∀ a ∈ rest, Node.blk a ≠ .blk first := fun a member same => firstNew (blk_injective same ▸ member)
  refine links_append.mpr ⟨path.frame blk_injective restNodup root (fun q away inside => ?_) (fun b member => ?_), ended apart⟩
  · refine next q ?_ away
    rcases inside with same | ⟨c, member, same⟩
    · rw [same]
      exact front first List.mem_cons_self
    · rw [same]
      exact front c (List.mem_cons_of_mem first (List.mem_append_left ys member))
  · refine prev b fun head => ?_
    have later : (rest ++ ys).Nodup := (List.nodup_cons.mp before).2
    exact (List.nodup_append.mp later).2.2 b member b (List.mem_of_mem_head? head) rfl

/-! ## Merging the run -/

/-- The blocks in front of `nlink`: `first` and those of `xs`. -/
theorem stretch_run {nlink : Nat} (num fuel : Nat)
    (links : Links .blk s.next s.prev (.blk first) (xs ++ ys))
    (below : ∀ b ∈ xs, b < nlink) (above : ∀ b ∈ ys.head?, ¬ b < nlink) (enough : xs.length < num)
    (rounds : xs.length < fuel) : ∃ e, last Node.blk (Node.blk first) xs = Node.blk e ∧
      stretch s nlink fuel first num = some (e, num - xs.length) := by
  induction xs generalizing first num fuel with
  | nil =>
    obtain ⟨fuel, rfl⟩ := Nat.exists_eq_succ_of_ne_zero (Nat.ne_of_gt rounds)
    refine ⟨first, rfl, ?_⟩
    have after : s.next (.blk first) = ys.head? := links.head
    rw [stretch, after]
    cases ys with
    | nil => rfl
    | cons b ys => exact if_neg (above b rfl)
  | cons b xs ih =>
    obtain ⟨fuel, rfl⟩ := Nat.exists_eq_succ_of_ne_zero (Nat.ne_of_gt (Nat.zero_lt_of_lt rounds))
    obtain ⟨after, _, rest⟩ := links
    rw [List.length_cons] at enough rounds
    have fewer : dec num = num - 1 := if_neg (by omega)
    obtain ⟨e, atLast, done⟩ := ih (num - 1) fuel rest
      (fun c member => below c (List.mem_cons_of_mem b member)) (by omega) (by omega)
    refine ⟨e, atLast, ?_⟩
    have more : num - 1 ≠ 0 := by omega
    have left : num - 1 - xs.length = num - (xs.length + 1) := by omega
    rw [stretch, after]
    dsimp only
    rw [if_pos (below b List.mem_cons_self), fewer, if_neg more, done, left, List.length_cons]

/-- Nothing but pointers of the list from `n` on has changed. -/
structure Placed (s t : Map B) (n : Node) (l : List Nat) : Prop where
  next : ∀ q, q ≠ n → (∀ c ∈ l, q ≠ .blk c) → t.next q = s.next q
  prev : ∀ c, c ∉ l → t.prev c = s.prev c
  vaddr : t.vaddr = s.vaddr
  home : t.home = s.home
  gap : t.gap = s.gap
  freemem : t.freemem = s.freemem
  data : t.data = s.data

theorem Placed.trans {u : Map B} {m : Node} {l' : List Nat} (placed : Placed s t n l) (later : Placed t u m l')
    (node : m = n ∨ ∃ c ∈ l, m = .blk c) (sub : l' ⊆ l) : Placed s u n l := by
  refine ⟨fun q root away => ?_, fun c away => ?_, later.vaddr.trans placed.vaddr, later.home.trans placed.home,
    later.gap.trans placed.gap, later.freemem.trans placed.freemem, later.data.trans placed.data⟩
  · have other : q ≠ m := by
      intro same
      rcases node with here | ⟨c, member, here⟩
      · exact root (same.trans here)
      · exact away c member (same.trans here)
    exact (later.next q other fun c member => away c (sub member)).trans (placed.next q root away)
  · exact (later.prev c fun member => away (sub member)).trans (placed.prev c away)

/-- The merged list: in order, and from the node `n` on. -/
structure Merged (s t : Map B) (n : Node) (zs run m : List Nat) : Prop where
  links : Links .blk t.next t.prev n m
  sorted : m.Pairwise (· < ·)
  perm : m.Perm (zs ++ run)
  placed : Placed s t n (zs ++ run)

/-- The blocks of a sorted run in front of a place, and those behind. -/
theorem split_at (sorted : l.Pairwise (· < ·)) (away : c ∉ l) :
    ∃ xs ys, l = xs ++ ys ∧ (∀ b ∈ xs, b < c) ∧ ∀ b ∈ ys, c < b := by
  induction l with
  | nil => exact ⟨[], [], rfl, fun b no => (by cases no), fun b no => by cases no⟩
  | cons b l ih =>
    obtain ⟨above, later⟩ := List.pairwise_cons.mp sorted
    by_cases small : b < c
    · obtain ⟨xs, ys, whole, below, behind⟩ := ih later fun member => away (List.mem_cons_of_mem b member)
      refine ⟨b :: xs, ys, congrArg (b :: ·) whole, fun e member => ?_, behind⟩
      rcases List.mem_cons.mp member with same | inside
      · omega
      · exact below e inside
    · have other : b ≠ c := fun same => away (same ▸ List.mem_cons_self)
      refine ⟨[], b :: l, rfl, fun e no => (by cases no), fun e member => ?_⟩
      rcases List.mem_cons.mp member with same | inside
      · omega
      · have gap := above e inside
        omega

/-- The run goes to the end of the list. -/
theorem place_end (links : Links .blk s.next s.prev n []) (chain : Links .blk s.next s.prev (.blk first) rest)
    (ascending : (first :: rest).Pairwise (· < ·)) (outside : Outside n (first :: rest)) :
    ∃ t m, (∀ fuel num, 0 < fuel → place fuel n first num s = some t) ∧ Merged s t n [] (first :: rest) m := by
  have none : s.next n = Option.none := links
  have firstNew : first ∉ rest := fun no => Nat.lt_irrefl _ ((List.pairwise_cons.mp ascending).1 first no)
  refine ⟨setPrev (setNext s n (some first)) first n, first :: rest, fun fuel num some => ?_,
    ⟨⟨?_, ?_, ?_⟩, ascending, List.Perm.refl _, ⟨?_, ?_, rfl, rfl, rfl, rfl, rfl⟩⟩⟩
  · obtain ⟨fuel, rfl⟩ := Nat.exists_eq_succ_of_ne_zero (Nat.ne_of_gt some)
    rw [place, none]
  · simp
  · simp
  · refine chain.frame (put_ne _ _ (Ne.symm (outside first List.mem_cons_self))) fun b member => ⟨?_, ?_⟩
    · exact put_ne _ _ (Ne.symm (outside b (List.mem_cons_of_mem first member)))
    · exact put_ne _ _ fun same => firstNew (same ▸ member)
  · intro q root _
    exact put_ne _ _ root
  · intro b away
    exact put_ne _ _ fun same => away (same ▸ List.mem_cons_self)

/-- The blocks of the run in front of `c` are put there. -/
structure Inserted (s v : Map B) (n : Node) (first : Nat) (xs : List Nat) (c e : Nat) : Prop where
  path : Path .blk v.next v.prev n (first :: xs)
  atLast : last Node.blk (Node.blk first) xs = Node.blk e
  forth : v.next (.blk e) = some c
  back : v.prev c = .blk e
  next : ∀ q, q ≠ n → q ≠ .blk e → v.next q = s.next q
  prev : ∀ b, b ≠ first → b ≠ c → v.prev b = s.prev b
  vaddr : v.vaddr = s.vaddr
  home : v.home = s.home
  gap : v.gap = s.gap
  freemem : v.freemem = s.freemem
  data : v.data = s.data

/-- A round of the loop that finds `c` behind the first block of the run. -/
theorem place_before (here : s.next n = some c) (chain : Links .blk s.next s.prev (.blk first) (xs ++ ys))
    (less : first < c) (below : ∀ b ∈ xs, b < c) (behind : ∀ b ∈ ys, c < b)
    (ascending : (first :: (xs ++ ys)).Pairwise (· < ·)) (outside : Outside n (first :: (xs ++ ys))) :
    ∃ v e, (∀ fuel, xs.length < fuel → place (fuel + 1) n first ((xs ++ ys).length + 1) s =
        if ys.length = 0 then some v else ys.head?.bind fun p => place fuel (.blk c) p ys.length v) ∧
      Inserted s v n first xs c e := by
  let u := setPrev (setNext s n (some first)) first n
  obtain ⟨least, later⟩ := List.pairwise_cons.mp ascending
  have firstNew : first ∉ xs ++ ys := fun no => Nat.lt_irrefl _ (least first no)
  have nextU : ∀ b ∈ first :: (xs ++ ys), u.next (.blk b) = s.next (.blk b) :=
    fun b member => put_ne _ _ (Ne.symm (outside b member))
  have chainU : Links .blk u.next u.prev (.blk first) (xs ++ ys) := by
    refine chain.frame (nextU first List.mem_cons_self) fun b member => ⟨?_, ?_⟩
    · exact nextU b (List.mem_cons_of_mem first member)
    · exact put_ne _ _ fun same => firstNew (same ▸ member)
  have stretched := fun fuel => stretch_run ((xs ++ ys).length + 1) fuel chainU below
    (fun b head no => by
      have above := behind b (List.mem_of_mem_head? head)
      omega) (by rw [List.length_append]; omega)
  obtain ⟨e, atLast, _⟩ := stretched (xs.length + 1) (Nat.lt_succ_self _)
  let v := setPrev (setNext u (.blk e) (some c)) c (.blk e)
  have inRun := last_run atLast
  have notE : n ≠ .blk e := outside e (List.mem_append_left ys inRun)
  have nextV : ∀ q, q ≠ n → q ≠ .blk e → v.next q = s.next q :=
    fun q root last => (put_ne _ _ last).trans (put_ne _ _ root)
  have prevV : ∀ b, b ≠ first → b ≠ c → v.prev b = s.prev b :=
    fun b other away => (put_ne _ _ away).trans (put_ne _ _ other)
  have xsNew : ∀ b ∈ xs, b ≠ first := fun b member same => firstNew (same ▸ List.mem_append_left ys member)
  refine ⟨v, e, fun fuel rounds => ?_, ⟨⟨?_, ?_, ?_⟩, atLast, put_same _ _ _, put_same _ _ _, nextV, prevV, rfl, rfl,
    rfl, rfl, rfl⟩⟩
  · obtain ⟨e', atLast', done⟩ := stretched fuel rounds
    have same : e' = e := blk_injective (atLast'.symm.trans atLast)
    subst same
    have left : (xs ++ ys).length + 1 - xs.length = ys.length + 1 := by
      rw [List.length_append]
      omega
    have fewer : dec (ys.length + 1) = ys.length := by
      unfold dec
      rw [if_neg (Nat.succ_ne_zero _), Nat.add_sub_cancel]
    have after : u.next (.blk e') = ys.head? := by
      have links := (links_append.mp chainU).2.head
      rwa [atLast'] at links
    rw [place, here]
    dsimp only
    rw [if_neg (by omega), if_pos less]
    show ((stretch u c fuel first _).bind fun out => _) = _
    rw [done, left, Option.bind_some]
    dsimp only
    rw [fewer]
    show (if ys.length = 0 then some v else (u.next (.blk e')).bind fun p => place fuel (.blk c) p ys.length v) = _
    rw [after]
  · exact (put_ne _ _ notE).trans (put_same _ _ _)
  · exact (put_ne _ _ (by omega)).trans (put_same _ _ _)
  · obtain ⟨path, _⟩ := links_append.mp chain
    have nodup : xs.Nodup := (List.pairwise_append.mp later).1.imp fun less => Nat.ne_of_lt less
    refine path.frame blk_injective nodup (fun b member same => xsNew b member (blk_injective same)) ?_ fun b member => ?_
    · intro q away inside
      rw [atLast] at away
      refine nextV q (fun same => ?_) away
      rcases inside with first' | ⟨b, member, equal⟩
      · exact outside first List.mem_cons_self (same.symm.trans first')
      · exact outside b (List.mem_cons_of_mem first (List.mem_append_left ys member)) (same.symm.trans equal)
    · have small := below b member
      exact prevV b (xsNew b member) (by omega)

/-- What is merged behind `c` joins the blocks in front of it. -/
theorem Inserted.merged {v : Map B} {m : List Nat} {e : Nat} (inserted : Inserted s v n first xs c e)
    (merged : Merged v t (.blk c) zs ys m) (less : first < c) (below : ∀ b ∈ xs, b < c)
    (behind : ∀ b ∈ ys, c < b) (above : ∀ b ∈ zs, c < b) (ascending : (first :: (xs ++ ys)).Pairwise (· < ·))
    (outside : Outside n (c :: zs ++ first :: (xs ++ ys))) :
    Merged s t n (c :: zs) (first :: (xs ++ ys)) (first :: xs ++ c :: m) := by
  have placed := merged.placed
  have inRun := last_run inserted.atLast
  have front : ∀ b ∈ first :: xs, b < c := by
    intro b member
    rcases List.mem_cons.mp member with same | inside
    · omega
    · exact below b inside
  have aboveM : ∀ b ∈ m, c < b := by
    intro b member
    rcases List.mem_append.mp (merged.perm.mem_iff.mp member) with old | new
    · exact above b old
    · exact behind b new
  have later : ∀ b ∈ zs ++ ys, c < b := fun b member => aboveM b (merged.perm.mem_iff.mpr member)
  have cNew : c ∉ zs ++ ys := fun no => Nat.lt_irrefl _ (later c no)
  have rootOut : ∀ b ∈ first :: xs, n ≠ .blk b := fun b member =>
    outside b (List.mem_append_right _ (List.mem_append_left ys member))
  have keptFront : ∀ b ∈ first :: xs, t.next (.blk b) = v.next (.blk b) := by
    intro b member
    have small := front b member
    refine placed.next _ (fun same => ?_) fun a inside same => ?_
    · exact Nat.lt_irrefl c (blk_injective same ▸ small)
    · have large := later a inside
      have equal := blk_injective same
      omega
  have keptRoot : t.next n = v.next n := by
    refine placed.next n (outside c (by simp)) fun b member => outside b ?_
    rcases List.mem_append.mp member with old | new
    · simp [old]
    · simp [new]
  have distinct : (first :: xs).Nodup := by
    have whole : (first :: xs ++ ys).Nodup := ascending.imp fun less => Nat.ne_of_lt less
    exact (List.nodup_append.mp whole).1
  refine ⟨links_append.mpr ⟨?_, ?_⟩, ?_, ?_, ?_⟩
  · refine inserted.path.frame blk_injective distinct (fun b member => Ne.symm (rootOut b member)) ?_ fun b member => ?_
    · intro q _ inside
      rcases inside with root | ⟨b, member, same⟩
      · rw [root]
        exact keptRoot
      · rw [same]
        exact keptFront b member
    · refine placed.prev b fun no => ?_
      have small := front b member
      have large := later b no
      omega
  · show Links .blk t.next t.prev (last .blk (.blk first) xs) (c :: m)
    rw [inserted.atLast]
    exact ⟨(keptFront e inRun).trans inserted.forth, (placed.prev c cNew).trans inserted.back, merged.links⟩
  · refine List.pairwise_append.mpr ⟨?_, List.pairwise_cons.mpr ⟨aboveM, merged.sorted⟩, fun a member b back => ?_⟩
    · exact ascending.sublist (List.Sublist.cons_cons first (List.sublist_append_left xs ys))
    · have small := front a member
      rcases List.mem_cons.mp back with same | inside
      · omega
      · have large := aboveM b inside
        omega
  · have whole : (first :: xs ++ c :: m).Perm (first :: xs ++ (c :: zs ++ ys)) := (merged.perm.cons c).append_left _
    have turned : (first :: xs ++ (c :: zs) ++ ys).Perm (c :: zs ++ (first :: xs) ++ ys) :=
      List.perm_append_comm.append_right ys
    rw [List.append_assoc, List.append_assoc] at turned
    exact whole.trans turned
  · have placedV : Placed s v n (c :: zs ++ first :: (xs ++ ys)) := by
      refine ⟨fun q root away => ?_, fun b away => ?_, inserted.vaddr, inserted.home, inserted.gap,
        inserted.freemem, inserted.data⟩
      · exact inserted.next q root (away e (List.mem_append_right _ (List.mem_append_left ys inRun)))
      · exact inserted.prev b (fun same => away (same ▸ by simp)) fun same => away (same ▸ by simp)
    refine placedV.trans placed (Or.inr ⟨c, by simp, rfl⟩) fun b member => ?_
    rcases List.mem_append.mp member with old | new
    · simp [old]
    · simp [new]

/-- The list from `c` on, where the blocks in front of `c` are put. -/
theorem Inserted.keeps {v : Map B} {e : Nat} (inserted : Inserted s v n first xs c e) (path : Links .blk s.next s.prev (.blk b) l)
    (root : Outside n (b :: l)) (run : ∀ a ∈ b :: l, a ∉ first :: xs) (away : c ∉ l) :
    Links .blk v.next v.prev (.blk b) l := by
  have inRun := last_run inserted.atLast
  have notE : ∀ a ∈ b :: l, Node.blk a ≠ .blk e := fun a member same =>
    run a member (blk_injective same ▸ inRun)
  refine path.frame ?_ fun a member => ⟨?_, ?_⟩
  · exact inserted.next _ (Ne.symm (root b List.mem_cons_self)) (notE b List.mem_cons_self)
  · have inside := List.mem_cons_of_mem b member
    exact inserted.next _ (Ne.symm (root a inside)) (notE a inside)
  · refine inserted.prev a (fun same => ?_) fun same => away (same ▸ member)
    exact run a (List.mem_cons_of_mem b member) (same ▸ List.mem_cons_self)

/-- The run is merged into a sorted list. -/
theorem place_merges (links : Links .blk s.next s.prev n zs) (chain : Links .blk s.next s.prev (.blk first) rest)
    (sorted : zs.Pairwise (· < ·)) (ascending : (first :: rest).Pairwise (· < ·))
    (apart : ∀ b ∈ first :: rest, b ∉ zs) (outside : Outside n (zs ++ first :: rest)) :
    ∃ t m, (∀ fuel, zs.length + rest.length + 1 < fuel → place fuel n first (rest.length + 1) s = some t) ∧
      Merged s t n zs (first :: rest) m := by
  induction zs generalizing n first rest s with
  | nil =>
    obtain ⟨t, m, done, merged⟩ := place_end links chain ascending outside
    exact ⟨t, m, fun fuel enough => done fuel _ (by omega), merged⟩
  | cons c zs ih =>
    obtain ⟨here, back, after⟩ := links
    obtain ⟨above, later⟩ := List.pairwise_cons.mp sorted
    obtain ⟨least, climbing⟩ := List.pairwise_cons.mp ascending
    have notC : ∀ b ∈ first :: rest, b ≠ c := fun b member same => apart b member (same ▸ List.mem_cons_self)
    have apart' : ∀ b ∈ first :: rest, b ∉ zs := fun b member no => apart b member (List.mem_cons_of_mem c no)
    have alone : c ∉ zs := fun no => Nat.lt_irrefl _ (above c no)
    by_cases less : c < first
    · have behindNew : c ∉ zs ++ first :: rest := by
        intro member
        rcases List.mem_append.mp member with no | no
        · exact alone no
        · exact notC c no rfl
      obtain ⟨t, m, done, merged⟩ := ih after chain later ascending apart' (outside_blk behindNew)
      have placed := merged.placed
      have keepRoot : t.next n = s.next n :=
        placed.next n (outside c (by simp)) fun b member => outside b (List.mem_cons_of_mem c member)
      refine ⟨t, c :: m, fun fuel enough => ?_, ⟨⟨keepRoot.trans here, (placed.prev c behindNew).trans back,
        merged.links⟩, ?_, merged.perm.cons c, ⟨fun q _ away => ?_, fun b away => ?_, placed.vaddr, placed.home,
        placed.gap, placed.freemem, placed.data⟩⟩⟩
      · obtain ⟨fuel, rfl⟩ := Nat.exists_eq_succ_of_ne_zero (Nat.ne_of_gt (Nat.zero_lt_of_lt enough))
        rw [List.length_cons] at enough
        rw [place, here]
        dsimp only
        rw [if_pos less]
        exact done fuel (by omega)
      · refine List.pairwise_cons.mpr ⟨fun b member => ?_, merged.sorted⟩
        rcases List.mem_append.mp (merged.perm.mem_iff.mp member) with old | new
        · exact above b old
        · rcases List.mem_cons.mp new with same | inside
          · omega
          · have gap := least b inside
            omega
      · exact placed.next q (away c (by simp)) fun b member => away b (List.mem_cons_of_mem c member)
      · exact placed.prev b fun member => away (List.mem_cons_of_mem c member)
    · have more : first < c := by
        have other := notC first List.mem_cons_self
        omega
      obtain ⟨xs, ys, whole, below, behind⟩ := split_at climbing fun no => notC c (List.mem_cons_of_mem first no) rfl
      subst whole
      obtain ⟨v, e, round, inserted⟩ := place_before here chain more below behind ascending
        fun b member => outside b (List.mem_append_right _ member)
      have afterV : Links .blk v.next v.prev (.blk c) zs := by
        refine inserted.keeps after (fun b member => outside b (List.mem_append_left _ member)) ?_ alone
        exact fun a member no => apart a (List.mem_append_left ys no) member
      cases ys with
      | nil =>
        have rest : Merged v v (.blk c) zs [] zs :=
          ⟨afterV, later, by rw [List.append_nil], ⟨fun _ _ _ => rfl, fun _ _ => rfl, rfl, rfl, rfl, rfl, rfl⟩⟩
        refine ⟨v, _, fun fuel enough => ?_, inserted.merged rest more below behind above ascending outside⟩
        obtain ⟨fuel, rfl⟩ := Nat.exists_eq_succ_of_ne_zero (Nat.ne_of_gt (Nat.zero_lt_of_lt enough))
        rw [List.append_nil, List.length_cons] at enough
        exact round fuel (by omega)
      | cons p ys =>
        have distinct : (first :: xs ++ p :: ys).Nodup := ascending.imp fun less => Nat.ne_of_lt less
        have others := (List.nodup_append.mp distinct).2.2
        have chainV : Links .blk v.next v.prev (.blk p) ys := by
          refine inserted.keeps (links_append.mp chain).2.2.2 (fun b member => outside b ?_) ?_ ?_
          · exact List.mem_append_right _ (List.mem_cons_of_mem first (List.mem_append_right xs member))
          · exact fun a member no => others a no a member rfl
          · exact fun no => notC c (by simp [no]) rfl
        have inRun : ∀ b ∈ p :: ys, b ∈ first :: (xs ++ p :: ys) := fun b member =>
          List.mem_cons_of_mem first (List.mem_append_right xs member)
        have behindNew : c ∉ zs ++ p :: ys := by
          intro member
          rcases List.mem_append.mp member with old | new
          · exact alone old
          · exact notC c (inRun c new) rfl
        obtain ⟨t, m, done, merged⟩ := ih afterV chainV later (List.pairwise_append.mp climbing).2.1
          (fun b member => apart' b (inRun b member)) (outside_blk behindNew)
        refine ⟨t, _, fun fuel enough => ?_, inserted.merged merged more below behind above ascending outside⟩
        obtain ⟨fuel, rfl⟩ := Nat.exists_eq_succ_of_ne_zero (Nat.ne_of_gt (Nat.zero_lt_of_lt enough))
        rw [List.length_append, List.length_cons, List.length_cons] at enough
        rw [round fuel (by omega), if_neg (by simp), List.head?_cons, Option.bind_some]
        exact done fuel (by omega)

/-! ## Moving a run -/

/-- The run is out of its list and in the other one; nothing else has changed. -/
structure Spliced (s t : Map B) (k d : Nat) (xs run ys zs m : List Nat) : Prop where
  source : Links .blk t.next t.prev (.head k) (xs ++ ys)
  dest : Links .blk t.next t.prev (.head d) m
  sorted : m.Pairwise (· < ·)
  perm : m.Perm (zs ++ run)
  home : ∀ b, t.home b = if b ∈ run then d else s.home b
  gap : ∀ b, t.gap b = if b ∈ run then 0 else s.gap b
  freemem : t.freemem = s.freemem + amount d run.length - amount k run.length
  next : ∀ q, q ≠ .head k → q ≠ .head d → (∀ c ∈ xs ++ run ++ ys ++ zs, q ≠ .blk c) → t.next q = s.next q
  prev : ∀ c, c ∉ xs ++ run ++ ys ++ zs → t.prev c = s.prev c
  vaddr : t.vaddr = s.vaddr
  data : t.data = s.data

theorem spliced_none (source : Links .blk s.next s.prev (.head k) (xs ++ ys))
    (dest : Links .blk s.next s.prev (.head d) zs) (sorted : zs.Pairwise (· < ·)) :
    Spliced s s k d xs [] ys zs zs := by
  refine ⟨source, dest, sorted, by rw [List.append_nil], fun b => (if_neg List.not_mem_nil).symm,
    fun b => (if_neg List.not_mem_nil).symm, ?_, fun _ _ _ _ => rfl, fun _ _ => rfl, rfl, rfl⟩
  rw [List.length_nil, amount_zero, amount_zero, BitVec.add_zero, BitVec.sub_zero]

theorem moveblks_run (source : Links .blk s.next s.prev (.head k) (xs ++ first :: (rest ++ ys)))
    (dest : Links .blk s.next s.prev (.head d) zs) (sortedSource : (xs ++ first :: (rest ++ ys)).Pairwise (· < ·))
    (sortedDest : zs.Pairwise (· < ·)) (apart : ∀ b ∈ xs ++ first :: (rest ++ ys), b ∉ zs) (other : k ≠ d) :
    ∃ t m, (∀ fuel, zs.length + rest.length + 1 < fuel → moveblks fuel k d first (rest.length + 1) s = some t) ∧
      Spliced s t k d xs (first :: rest) ys zs m := by
  have nodup : (xs ++ first :: (rest ++ ys)).Nodup := sortedSource.imp fun less => Nat.ne_of_lt less
  obtain ⟨u, assigns, assigned⟩ := assign_run (l := first :: rest) k d (links_append.mp source).2
  have sourceU : Links .blk u.next u.prev (.head k) (xs ++ first :: (rest ++ ys)) := by
    rw [assigned.next, assigned.prev]
    exact source
  obtain ⟨cut, detached⟩ := detach_run sourceU nodup
  let v := detach first ys.head? u
  -- the node before the run is not of the other list
  have before : u.prev first = .head k ∨ ∃ a ∈ xs, u.prev first = .blk a := sourceU.prev_mem
  have inSource : ∀ c ∈ first :: rest, c ∈ xs ++ first :: (rest ++ ys) := fun c member =>
    List.mem_append_right xs (List.mem_append_left ys member)
  have destV : Links .blk v.next v.prev (.head d) zs := by
    have whole : Links .blk u.next u.prev (.head d) zs := by
      rw [assigned.next, assigned.prev]
      exact dest
    refine whole.frame ?_ fun b member => ⟨?_, ?_⟩
    · refine detached.next _ (fun same => ?_) fun c _ no => by cases no
      rcases before with root | ⟨a, _, here⟩
      · injection same.trans root with equal
        exact other equal.symm
      · cases same.trans here
    · refine detached.next _ (fun same => ?_) fun c inside same => apart c (inSource c inside) (blk_injective same ▸ member)
      rcases before with root | ⟨a, inside, here⟩
      · cases same.trans root
      · exact apart a (List.mem_append_left _ inside) (blk_injective (same.trans here) ▸ member)
    · refine detached.prev b fun head => apart b ?_ member
      have inside := List.mem_of_mem_head? head
      simp [inside]
  have ascending : (first :: rest).Pairwise (· < ·) :=
    (List.pairwise_append.mp sortedSource).2.1.sublist
      (List.Sublist.cons_cons first (List.sublist_append_left rest ys))
  obtain ⟨t, m, done, merged⟩ := place_merges destV detached.run sortedDest ascending
    (fun b member => apart b (inSource b member)) (outside_head d _)
  have placed := merged.placed
  have headK : Node.head k ≠ .head d := fun same => by
    injection same with same
    exact other same
  have cutNew : ∀ b ∈ xs ++ ys, b ∉ zs ++ first :: rest := by
    intro b member no
    obtain ⟨_, tail, others⟩ := List.nodup_append.mp nodup
    have split : (first :: rest ++ ys).Nodup := tail
    rcases List.mem_append.mp no with old | run
    · refine apart b ?_ old
      rcases List.mem_append.mp member with front | back
      · exact List.mem_append_left _ front
      · simp [back]
    · rcases List.mem_append.mp member with front | back
      · exact others b front b (List.mem_append_left ys run) rfl
      · exact (List.nodup_append.mp split).2.2 b run b back rfl
  refine ⟨t, m, fun fuel enough => ?_, ⟨?_, merged.links, merged.sorted, merged.perm, fun b => ?_, fun b => ?_, ?_,
    fun q notK notD away => ?_, fun c away => ?_, ?_, ?_⟩⟩
  · unfold moveblks
    rw [if_neg (Nat.succ_ne_zero _)]
    have out : assign k d (rest.length + 1) (some first) s = (ys.head?, u) := assigns
    rw [out]
    exact done fuel enough
  · refine cut.frame ?_ fun b member => ⟨?_, ?_⟩
    · exact placed.next _ headK fun c _ no => by cases no
    · exact placed.next _ (fun no => by cases no) fun c inside same =>
        cutNew b member (blk_injective same ▸ inside)
    · exact placed.prev b (cutNew b member)
  · rw [placed.home, detached.home]
    exact assigned.home b
  · rw [placed.gap, detached.gap]
    exact assigned.gap b
  · rw [placed.freemem, detached.freemem]
    exact assigned.freemem
  · have far : ∀ c ∈ zs ++ first :: rest, q ≠ .blk c := by
      intro c member
      refine away c ?_
      rcases List.mem_append.mp member with old | run
      · simp [old]
      · exact List.mem_append_left _ (List.mem_append_left _ (List.mem_append_right _ run))
    rw [placed.next q notD far, detached.next q ?_ fun c inside => far c (List.mem_append_right _ inside), assigned.next]
    intro same
    rcases before with root | ⟨a, inside, here⟩
    · exact notK (same.trans root)
    · exact away a (by simp [inside]) (same.trans here)
  · have far : c ∉ zs ++ first :: rest := by
      intro member
      refine away ?_
      rcases List.mem_append.mp member with old | run
      · simp [old]
      · exact List.mem_append_left _ (List.mem_append_left _ (List.mem_append_right _ run))
    rw [placed.prev c far, detached.prev c fun head => away ?_, assigned.prev]
    have inside := List.mem_of_mem_head? head
    simp [inside]
  · rw [placed.vaddr, detached.vaddr, assigned.vaddr]
  · rw [placed.data, detached.data, assigned.data]

/-- `moveblks` takes any run of blocks out of a sorted list and merges it into another one. -/
theorem moveblks_splices (s : Map B) (k d first : Nat) (xs run ys zs : List Nat)
    (source : Links .blk s.next s.prev (.head k) (xs ++ run ++ ys)) (dest : Links .blk s.next s.prev (.head d) zs)
    (sortedSource : (xs ++ run ++ ys).Pairwise (· < ·)) (sortedDest : zs.Pairwise (· < ·))
    (apart : ∀ b ∈ xs ++ run ++ ys, b ∉ zs) (other : k ≠ d) (starts : ∀ b ∈ run.head?, b = first) :
    ∃ t m, Returns (fun fuel => moveblks fuel k d first run.length s) t ∧ Spliced s t k d xs run ys zs m := by
  cases run with
  | nil =>
    rw [List.append_nil] at source
    exact ⟨s, zs, ⟨0, fun fuel _ => if_pos rfl⟩, spliced_none source dest sortedDest⟩
  | cons b rest =>
    have here : b = first := starts b rfl
    subst here
    rw [List.append_assoc] at source sortedSource apart
    obtain ⟨t, m, done, spliced⟩ := moveblks_run source dest sortedSource sortedDest apart other
    exact ⟨t, m, ⟨zs.length + rest.length + 2, fun fuel enough => done fuel (by omega)⟩, spliced⟩

/-! ## Six blocks -/

/-- The blocks 1 and 3 are free, and the process 1 has the others. -/
def six : Map Nat where
  next n := match n with
    | .head 0 => some 1
    | .head _ => some 0
    | .blk 0 => some 2
    | .blk 1 => some 3
    | .blk 2 => some 4
    | .blk 4 => some 5
    | .blk _ => none
  prev b := match b with
    | 1 => .head 0
    | 2 => .blk 0
    | 3 => .blk 1
    | 4 => .blk 2
    | 5 => .blk 4
    | _ => .head 1
  vaddr b := b
  home b := if b % 2 = 1 ∧ b < 5 then 0 else 1
  gap _ := 0
  freemem := 16384
  data p := p

omit [Machine] in
/-- The blocks 2 and 4 are freed. -/
theorem moveblks_splices_six : ∃ (_ : Machine) (t : Map Nat) (m : List Nat),
    Returns (fun fuel => moveblks fuel 1 0 2 2 six) t ∧ Spliced six t 1 0 [0] [2, 4] [5] [1, 3] m := by
  let machine : Machine := { membase := 65536, MMU_BLKSIZE := 8192, nblks := 6, whole := by decide }
  have source : Links .blk six.next six.prev (.head 1) ([0] ++ [2, 4] ++ [5]) :=
    ⟨rfl, rfl, rfl, rfl, rfl, rfl, rfl, rfl, rfl⟩
  have dest : Links .blk six.next six.prev (.head 0) [1, 3] := ⟨rfl, rfl, rfl, rfl, rfl⟩
  exact ⟨machine, moveblks_splices six 1 0 2 [0] [2, 4] [5] [1, 3] source dest (by decide) (by decide) (by decide)
    (by decide) (by simp)⟩

end Vmmu
