import Fuzix.Direct

/-!
# Direct reads against buffered reads

What a read delivers depends on the pool in one way only: a block that the device cannot
read is there, or it is not. `course` says what the loop delivers where no such block has
a copy in the pool; both ways through the loop follow it.
-/

namespace Direct

open Wp Table Words Devio
open Fuzix (Cinode isBdev NULLBLK)
open Blkdev (usizes)

/-- A device: what its blocks hold, with what is still to be written back, and which of them
cannot be read. -/
structure View where
  content : Nat → Block
  fails : Nat → Bool

def View.block (v : View) (nb : Nat) : Block := if nb = NULLBLK then zeroBlock else v.content nb

def View.lost (v : View) (nb : Nat) : Bool := nb ≠ NULLBLK && v.fails nb

def follow (v : View) : Nat → List Nat → Nat × Bool
  | nb, [] => (nb, false)
  | nb, k :: ks =>
    if v.fails nb then (0, true)
    else if word (v.content nb) k = 0 then (NULLBLK, false)
    else follow v (word (v.content nb) k) ks

/-- What `bmap` answers, and whether an index block was lost on the way. -/
def mapping (v : View) (ip : Cinode) (bn : Nat) : Nat × Bool :=
  if isBdev ip then (bn, false)
  else if ip.node.addr (path bn).1 = 0 then (NULLBLK, false)
  else follow v (ip.node.addr (path bn).1) (path bn).2

/-- The index blocks that `bmap` reads. -/
def followed (v : View) : Nat → List Nat → List Nat
  | _, [] => []
  | nb, k :: ks =>
    nb :: if v.fails nb = true ∨ word (v.content nb) k = 0 then [] else followed v (word (v.content nb) k) ks

def indexes (v : View) (ip : Cinode) (bn : Nat) : List Nat :=
  if isBdev ip = true ∨ ip.node.addr (path bn).1 = 0 then []
  else followed v (ip.node.addr (path bn).1) (path bn).2

/-- What a read changes besides the pool. -/
structure Progress where
  mem : Nat → UInt8
  base : Nat
  offset : Nat
  error : Nat

def Progress.note (lost : Bool) (p : Progress) : Progress :=
  if lost then { p with error := Devio.EIO } else p

def Progress.take (size : Nat) (l : List UInt8) (p : Progress) : Progress :=
  { p with mem := store size p.mem p.base l }

def Progress.pass (size amount : Nat) (p : Progress) : Progress :=
  { p with base := (p.base + amount) % size, offset := (p.offset + amount) % 4294967296 }

def blockAt (offset : Nat) : Nat := offset % 4294967296 / 512 % 65536

/-- The loop: how much is left, and what has been delivered. With `direct` the loop goes on
after a whole block that could not be read. -/
def course (size : Nat) (v : View) (ip : Cinode) (direct : Bool) : Nat → Nat → Progress → Nat × Progress
  | 0, toread, p => (toread, p)
  | fuel + 1, toread, p =>
    if toread = 0 then (0, p)
    else
      let amount := min toread (512 - p.offset % 512)
      let nb := mapping v ip (p.offset / 512 % 65536)
      let q := p.note nb.2
      if v.lost nb.1 = true then
        if amount = 512 ∧ direct = true then
          course size v ip direct fuel (toread - amount) ((q.note true).pass size amount)
        else (toread, q.note true)
      else
        course size v ip direct fuel (toread - amount)
          ((q.take size (bytes (v.block nb.1) (p.offset % 512) amount)).pass size amount)

def shown (s : State) : Progress := ⟨s.mem, s.base, s.offset, s.cache.uError⟩

def view (cfg : Config) (dr : Drives) (content : Store Block) (ip : Cinode) : View :=
  ⟨content (device ip), readFails cfg dr (device ip)⟩

/-- The blocks of the device that a read of the byte at an offset asks for. -/
def asked (v : View) (ip : Cinode) (offset : Nat) : List Nat :=
  let nb := (mapping v ip (blockAt offset)).1
  indexes v ip (blockAt offset) ++ if nb = NULLBLK then [] else [nb]

/-- No block that the read asks for and the device cannot read has a copy in the pool. -/
def Fresh (cfg : Config) (v : View) (ip : Cinode) (c : Cache Block) (offset n : Nat) : Prop :=
  ∀ d, d < n → ∀ b ∈ asked v ip (offset + d), v.fails b = true → Absent cfg c (device ip) b

/-- The file is open: its device is there, and its block numbers have 16 bits. -/
structure Open (cfg : Config) (ip : Cinode) : Prop where
  valid : cfg.validdev (device ip) = true
  small : ∀ k, ip.node.addr k < 65536

/-! ## The device -/

section Rounds
variable {cfg : Config} {dr : Drives} {content : Store Block} {ip : Cinode} {s t : State} {dev blk n : Nat}

/-- Through a buffer or not, the driver is asked for one sector, and the same one. -/
theorem devRead_direct : devRead cfg dr dev 1 { offset := blk * 512, count := 512, block := 0, nblock := 0 } =
    devRead cfg dr dev 0 (bdsetup blk) := by
  have block : blk * 512 / 512 = blk := Nat.mul_div_cancel blk (by decide)
  have one : (512 + 511) % usizes cfg.width / 512 = 1 := by cases cfg.width <;> decide
  have aligned : blk * 512 % 512 = 0 := Nat.mul_mod_left blk 512
  simp [devRead, Blkdev.blkdevTransfer, Blkdev.setup, Blkdev.dBlkoff, bdsetup, block, one, aligned]

theorem devRead_one : devRead cfg dr dev 0 (bdsetup blk) = .ok 512 ∨
    devRead cfg dr dev 0 (bdsetup blk) = .error Devio.EIO := by
  unfold devRead Blkdev.blkdevTransfer bdsetup Blkdev.setup
  simp only [if_true, Nat.reduceMod]
  split
  · exact Or.inr rfl
  · have size : 1 * 512 % usizes cfg.width = 512 := by cases cfg.width <;> decide
    simp only [Blkdev.rounds, Nat.one_ne_zero, if_false]
    split
    · exact Or.inr rfl
    · exact Or.inl (by simp [size])

theorem devRead_fails (fails : readFails cfg dr dev blk = true) :
    devRead cfg dr dev 0 (bdsetup blk) = .error Devio.EIO := by
  rcases @devRead_one cfg dr dev blk with read | lost
  · simp [readFails, read] at fails
  · exact lost

theorem devRead_sure (sure : readFails cfg dr dev blk = false) :
    devRead cfg dr dev 0 (bdsetup blk) = .ok 512 := by
  rcases @devRead_one cfg dr dev blk with read | lost
  · exact read
  · simp [readFails, lost] at sure

/-! ## One round -/

/-- What a call on the pool leaves of a read. -/
structure Kept (cfg : Config) (dr : Drives) (content : Store Block) (s t : State) : Prop where
  idle : Idle cfg content t.cache
  unread : Unread cfg dr s.cache t.cache
  rest : t = { s with cache := t.cache, mounted := t.mounted }

theorem wp_pooled {α : Type} {stop : Panic → Prop} {m : CacheM Block α} {Q : α → State → Prop} :
    wp stop (pooled m) Q s ↔ wp stop m (fun a c => Q a { s with cache := c }) s.cache := by
  unfold wp pooled
  cases m s.cache <;> rfl

theorem wp_brelse {stop : Panic → Prop} {Q : Unit → State → Prop} {i : Nat} (lent : Lent cfg content s.cache i)
    (done : ∀ c, Idle cfg content c → c.uError = s.cache.uError → Unread cfg dr s.cache c →
      Q () { s with cache := c }) : wp stop (brelse cfg i) Q s := by
  simp only [brelse, wp_bind, wp_pooled, wp_pure]
  exact wp_bfree lent done

theorem Unread.refl (c : Cache Block) : Unread cfg dr c c := fun _ _ _ _ absent => absent

theorem Unread.trans {c d e : Cache Block} (first : Unread cfg dr c d) (second : Unread cfg dr d e) :
    Unread cfg dr c e := by
  intro dev blk whole fails absent
  exact second dev blk whole fails (first dev blk whole fails absent)

theorem Kept.trans {u : State} (first : Kept cfg dr content s t) (second : Kept cfg dr content t u) :
    Kept cfg dr content s u := by
  constructor
  · exact second.idle
  · exact Unread.trans first.unread second.unread
  · rw [second.rest, first.rest]

theorem Kept.shown (kept : Kept cfg dr content s t) : shown t = { shown s with error := t.cache.uError } := by
  rw [kept.rest]
  rfl

/-- What is in the pool although it cannot be read is not asked for. -/
theorem Fetched.readable {c d : Cache Block} {i : Nat} (fetched : Fetched cfg dr content dev blk c d i)
    (fresh : readFails cfg dr dev blk = true → Absent cfg c dev blk) : readFails cfg dr dev blk = false := by
  by_contra fails
  have fails : readFails cfg dr dev blk = true := by simpa using fails
  rw [fetched.sure (fresh fails)] at fails
  cases fails

theorem wp_throughIndex (valid : cfg.validdev dev = true) {ks : List Nat} {nb : Nat}
    (idle : Idle cfg content s.cache)
    (fresh : ∀ b ∈ followed ⟨content dev, readFails cfg dr dev⟩ nb ks,
      readFails cfg dr dev b = true → Absent cfg s.cache dev b)
    {stop : Panic → Prop} {Q : Nat → State → Prop}
    (done : ∀ t, Kept cfg dr content s t →
      t.cache.uError = ((shown s).note (follow ⟨content dev, readFails cfg dr dev⟩ nb ks).2).error →
      Q (follow ⟨content dev, readFails cfg dr dev⟩ nb ks).1 t) :
    wp stop (throughIndex cfg dr dev nb ks) Q s := by
  induction ks generalizing nb s with
  | nil =>
    apply done
    · exact ⟨idle, Unread.refl s.cache, rfl⟩
    · rfl
  | cons k ks ih =>
    have first : nb ∈ followed ⟨content dev, readFails cfg dr dev⟩ nb (k :: ks) := List.mem_cons_self
    simp only [throughIndex, wp_bind, wp_pooled]
    apply wp_bread idle valid
    · intro i c fetched
      have sure := fetched.readable (fresh nb first)
      have here : ((c.pool i).data) = content dev nb := fetched.data
      simp only [wp_bind, wp_get]
      apply wp_brelse fetched.lent
      intro d idle' error unread
      have kept : Kept cfg dr content s { s with cache := d } :=
        ⟨idle', Unread.trans fetched.unread unread, rfl⟩
      have same : d.uError = s.cache.uError := error.trans fetched.error
      have follows : follow ⟨content dev, readFails cfg dr dev⟩ nb (k :: ks) =
          if word (content dev nb) k = 0 then (NULLBLK, false)
          else follow ⟨content dev, readFails cfg dr dev⟩ (word (content dev nb) k) ks := by
        simp [follow, sure]
      rw [here]
      by_cases empty : word (content dev nb) k = 0
      · rw [if_pos empty] at follows
        simp only [empty, if_true, wp_pure]
        have ended := done _ kept (by rw [follows]; exact same)
        rw [follows] at ended
        exact ended
      · rw [if_neg empty] at follows
        simp only [empty, if_false]
        apply ih idle'
        · intro b member fails
          have later : b ∈ followed ⟨content dev, readFails cfg dr dev⟩ nb (k :: ks) := by
            simp only [followed, sure, empty, Bool.false_eq_true, or_self, if_false]
            exact List.mem_cons_of_mem nb member
          exact kept.unread dev b (real_of_valid valid) fails (fresh b later fails)
        · intro t further error'
          rw [follows] at done
          apply done t (kept.trans further)
          rw [error']
          unfold Progress.note
          split
          · rfl
          · exact same
    · intro c refused
      have lost : follow ⟨content dev, readFails cfg dr dev⟩ nb (k :: ks) = (0, true) := by
        simp [follow, refused.fails]
      rw [lost] at done
      simp only [wp_bind, corruptFs, wp_modify, wp_pure]
      apply done
      · exact ⟨refused.idle, refused.unread, rfl⟩
      · exact refused.error

theorem wp_bmap (opened : Open cfg ip) {bn : Nat} (idle : Idle cfg content s.cache)
    (fresh : ∀ b ∈ indexes (view cfg dr content ip) ip bn,
      readFails cfg dr (device ip) b = true → Absent cfg s.cache (device ip) b)
    {stop : Panic → Prop} {Q : Nat → State → Prop}
    (done : ∀ t, Kept cfg dr content s t →
      t.cache.uError = ((shown s).note (mapping (view cfg dr content ip) ip bn).2).error →
      Q (mapping (view cfg dr content ip) ip bn).1 t) :
    wp stop (bmap cfg dr ip bn) Q s := by
  have stays : Kept cfg dr content s s := ⟨idle, Unread.refl s.cache, rfl⟩
  by_cases bdev : isBdev ip = true
  · have answer : mapping (view cfg dr content ip) ip bn = (bn, false) := if_pos bdev
    rw [answer] at done
    simp only [bmap, bdev, if_true, wp_pure]
    exact done s stays rfl
  · have dev : device ip = ip.dev := if_neg bdev
    by_cases hole : ip.node.addr (path bn).1 = 0
    · have answer : mapping (view cfg dr content ip) ip bn = (NULLBLK, false) := by simp [mapping, bdev, hole]
      rw [answer] at done
      simp only [bmap, bdev, hole, Bool.false_eq_true, if_false, if_true, wp_pure]
      exact done s stays rfl
    · have answer : mapping (view cfg dr content ip) ip bn =
          follow (view cfg dr content ip) (ip.node.addr (path bn).1) (path bn).2 := by simp [mapping, bdev, hole]
      have read : indexes (view cfg dr content ip) ip bn =
          followed (view cfg dr content ip) (ip.node.addr (path bn).1) (path bn).2 := by simp [indexes, bdev, hole]
      have valid := opened.valid
      rw [answer] at done
      rw [read] at fresh
      unfold view at done fresh
      rw [dev] at done fresh valid
      simp only [bmap, bdev, hole, Bool.false_eq_true, if_false]
      exact wp_throughIndex valid idle fresh done

theorem View.lost_iff (v : View) (nb : Nat) : v.lost nb = true ↔ nb ≠ NULLBLK ∧ v.fails nb = true := by
  simp [View.lost]

/-- A round through the pool: a block or zeroes, or the end of the loop. -/
theorem wp_throughPool (opened : Open cfg ip) {pblk amount : Nat} (idle : Idle cfg content s.cache)
    (fresh : (view cfg dr content ip).lost pblk = true → Absent cfg s.cache (device ip) pblk)
    {stop : Panic → Prop} {Q : Bool → State → Prop}
    (taken : (view cfg dr content ip).lost pblk = false → ∀ t, Idle cfg content t.cache →
      Unread cfg dr s.cache t.cache → t = { s with cache := t.cache, mem := t.mem } →
      shown t = (shown s).take (usizes cfg.width)
        (bytes ((view cfg dr content ip).block pblk) (s.offset % 512) amount) → Q true t)
    (ended : (view cfg dr content ip).lost pblk = true → ∀ t, Idle cfg content t.cache →
      t = { s with cache := t.cache } → shown t = (shown s).note true → Q false t) :
    wp stop (throughPool cfg dr (device ip) pblk amount) Q s := by
  by_cases null : pblk = NULLBLK
  · have found : (view cfg dr content ip).lost pblk = false := by simp [View.lost, null]
    have zeroes : (view cfg dr content ip).block pblk = zeroBlock := if_pos null
    simp only [throughPool, null, if_true, wp_bind, wp_map, wp_pooled]
    apply wp_zerobuf idle zeroBlock
    intro i c data error lent unread
    simp only [wp_get, uputblk, wp_modify]
    apply wp_brelse lent
    intro d idle' error' unread'
    simp only [wp_pure]
    apply taken found
    · exact idle'
    · exact Unread.trans unread unread'
    · rfl
    · simp only [shown, Progress.take, deliver, data, zeroes]
      rw [error'.trans error]
  · have here : (view cfg dr content ip).block pblk = content (device ip) pblk := if_neg null
    have asks : (view cfg dr content ip).lost pblk = readFails cfg dr (device ip) pblk := by
      simp [View.lost, view, null]
    simp only [throughPool, null, if_false, wp_bind, wp_pooled]
    apply wp_bread idle opened.valid
    · intro i c fetched
      have sure := fetched.readable (fun fails => fresh (asks.trans fails))
      simp only [wp_bind, wp_get, uputblk, wp_modify]
      apply wp_brelse fetched.lent
      intro d idle' error' unread'
      simp only [wp_pure]
      apply taken (asks.trans sure)
      · exact idle'
      · exact Unread.trans fetched.unread unread'
      · rfl
      · simp only [shown, Progress.take, deliver, fetched.data, here]
        rw [error'.trans fetched.error]
    · intro c refused
      simp only [wp_pure]
      apply ended (asks.trans refused.fails)
      · exact refused.idle
      · rfl
      · simp only [shown, Progress.note, if_true, refused.error]

/-- A round past the pool. The block is not there, so that nothing is left to be written to it. -/
theorem wp_readSector {pblk : Nat} (some : pblk ≠ NULLBLK) (small : pblk < 65536)
    (idle : Idle cfg content s.cache) (absent : Absent cfg s.cache (device ip) pblk)
    {stop : Panic → Prop} {Q : Unit → State → Prop}
    (done : ∀ t, Idle cfg content t.cache → Unread cfg dr s.cache t.cache →
      t = { s with cache := t.cache, mem := t.mem } →
      shown t = (if (view cfg dr content ip).lost pblk = true then (shown s).note true
        else (shown s).take (usizes cfg.width) (bytes ((view cfg dr content ip).block pblk) 0 512)) → Q () t) :
    wp stop (readSector cfg dr (device ip) pblk 512) Q s := by
  have here : (view cfg dr content ip).block pblk = content (device ip) pblk := if_neg some
  have asks : (view cfg dr content ip).lost pblk = readFails cfg dr (device ip) pblk := by
    simp [View.lost, view, some]
  have clean : dirtyHere cfg s.cache (device ip) pblk = false := by
    apply List.any_eq_false.mpr
    intro j member
    have other := absent j (List.mem_range.mp member)
    simp [names, other]
  have current : s.cache.disk (device ip) pblk = content (device ip) pblk := by
    rcases idle.sound.1.kept (device ip) pblk with same | ⟨j, less, named, numbered, _⟩
    · exact same
    · exact absurd ⟨named, numbered⟩ (absent j less)
  have number : pblk * 512 / 512 % 65536 = pblk := by omega
  simp only [readSector, clean, wp_bind, wp_get, wp_modify, devRead_direct, Bool.false_eq_true, if_false]
  cases fails : readFails cfg dr (device ip) pblk with
  | true =>
    rw [devRead_fails fails]
    simp only [wp_bind, setError, wp_modify]
    apply done
    · exact ⟨idle.sound, idle.supplied⟩
    · exact Unread.refl s.cache
    · rfl
    · rw [if_pos (asks.trans fails)]
      rfl
  | false =>
    rw [devRead_sure fails]
    simp only [number, current]
    rw [here] at done
    generalize bytes (content (device ip) pblk) 0 512 = l at done ⊢
    apply done
    · exact idle
    · exact Unread.refl s.cache
    · rfl
    · rw [if_neg (by rw [asks, fails]; exact Bool.false_ne_true)]
      rfl

/-! ## The loop -/

theorem blockAt_pass (offset amount d : Nat) :
    blockAt ((offset + amount) % 4294967296 + d) = blockAt (offset + (amount + d)) := by
  unfold blockAt
  rw [Nat.mod_add_mod, Nat.add_assoc]

theorem Fresh.pass {v : View} {c d : Cache Block} {offset n amount : Nat} (opened : Open cfg ip)
    (fresh : Fresh cfg v ip c offset n) (fails : v.fails = readFails cfg dr (device ip))
    (unread : Unread cfg dr c d) : Fresh cfg v ip d ((offset + amount) % 4294967296) (n - amount) := by
  intro k less b member unreadable
  rw [asked, blockAt_pass] at member
  apply unread (device ip) b (real_of_valid opened.valid)
  · rw [← fails]
    exact unreadable
  · exact fresh (amount + k) (by omega) b member unreadable

theorem follow_small {v : View} {nb : Nat} {ks : List Nat} (small : nb < 65536) : (follow v nb ks).1 < 65536 := by
  induction ks generalizing nb with
  | nil => exact small
  | cons k ks ih =>
    rw [follow]
    split
    · decide
    · split
      · decide
      · exact ih (word_lt _ _)

theorem mapping_small {v : View} {bn : Nat} (opened : Open cfg ip) (small : bn < 65536) :
    (mapping v ip bn).1 < 65536 := by
  unfold mapping
  split
  · exact small
  · split
    · decide
    · exact follow_small (opened.small _)

section Course
variable {size : Nat} {v : View} {direct : Bool} {fuel toread : Nat} {p : Progress}

/-- What the next round is about: the block, and how many bytes of it. -/
def next (v : View) (ip : Cinode) (p : Progress) : Nat × Bool := mapping v ip (p.offset / 512 % 65536)

def amountAt (toread offset : Nat) : Nat := min toread (512 - offset % 512)

theorem course_done (left : toread = 0) : course size v ip direct fuel toread p = (0, p) := by
  cases fuel with
  | zero => rw [course, left]
  | succ fuel => rw [course, if_pos left]

theorem course_taken (left : toread ≠ 0) (found : v.lost (next v ip p).1 = false) :
    course size v ip direct (fuel + 1) toread p =
      course size v ip direct fuel (toread - amountAt toread p.offset)
        ((((p.note (next v ip p).2).take size
          (bytes (v.block (next v ip p).1) (p.offset % 512) (amountAt toread p.offset))).pass size
            (amountAt toread p.offset))) := by
  have found : v.lost (mapping v ip (p.offset / 512 % 65536)).1 = false := found
  simp only [course, left, found, if_false, Bool.false_eq_true]
  rfl

theorem course_skipped (left : toread ≠ 0) (lost : v.lost (next v ip p).1 = true)
    (whole : amountAt toread p.offset = 512) (past : direct = true) :
    course size v ip direct (fuel + 1) toread p =
      course size v ip direct fuel (toread - amountAt toread p.offset)
        (((p.note (next v ip p).2).note true).pass size (amountAt toread p.offset)) := by
  have lost : v.lost (mapping v ip (p.offset / 512 % 65536)).1 = true := lost
  have both : min toread (512 - p.offset % 512) = 512 ∧ direct = true := ⟨whole, past⟩
  simp only [course, left, lost, both, if_false, if_true, and_self]
  rw [whole]
  rfl

theorem course_ended (left : toread ≠ 0) (lost : v.lost (next v ip p).1 = true)
    (part : ¬ (amountAt toread p.offset = 512 ∧ direct = true)) :
    course size v ip direct (fuel + 1) toread p = (toread, (p.note (next v ip p).2).note true) := by
  have lost : v.lost (mapping v ip (p.offset / 512 % 65536)).1 = true := lost
  have part : ¬ (min toread (512 - p.offset % 512) = 512 ∧ direct = true) := part
  simp only [course, left, lost, part, if_false, if_true]
  rfl

theorem note_error (lost : Bool) : { p with error := (p.note lost).error } = p.note lost := by
  unfold Progress.note
  split <;> rfl

end Course

/-- Where a round is when `bmap` has answered. -/
structure Found (cfg : Config) (dr : Drives) (content : Store Block) (ip : Cinode) (s t : State) : Prop where
  kept : Kept cfg dr content s t
  progress : shown t = (shown s).note (next (view cfg dr content ip) ip (shown s)).2
  small : (next (view cfg dr content ip) ip (shown s)).1 < 65536
  absent : (view cfg dr content ip).lost (next (view cfg dr content ip) ip (shown s)).1 = true →
    Absent cfg t.cache (device ip) (next (view cfg dr content ip) ip (shown s)).1

theorem Kept.fields (kept : Kept cfg dr content s t) :
    t.offset = s.offset ∧ t.count = s.count ∧ t.bypassed = s.bypassed := by
  rw [kept.rest]
  exact ⟨rfl, rfl, rfl⟩

theorem wp_bmap_next (opened : Open cfg ip) {toread : Nat} (left : toread ≠ 0) (idle : Idle cfg content s.cache)
    (bound : s.offset < 4294967296) (fresh : Fresh cfg (view cfg dr content ip) ip s.cache s.offset toread)
    {stop : Panic → Prop} {Q : Nat → State → Prop}
    (done : ∀ t, Found cfg dr content ip s t → Q (next (view cfg dr content ip) ip (shown s)).1 t) :
    wp stop (bmap cfg dr ip (s.offset / 512 % 65536)) Q s := by
  have here : blockAt (s.offset + 0) = s.offset / 512 % 65536 := by
    unfold blockAt
    rw [Nat.add_zero, Nat.mod_eq_of_lt bound]
  have asks : ∀ b ∈ asked (view cfg dr content ip) ip (s.offset + 0),
      readFails cfg dr (device ip) b = true → Absent cfg s.cache (device ip) b := fresh 0 (Nat.pos_of_ne_zero left)
  unfold asked at asks
  rw [here] at asks
  apply wp_bmap opened idle (fun b member => asks b (List.mem_append_left _ member))
  intro t kept error
  apply done t
  constructor
  · exact kept
  · rw [kept.shown, error]
    exact note_error _
  · exact mapping_small opened (Nat.mod_lt _ (by decide))
  · intro lost
    obtain ⟨some, fails⟩ := (View.lost_iff _ _).mp lost
    have some : (mapping (view cfg dr content ip) ip (s.offset / 512 % 65536)).1 ≠ NULLBLK := some
    apply kept.unread _ _ (real_of_valid opened.valid) fails
    apply asks _ _ fails
    simp only [if_neg some, List.mem_append, List.mem_singleton]
    exact Or.inr rfl

theorem wp_rounds (opened : Open cfg ip) (direct : Bool) {fuel toread : Nat} (idle : Idle cfg content s.cache)
    (bound : s.offset < 4294967296) (fresh : Fresh cfg (view cfg dr content ip) ip s.cache s.offset toread)
    {stop : Panic → Prop} {Q : Nat → State → Prop}
    (done : ∀ t, Idle cfg content t.cache → t.count = s.count → t.bypassed = s.bypassed →
      shown t = (course (usizes cfg.width) (view cfg dr content ip) ip direct fuel toread (shown s)).2 →
      Q (course (usizes cfg.width) (view cfg dr content ip) ip direct fuel toread (shown s)).1 t) :
    wp stop (rounds cfg dr direct ip fuel toread) Q s := by
  induction fuel generalizing toread s with
  | zero => exact done s idle rfl rfl rfl
  | succ fuel ih =>
    by_cases nothing : toread = 0
    · rw [course_done nothing] at done
      simp only [rounds, nothing, if_true, wp_pure]
      exact done s idle rfl rfl rfl
    · have taken := @course_taken ip (usizes cfg.width) (view cfg dr content ip) direct fuel toread (shown s) nothing
      have skipped := @course_skipped ip (usizes cfg.width) (view cfg dr content ip) direct fuel toread (shown s) nothing
      have ended := @course_ended ip (usizes cfg.width) (view cfg dr content ip) direct fuel toread (shown s) nothing
      have part : min toread (512 - s.offset % 512) = amountAt toread (shown s).offset := rfl
      have sector : amountAt toread (shown s).offset = 512 → (shown s).offset % 512 = 0 := by
        unfold amountAt
        omega
      simp only [rounds, nothing, if_false, wp_bind, wp_get, part]
      apply wp_bmap_next opened nothing idle bound fresh
      rintro t ⟨kept, progress, small, reading⟩
      have fields := kept.fields
      generalize (next (view cfg dr content ip) ip (shown s)).1 = nb at *
      -- the rounds after this one, from where it leaves the read
      have onward : ∀ u, Idle cfg content u.cache → Unread cfg dr t.cache u.cache →
          u = { t with cache := u.cache, mem := u.mem } →
          course (usizes cfg.width) (view cfg dr content ip) ip direct (fuel + 1) toread (shown s) =
            course (usizes cfg.width) (view cfg dr content ip) ip direct fuel
              (toread - amountAt toread (shown s).offset)
              ((shown u).pass (usizes cfg.width) (amountAt toread (shown s).offset)) →
          wp stop (rounds cfg dr direct ip fuel (toread - amountAt toread (shown s).offset)) Q
            { u with
              base := (u.base + amountAt toread (shown s).offset) % usizes cfg.width
              offset := (u.offset + amountAt toread (shown s).offset) % 4294967296 } := by
        intro u idle' unread rest goes
        have still : u.offset = s.offset ∧ u.count = s.count ∧ u.bypassed = s.bypassed := by
          rw [rest]
          exact fields
        have later := @Fresh.pass cfg dr ip _ s.cache u.cache s.offset toread (amountAt toread (shown s).offset) opened
          fresh rfl (Unread.trans kept.unread unread)
        rw [goes] at done
        have moved : (u.offset + amountAt toread (shown s).offset) % 4294967296 < 4294967296 :=
          Nat.mod_lt _ (by decide)
        rw [← still.1] at later
        exact ih (s := { u with
          base := (u.base + amountAt toread (shown s).offset) % usizes cfg.width
          offset := (u.offset + amountAt toread (shown s).offset) % 4294967296 }) idle' moved later
          fun w idle'' count bypassed end_shown =>
            done w idle'' (count.trans still.2.1) (bypassed.trans still.2.2) end_shown
      split
      · rename_i past
        rw [past.2.1] at onward taken skipped sector ⊢
        simp only [wp_bind, wp_pure, if_true, advance, wp_modify]
        apply wp_readSector past.1 small kept.idle (absent_iff.mp past.2.2.2)
        intro u idle' unread rest end_shown
        apply onward u idle' unread rest
        cases lost : (view cfg dr content ip).lost nb with
        | true =>
          rw [skipped lost rfl past.2.2.1, end_shown, if_pos lost, progress]
        | false =>
          rw [taken lost, end_shown, if_neg (by rw [lost]; exact Bool.false_ne_true), progress, sector rfl]
      · rename_i through
        simp only [wp_bind]
        apply wp_throughPool opened kept.idle reading
        · intro found u idle' unread rest end_shown
          simp only [if_true, wp_bind, advance, wp_modify]
          apply onward u idle' unread rest
          rw [taken found, end_shown, progress, fields.1]
          rfl
        · intro lost u idle' rest end_shown
          have part : ¬ (amountAt toread (shown s).offset = 512 ∧ direct = true) := by
            intro whole
            have some := ((View.lost_iff _ _).mp lost).1
            exact through ⟨some, whole.1, whole.2, absent_iff.mpr (reading lost)⟩
          rw [ended lost part] at done
          simp only [Bool.false_eq_true, if_false, wp_pure]
          have still : u.count = s.count ∧ u.bypassed = s.bypassed := by
            rw [rest]
            exact fields.2
          apply done u idle' still.1 still.2
          rw [end_shown, progress]

/-! ## The read -/

/-- What the loop leaves of a read. -/
def outcome (cfg : Config) (dr : Drives) (content : Store Block) (ip : Cinode) (direct : Bool) (s : State) :
    Nat × Progress :=
  course (usizes cfg.width) (view cfg dr content ip) ip direct (wanted ip s) (wanted ip s) (shown s)

def counted (size n left error : Nat) : Nat := if n - left = 0 ∧ error ≠ 0 then size - 1 else n - left

/-- The file is open, the pool is idle, and the request has the width of its type. -/
structure Ready (cfg : Config) (content : Store Block) (ip : Cinode) (s : State) : Prop where
  opened : Open cfg ip
  idle : Idle cfg content s.cache
  offset : s.offset < 4294967296
  count : s.count < usizes cfg.width

theorem readi_outcome (ready : Ready cfg content ip s)
    (fresh : Fresh cfg (view cfg dr content ip) ip s.cache s.offset (wanted ip s)) (how : Choice) (flag : Nat) :
    ∃ t, readi cfg dr how ip flag s = .ok ((), t) ∧ t.bypassed = s.bypassed ∧
      shown t = (outcome cfg dr content ip (readDirect how flag) s).2 ∧
      t.count = counted (usizes cfg.width) (wanted ip s) (outcome cfg dr content ip (readDirect how flag) s).1
        (outcome cfg dr content ip (readDirect how flag) s).2.error := by
  have spec : wp (fun _ => False) (readi cfg dr how ip flag) (fun _ t => t.bypassed = s.bypassed ∧
      shown t = (outcome cfg dr content ip (readDirect how flag) s).2 ∧
      t.count = counted (usizes cfg.width) (wanted ip s) (outcome cfg dr content ip (readDirect how flag) s).1
        (outcome cfg dr content ip (readDirect how flag) s).2.error) s := by
    simp only [readi, wp_bind, wp_modify, wp_get]
    apply wp_rounds (s := { s with count := wanted ip s }) ready.opened (readDirect how flag) ready.idle ready.offset
      fresh
    intro t _ count bypassed end_shown
    refine ⟨bypassed, end_shown, ?_⟩
    have error : t.cache.uError = (outcome cfg dr content ip (readDirect how flag) s).2.error :=
      congrArg Progress.error end_shown
    rw [← error, count]
    rfl
  obtain ⟨_, t, run, post⟩ := wp_returns spec
  exact ⟨t, run, post⟩

/-- The same bytes at the same addresses, the same count, error and offset. -/
structure Same (t u : State) : Prop where
  mem : t.mem = u.mem
  count : t.count = u.count
  error : t.cache.uError = u.cache.uError
  offset : t.offset = u.offset

/-- The read does what it would do if every block went through the pool, and gets past no
dirty buffer. -/
def Agrees (cfg : Config) (dr : Drives) (ip : Cinode) (how : Choice) (flag : Nat) (s : State) : Prop :=
  ∃ t u, readi cfg dr how ip flag s = .ok ((), t) ∧ readi cfg dr .absent ip flag s = .ok ((), u) ∧ Same t u ∧
    t.bypassed = s.bypassed

theorem wanted_le : wanted ip s ≤ s.count := by
  unfold wanted
  split
  · exact Nat.le_refl _
  · split
    · exact Nat.zero_le _
    · exact Nat.min_le_left _ _

end Rounds

/-! ## A drive with a sector that cannot be read -/

def worn (bad : Nat) : Drives where
  swapdev := false
  device := fun _ => Blkdev.oneDrive
  driver := fun _ =>
    { transfer := fun _ a => if a.nblock = 0 ∨ a.lba = bad then 0 else 1
      fits := by
        intro _ a
        split <;> omega }

/-- The drive itself, opened as a block device. -/
def rawDisk : Cinode where
  magic := 24721
  dev := 0
  num := 1
  node :=
    { mode := 0o060600
      nlink := 1
      uid := 0
      gid := 0
      size := 0
      atime := 0
      mtime := 0
      ctime := 0
      addr := fun _ => 0 }
  refs := 1
  readers := 1
  writers := 0
  dirty := false
  rdonly := false
  flock := 0

def emptyPool : Nat → Blkbuf Block := fun _ => ⟨zeroBlock, NO_DEVICE, 0, false, .free, 0⟩

def reading (pool : Nat → Blkbuf Block) (offset count : Nat) : State where
  cache :=
    { pool := pool
      bufclock := 0
      disk := fun _ _ => zeroBlock
      uError := 0
      fault := fun _ => false
      xfers := 0 }
  mem := fun _ => 0
  base := 0
  offset := offset
  count := count
  mounted := fun _ => 0
  bypassed := []

def seen (r : Except Panic (Unit × State)) : Option (Nat × Nat × Nat) :=
  match r with
  | .ok (_, t) => some (t.count, t.offset, t.cache.uError)
  | .error _ => none

/-- Block 3 cannot be read, and a dirty buffer carries it. The two reads before it through the
pool evict that buffer; past the pool they do not. -/
theorem copy_evicted : ∃ pool : Nat → Blkbuf Block, names 0 3 (pool 0) = true ∧ (pool 0).dirty = true ∧
    seen (readi smallConfig (worn 3) .large rawDisk 0 (reading pool 512 1536)) = some (1536, 2048, 0) ∧
    seen (readi smallConfig (worn 3) .absent rawDisk 0 (reading pool 512 1536)) = some (1024, 1536, 5) := by
  refine ⟨put emptyPool 0 ⟨zeroBlock, 0, 3, true, .free, 0⟩, rfl, rfl, ?_⟩
  constructor <;> decide +kernel

end Direct
