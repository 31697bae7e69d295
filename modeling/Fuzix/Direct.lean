import Fuzix.Filesys
import Fuzix.Blkdev
import Fuzix.Coherence

/-!
# Reads past the buffer pool

`readi` of inode.c for files, directories and block devices, into the memory of a
process. A whole block that is not in the pool may be read straight into that memory.
A device is the block device layer of blkdev.c over a driver. Write-backs succeed:
which blocks cannot be read is up to the driver.
-/

namespace Direct

open Wp Table Words Devio
open Fuzix (Cinode isBdev NULLBLK)
open Blkdev (usizes)

def O_DIRECT : Nat := 32

/-- How `read_direct` is defined: with `CONFIG_LARGE_IO_DIRECT`, with 32 buffers or more,
or not at all. -/
inductive Choice where
  | large
  | flagged
  | absent
deriving DecidableEq

def readDirect (how : Choice) (flag : Nat) : Bool :=
  match how with
  | .large => true
  | .flagged => flag / O_DIRECT % 2 = 1
  | .absent => false

structure Drives where
  swapdev : Bool
  device : Nat → Blkdev.Device
  driver : Nat → Blkdev.Driver

/-- `mounted` is `s_mounted` of the file system on a device. `bypassed` lists the blocks
that were read from the device while a dirty buffer carried them. -/
structure State where
  cache : Cache Block
  mem : Nat → UInt8
  base : Nat
  offset : Nat
  count : Nat
  mounted : Nat → Nat
  bypassed : List (Nat × Nat)

abbrev ReadM := StateT State (Except Panic)

variable (cfg : Config) (dr : Drives)

/-- `dev_read` of a block device. -/
def devRead (dev rawflag : Nat) (u : Blkdev.Udata) : Except Nat Nat :=
  (Blkdev.blkdevTransfer cfg.width dr.swapdev (dr.device dev) (dr.driver dev) (dev % 256)
    rawflag u).2

/-- What `bdsetup` leaves for a read into a buffer. -/
def bdsetup (blk : Nat) : Blkdev.Udata :=
  { offset := 0, count := 0, block := BitVec.ofNat 16 blk, nblock := 1 }

def readFails (dev blk : Nat) : Bool :=
  match devRead cfg dr dev 0 (bdsetup blk) with
  | .ok n => n ≠ 512
  | .error _ => true

/-- The transfers that `bread` makes: the write-back of a dirty victim, if there is one,
and then the read. -/
def facing (dev blk : Nat) (c : Cache Block) : Cache Block :=
  let before := match victim cfg c with
    | some i => if (c.pool i).dirty then 1 else 0
    | none => 0
  { c with fault := fun n => decide (n = c.xfers + before) && readFails cfg dr dev blk }

def bread (dev blk : Nat) : CacheM Block (Option Nat) := do
  modify (facing cfg dr dev blk)
  let bp ← Devio.bread cfg dev blk false
  modify (fun c => { c with fault := fun _ => false })
  return bp

def pooled {α : Type} (m : CacheM Block α) : ReadM α := fun s =>
  match m s.cache with
  | .error e => .error e
  | .ok (a, c) => .ok (a, { s with cache := c })

def brelse (i : Nat) : ReadM Unit := do
  let _ ← pooled (bfree cfg i 0)

def setError (e : Nat) : ReadM Unit := modify (fun s => { s with cache := { s.cache with uError := e } })

def corruptFs (dev : Nat) : ReadM Unit := modify (fun s => { s with mounted := put s.mounted dev 1 })

/-- The slot of `i_addr` that leads to block `bn` of a file, and the entries of the index
blocks after it. -/
def path (bn : Nat) : Nat × List Nat :=
  if bn < 18 then (bn, [])
  else if bn - 18 < 256 then (18, [bn - 18])
  else (19, [(bn - 18 - 256) / 256 % 256, (bn - 18 - 256) % 256])

/-- The loop of `bmap` through the index blocks. -/
def throughIndex (dev : Nat) : Nat → List Nat → ReadM Nat
  | nb, [] => pure nb
  | nb, k :: ks => do
    match ← pooled (bread cfg dr dev nb) with
    | none =>
      corruptFs dev
      return 0
    | some i =>
      let s ← get
      let next := word (s.cache.pool i).data k
      brelse cfg i
      if next = 0 then return NULLBLK else throughIndex dev next ks

/-- `bmap` for reading. -/
def bmap (ip : Cinode) (bn : Nat) : ReadM Nat :=
  if isBdev ip then pure bn
  else
    let nb := ip.node.addr (path bn).1
    if nb = 0 then pure NULLBLK else throughIndex cfg dr ip.dev nb (path bn).2

/-- The memory after the bytes of a list are stored from an address on. -/
def store (size : Nat) (mem : Nat → UInt8) (base : Nat) : List UInt8 → Nat → UInt8
  | [] => mem
  | x :: l => store size (put mem (base % size) x) (base + 1) l

def deliver (l : List UInt8) (s : State) : State :=
  { s with mem := store (usizes cfg.width) s.mem s.base l }

def uputblk (i off amount : Nat) : ReadM Unit :=
  modify (fun s => deliver cfg (bytes (s.cache.pool i).data off amount) s)

def dirtyHere (c : Cache Block) (dev blk : Nat) : Bool :=
  (List.range cfg.nbufs).any (fun i => names dev blk (c.pool i) && (c.pool i).dirty)

/-- The device call between the two halves of the stash. Its answer is not looked at. -/
def readSector (dev pblk amount : Nat) : ReadM Unit := do
  let s ← get
  modify (fun s => { s with
    count := amount
    offset := pblk * 512
    bypassed := if dirtyHere cfg s.cache dev pblk then (dev, pblk) :: s.bypassed else s.bypassed })
  let t ← get
  match devRead cfg dr dev 1 { offset := t.offset, count := t.count, block := 0, nblock := 0 } with
  | .ok n => modify (deliver cfg (bytes (t.cache.disk dev (t.offset / 512 % 65536)) 0 n))
  | .error e => setError e
  modify (fun t => { t with offset := s.offset, count := s.count })

/-- The other branch of the loop, which ends the loop when there is no buffer. -/
def throughPool (dev pblk amount : Nat) : ReadM Bool := do
  let bp ← if pblk = NULLBLK then some <$> pooled (zerobuf cfg zeroBlock)
    else pooled (bread cfg dr dev pblk)
  match bp with
  | none => return false
  | some i =>
    let s ← get
    uputblk cfg i (s.offset % 512) amount
    brelse cfg i
    return true

def advance (amount : Nat) : ReadM Unit :=
  modify (fun s => { s with
    base := (s.base + amount) % usizes cfg.width
    offset := (s.offset + amount) % 4294967296 })

def device (ip : Cinode) : Nat := if isBdev ip then ip.node.addr 0 else ip.dev

/-- The loop of `readi` answers how much is left. A round reads one byte at least, so that
the count bounds the number of rounds. -/
def rounds (direct : Bool) (ip : Cinode) : Nat → Nat → ReadM Nat
  | 0, toread => pure toread
  | fuel + 1, toread =>
    if toread = 0 then pure 0
    else do
      let s ← get
      let amount := min toread (512 - s.offset % 512)
      let pblk ← bmap cfg dr ip (s.offset / 512 % 65536)
      let t ← get
      let more ←
        if pblk ≠ NULLBLK ∧ amount = 512 ∧ direct = true ∧ bfind cfg t.cache (device ip) pblk = none then do
          readSector cfg dr (device ip) pblk amount
          pure true
        else throughPool cfg dr (device ip) pblk amount
      if more then do
        advance cfg amount
        rounds direct ip fuel (toread - amount)
      else pure toread

/-- The count that is asked for, less what is behind the end of a file. -/
def wanted (ip : Cinode) (s : State) : Nat :=
  if isBdev ip then s.count
  else if ip.node.size ≤ s.offset then 0
  else min s.count (ip.node.size - s.offset)

def readi (how : Choice) (ip : Cinode) (flag : Nat) : ReadM Unit := do
  modify (fun s => { s with count := wanted ip s })
  let s ← get
  let toread ← rounds cfg dr (readDirect how flag) ip s.count s.count
  modify (fun s => { s with count := s.count - toread })
  modify (fun s => { s with
    count := if s.count = 0 ∧ s.cache.uError ≠ 0 then usizes cfg.width - 1 else s.count })

/-! ## One block through the pool -/

def Absent (cfg : Config) (c : Cache Block) (dev blk : Nat) : Prop :=
  ∀ j, j < cfg.nbufs → ¬ ((c.pool j).dev = dev ∧ (c.pool j).blk = blk)

/-- The pool between two calls: nobody holds a buffer, and there is one that can be had. -/
structure Idle (cfg : Config) (content : Store Block) (c : Cache Block) : Prop where
  sound : Sound cfg c content (fun _ => none)
  supplied : ∃ i, i < cfg.nbufs ∧ 0 ≤ age cfg c.bufclock (c.pool i).time

/-- A block that cannot be read does not get into the pool. -/
def Unread (cfg : Config) (dr : Drives) (c t : Cache Block) : Prop :=
  ∀ dev blk, dev ≠ NO_DEVICE → readFails cfg dr dev blk = true → Absent cfg c dev blk → Absent cfg t dev blk

/-- A buffer that is held for reading, or as scratch. -/
structure Lent (cfg : Config) (content : Store Block) (t : Cache Block) (i : Nat) : Prop where
  less : i < cfg.nbufs
  sound : ∃ k, k ≠ .fresh ∧ Sound cfg t content (put (fun _ => none) i (some k))
  stamped : (t.pool i).time = t.bufclock

section Pool
variable {cfg} {dr} {c : Cache Block} {content : Store Block} {dev blk i : Nat}

theorem absent_iff : bfind cfg c dev blk = none ↔ Absent cfg c dev blk := by
  constructor
  · intro none j less
    exact bfind_none none j less
  · intro absent
    apply List.find?_eq_none.mpr
    intro j member named
    simp only [names, decide_eq_true_eq] at named
    exact absent j (List.mem_range.mp member) named

@[simp] theorem setBuf_bufclock (f : Blkbuf Block → Blkbuf Block) : (setBuf i f c).bufclock = c.bufclock := rfl

theorem Idle.free (idle : Idle cfg content c) (less : i < cfg.nbufs) : (c.pool i).busy = .free := by
  have busy := idle.sound.1.busy i less
  simpa using busy

theorem victimStep_eq (best : Option Nat × Int) (j : Nat) : victimStep cfg c best j =
    if best.2 ≤ age cfg c.bufclock (c.pool j).time ∧ (c.pool j).busy = .free then
      (some j, oldtime cfg (age cfg c.bufclock (c.pool j).time))
    else best := rfl

theorem foldl_some (l : List Nat) {best : Option Nat × Int} (some : best.1 ≠ none) :
    (l.foldl (victimStep cfg c) best).1 ≠ none := by
  induction l generalizing best with
  | nil => exact some
  | cons j l ih =>
    apply ih
    rw [victimStep_eq]
    split
    · exact Option.some_ne_none j
    · exact some

theorem foldl_supplied (l : List Nat) {best : Option Nat × Int} (start : best.1 = none → best.2 = 0)
    (member : i ∈ l) (free : (c.pool i).busy = .free) (old : 0 ≤ age cfg c.bufclock (c.pool i).time) :
    (l.foldl (victimStep cfg c) best).1 ≠ none := by
  induction l generalizing best with
  | nil => cases member
  | cons j l ih =>
    by_cases chosen : (victimStep cfg c best j).1 = none
    · have kept : victimStep cfg c best j = best := by
        rw [victimStep_eq] at chosen ⊢
        split at chosen
        · cases chosen
        · rename_i other
          rw [if_neg other]
      rcases List.mem_cons.mp member with here | later
      · subst here
        rw [kept] at chosen
        have none_yet := start chosen
        have picked : victimStep cfg c best i = (some i, oldtime cfg (age cfg c.bufclock (c.pool i).time)) := by
          rw [victimStep_eq]
          exact if_pos ⟨by omega, free⟩
        rw [kept] at picked
        rw [picked] at chosen
        cases chosen
      · rw [List.foldl_cons, kept]
        exact ih start later
    · rw [List.foldl_cons]
      exact foldl_some l chosen

theorem Idle.victim (idle : Idle cfg content c) : ∃ i, victim cfg c = some i := by
  obtain ⟨i, less, old⟩ := idle.supplied
  have none_yet : ((none, 0) : Option Nat × Int).1 = none → ((none, 0) : Option Nat × Int).2 = 0 := fun _ => rfl
  have some := foldl_supplied (List.range cfg.nbufs) none_yet (List.mem_range.mpr less) (idle.free less) old
  exact Option.ne_none_iff_exists'.mp some

/-- The pool after the victim is written back. -/
def cleaned (i : Nat) (c : Cache Block) : Cache Block :=
  if (c.pool i).dirty then
    setBuf i (fun b => { b with dirty := false }) { c with
      xfers := c.xfers + 1
      disk := put₂ c.disk (c.pool i).dev (c.pool i).blk (c.pool i).data }
  else c

theorem transfer_run (valid : cfg.validdev dev = true) :
    transfer cfg dev c = .ok (!c.fault c.xfers, { c with xfers := c.xfers + 1 }) := by
  simp only [transfer, valid, Bool.true_eq_false, if_false]
  rfl

theorem wp_freebuf_cleaned {stop : Panic → Prop} (coherent : Coherent cfg c.pool c.disk content (fun _ => none))
    (chosen : victim cfg c = some i) (sent : (c.pool i).dirty = true → c.fault c.xfers = false)
    {Q : Nat → Cache Block → Prop} (done : Q i (cleaned i c)) : wp stop (freebuf cfg) Q c := by
  simp only [freebuf, wp_bind, wp_get, chosen]
  by_cases dirty : (c.pool i).dirty = true
  · have less := (victim_free chosen).1
    have real : (c.pool i).dev ≠ NO_DEVICE := by
      intro scratch
      have clean := ((coherent.scratch i less).2 scratch).1
      rw [clean] at dirty
      cases dirty
    have written := transfer_run (c := c) (valid_of_real coherent less real)
    rw [sent dirty] at written
    simp only [dirty, if_true, wp_bind, bdwrite, wp_get, wp_returned written]
    rw [cleaned, if_pos dirty] at done
    exact done
  · simp only [dirty, Bool.false_eq_true, if_false, wp_pure]
    rw [cleaned, if_neg dirty] at done
    exact done

theorem cleaned_clean : ((cleaned i c).pool i).dirty = false := by
  unfold cleaned
  split
  · simp
  · rename_i clean
    simpa using clean

theorem cleaned_names (j : Nat) : ((cleaned i c).pool j).dev = (c.pool j).dev ∧
    ((cleaned i c).pool j).blk = (c.pool j).blk ∧ ((cleaned i c).pool j).time = (c.pool j).time := by
  unfold cleaned
  split
  · by_cases here : j = i
    · subst here
      simp
    · simp [here]
  · exact ⟨rfl, rfl, rfl⟩

theorem cleaned_rest : (cleaned i c).bufclock = c.bufclock ∧ (cleaned i c).uError = c.uError ∧
    (cleaned i c).fault = c.fault := by
  unfold cleaned
  split
  · exact ⟨rfl, rfl, rfl⟩
  · exact ⟨rfl, rfl, rfl⟩

theorem coherent_cleaned (coherent : Coherent cfg c.pool c.disk content (fun _ => none)) (less : i < cfg.nbufs) :
    Coherent cfg (cleaned i c).pool (cleaned i c).disk content (fun _ => none) := by
  unfold cleaned
  split
  · rename_i dirty
    have real : (c.pool i).dev ≠ NO_DEVICE := by
      intro scratch
      have clean := ((coherent.scratch i less).2 scratch).1
      rw [clean] at dirty
      cases dirty
    have data := coherent.content i less real (fun _ => dirty)
    have written := coherent.writeBack (i := i) data
    exact written.setClean data (by simp [data])
  · exact coherent

/-- A buffer whose block cannot be read carries no block. -/
theorem coherent_disowned {pool : Nat → Blkbuf Block} {disk : Store Block}
    (coherent : Coherent cfg pool disk content (fun _ => none)) (clean : (pool i).dirty = false) (blk : Nat) :
    Coherent cfg (put pool i { pool i with dev := NO_DEVICE, blk := blk }) disk content (fun _ => none) := by
  obtain ⟨unique, valid, data, kept, busy, scratch⟩ := coherent
  exact ⟨by grind, by grind, by grind, fun dev blk => (kept dev blk).imp id (·.put (by grind)), by grind, by grind⟩

/-- What `bread` answers, from an idle pool. -/
structure Fetched (cfg : Config) (dr : Drives) (content : Store Block) (dev blk : Nat) (c t : Cache Block)
    (i : Nat) : Prop where
  sure : Absent cfg c dev blk → readFails cfg dr dev blk = false
  data : (t.pool i).data = content dev blk
  error : t.uError = c.uError
  lent : Lent cfg content t i
  unread : Unread cfg dr c t

structure Refused (cfg : Config) (dr : Drives) (content : Store Block) (dev blk : Nat) (c t : Cache Block) :
    Prop where
  fails : readFails cfg dr dev blk = true
  absent : Absent cfg c dev blk
  error : t.uError = Devio.EIO
  idle : Idle cfg content t
  unread : Unread cfg dr c t

theorem bread_hit (idle : Idle cfg content c) (valid : cfg.validdev dev = true)
    (found : bfind cfg c dev blk = some i) {stop : Panic → Prop} {Q : Option Nat → Cache Block → Prop}
    (done : ∀ t, Fetched cfg dr content dev blk c t i → Q (some i) t) :
    wp stop (bread cfg dr dev blk) Q c := by
  have real := real_of_valid valid
  obtain ⟨less, named, numbered⟩ := bfind_some found
  have free := idle.free less
  have grabbed := idle.sound.1.grab (i := i) rfl (by rw [named]; exact real) false
  have stamped := grabbed.retime i (c.bufclock + 1)
  have found' : bfind cfg (facing cfg dr dev blk c) dev blk = some i := found
  have free' : ((facing cfg dr dev blk c).pool i).busy = .free := free
  simp only [bread, wp_bind, wp_modify, Devio.bread, wp_get, found', free', reduceCtorEq, if_false, if_true,
    wp_modifyBuf, stamp, wp_pure]
  apply done
  constructor
  · intro absent
    exact absurd ⟨named, numbered⟩ (absent i less)
  · have data := idle.sound.1.content i less (by rw [named]; exact real) (fun no => by cases no)
    simp [facing, data, named, numbered]
  · rfl
  · constructor
    · exact less
    · exact ⟨.read, by decide, by simpa [facing] using stamped, fun _ => rfl⟩
    · simp [facing]
  · intro d b _ _ absent j small
    have old := absent j small
    by_cases here : j = i
    · subst here
      simpa [facing] using old
    · simpa [facing, here] using old

/-- The number of the read among the transfers, if the block is not in the pool. -/
theorem facing_sent (chosen : victim cfg c = some i) :
    ((c.pool i).dirty = true → (facing cfg dr dev blk c).fault c.xfers = false) ∧
      (cleaned i (facing cfg dr dev blk c)).fault (cleaned i (facing cfg dr dev blk c)).xfers =
        readFails cfg dr dev blk := by
  by_cases dirty : (c.pool i).dirty = true
  · simp [facing, chosen, dirty, cleaned, setBuf]
  · simp [facing, chosen, dirty, cleaned]

theorem bread_miss (idle : Idle cfg content c) (valid : cfg.validdev dev = true)
    (missing : bfind cfg c dev blk = none) {stop : Panic → Prop} {Q : Option Nat → Cache Block → Prop}
    (done : ∀ i t, Fetched cfg dr content dev blk c t i → Q (some i) t)
    (refused : ∀ t, Refused cfg dr content dev blk c t → Q none t) :
    wp stop (bread cfg dr dev blk) Q c := by
  have real := real_of_valid valid
  have absent := absent_iff.mp missing
  obtain ⟨i, chosen⟩ := idle.victim
  obtain ⟨less, free⟩ := victim_free chosen
  have sent := @facing_sent cfg dr c dev blk i chosen
  have chosen' : victim cfg (facing cfg dr dev blk c) = some i := chosen
  have missing' : bfind cfg (facing cfg dr dev blk c) dev blk = none := missing
  have before : Coherent cfg (facing cfg dr dev blk c).pool (facing cfg dr dev blk c).disk content (fun _ => none) :=
    idle.sound.1
  have coherent := coherent_cleaned before less
  have names := fun j => cleaned_names (c := facing cfg dr dev blk c) (i := i) j
  have rest := cleaned_rest (c := facing cfg dr dev blk c) (i := i)
  have clean := cleaned_clean (c := facing cfg dr dev blk c) (i := i)
  simp only [bread, wp_bind, wp_modify, Devio.bread, wp_get, missing']
  apply wp_freebuf_cleaned before chosen' sent.1
  revert sent coherent names rest clean
  generalize cleaned i (facing cfg dr dev blk c) = d
  intro sent coherent names rest clean
  have elsewhere : Absent cfg d dev blk := by
    intro j small named
    rw [(names j).1, (names j).2.1] at named
    exact absent j small named
  have idle_busy : (d.pool i).busy = .free := by simpa using coherent.busy i less
  have read := transfer_run (c := setBuf i (fun b => { b with dev := dev, blk := blk, busy := .busy }) d) valid
  have named : ((setBuf i (fun b => { b with dev := dev, blk := blk, busy := .busy }) d).pool i).dev = dev := by simp
  have still : (setBuf i (fun b => { b with dev := dev, blk := blk, busy := .busy }) d).fault
      (setBuf i (fun b => { b with dev := dev, blk := blk, busy := .busy }) d).xfers = readFails cfg dr dev blk :=
    sent.2
  rw [still] at read
  simp only [wp_modifyBuf, Bool.not_false, if_true, wp_bind, bdread, wp_get, named, wp_returned read]
  cases fails : readFails cfg dr dev blk with
  | true =>
    simp only [Bool.not_true, Bool.false_eq_true, if_false, wp_bind, wp_pure, Bool.not_false, if_true,
      wp_setError, wp_modifyBuf]
    apply refused
    have disowned := coherent_disowned coherent clean blk
    constructor
    · exact fails
    · exact absent
    · rfl
    · constructor
      · refine ⟨?_, fun _ => rfl⟩
        simpa [idle_busy] using disowned
      · obtain ⟨j, small, old⟩ := idle.supplied
        refine ⟨j, small, ?_⟩
        have clock : d.bufclock = c.bufclock := rest.1
        have time : (d.pool j).time = (c.pool j).time := (names j).2.2
        by_cases here : j = i
        · subst here
          simpa [clock, time] using old
        · simpa [clock, time, here] using old
    · intro e b whole _ gone j small
      have old := gone j small
      by_cases here : j = i
      · subst here
        have scratch : NO_DEVICE ≠ e := fun same => whole same.symm
        simp [scratch]
      · simpa [here, names j, facing] using old
  | false =>
    simp only [Bool.not_false, if_true, wp_pure, wp_bind, wp_modifyBuf, Bool.not_true, Bool.false_eq_true, if_false,
      stamp, wp_modify]
    apply done i
    have renamed := coherent.rename blk clean valid real elsewhere
    have filled := renamed.fill less (by simp) (by simpa using clean)
    have stamped := filled.retime i (d.bufclock + 1)
    rw [put_put (fun _ => none)] at stamped
    constructor
    · exact fun _ => fails
    · have data := stamped.content i less (by simpa using real) (by simp)
      simpa using data
    · exact rest.2.1
    · constructor
      · exact less
      · exact ⟨.read, by decide, by simpa using stamped, fun _ => rfl⟩
      · simp
    · intro e b _ unreadable gone j small
      have old := gone j small
      by_cases here : j = i
      · subst here
        intro same
        have named : dev = e ∧ blk = b := by simpa using same
        rw [← named.1, ← named.2, fails] at unreadable
        cases unreadable
      · simpa [here, names j, facing] using old

theorem wp_bread (idle : Idle cfg content c) (valid : cfg.validdev dev = true)
    {stop : Panic → Prop} {Q : Option Nat → Cache Block → Prop}
    (done : ∀ i t, Fetched cfg dr content dev blk c t i → Q (some i) t)
    (refused : ∀ t, Refused cfg dr content dev blk c t → Q none t) :
    wp stop (bread cfg dr dev blk) Q c := by
  cases found : bfind cfg c dev blk with
  | some i => exact bread_hit idle valid found (done i)
  | none => exact bread_miss idle valid found done refused

theorem wp_zerobuf (idle : Idle cfg content c) (zero : Block) {stop : Panic → Prop} {Q : Nat → Cache Block → Prop}
    (done : ∀ i t, (t.pool i).data = zero → t.uError = c.uError → Lent cfg content t i → Unread cfg dr c t → Q i t) :
    wp stop (zerobuf cfg zero) Q c := by
  obtain ⟨i, chosen⟩ := idle.victim
  have less := (victim_free chosen).1
  have coherent := coherent_cleaned idle.sound.1 less
  have names := fun j => cleaned_names (c := c) (i := i) j
  have rest := cleaned_rest (c := c) (i := i)
  have borrowed := coherent.borrow cleaned_clean
  have stamped := borrowed.retime i (c.bufclock + 1)
  have filled := stamped.scribble (i := i) (by simp) zero
  simp only [zerobuf, tmpbuf, wp_bind]
  apply wp_freebuf_cleaned idle.sound.1 chosen (fun _ => idle.sound.2 _)
  simp only [wp_modifyBuf, stamp, wp_modify, wp_pure]
  apply done
  · simp
  · exact rest.2.1
  · constructor
    · exact less
    · refine ⟨.tmp, by decide, by simpa [rest.1] using filled, ?_⟩
      intro n
      have quiet : (cleaned i c).fault n = false := by rw [rest.2.2]; exact idle.sound.2 n
      exact quiet
    · simp
  · intro e b whole _ gone j small
    have old := gone j small
    by_cases here : j = i
    · subst here
      have scratch : NO_DEVICE ≠ e := fun same => whole same.symm
      simp [scratch]
    · simpa [here, names j] using old

theorem age_stamped (now : UInt16) : 0 ≤ age cfg now now := by
  unfold age
  cases cfg.width <;> simp

theorem wp_bfree {stop : Panic → Prop} {Q : Int → Cache Block → Prop} (lent : Lent cfg content c i)
    (done : ∀ t, Idle cfg content t → t.uError = c.uError → Unread cfg dr c t → Q 0 t) :
    wp stop (bfree cfg i 0) Q c := by
  obtain ⟨k, kind, sound⟩ := lent.sound
  have busy := sound.1.busy i lent.less
  have released := sound.1.releaseClean (i := i) (by simpa using kind)
  simp only [put_same, Option.isSome_some, if_true] at busy
  simp only [bfree, wp_bind, wp_modifyBuf, Nat.not_lt_zero, if_false, wp_pure]
  apply done
  · constructor
    · refine ⟨?_, sound.2⟩
      simpa [busy] using released
    · refine ⟨i, lent.less, ?_⟩
      have young := @age_stamped cfg c.bufclock
      simpa [lent.stamped] using young
  · rfl
  · intro e b _ _ gone j small
    have old := gone j small
    by_cases here : j = i
    · subst here
      simpa using old
    · simpa [here] using old

end Pool

end Direct
