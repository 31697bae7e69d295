import Fuzix.Devio

/-!
# The cache and the content last released

The abstract cache has no buffers: it maps a block to the content its holder
last released as dirty, or to the device's content if there was none. The
holders follow the comment at the head of devio.c. A buffer obtained for
rewriting is released dirty, a scratch buffer is released clean, and a device is
dropped (by `d_close`) while nobody holds one of its buffers.
-/

namespace Devio

open Wp Table

/-- How the current holder of a buffer obtained it. -/
inductive Hold where
  | read
  | fresh
  | tmp
deriving DecidableEq

/-- What the holder does on release, with the content it leaves in the buffer. -/
inductive Release (B : Type) where
  | clean
  | dirty (data : B)
  | through (data : B)

variable {B : Type} (cfg : Config)

def Permitted : Hold → Release B → Prop
  | .read, _ => True
  | .fresh, .clean => False
  | .fresh, _ => True
  | .tmp, .clean => True
  | .tmp, _ => False

def release (i : Nat) : Release B → CacheM B Int
  | .clean => bfree cfg i 0
  | .dirty data => do
    modifyBuf i (fun b => { b with data := data })
    bfree cfg i 1
  | .through data => do
    modifyBuf i (fun b => { b with data := data })
    bfree cfg i 2

/-- The content last released as dirty, per device and block. -/
abbrev Store (B : Type) := Nat → Nat → B

def Release.apply (r : Release B) (dev blk : Nat) (store : Store B) : Store B :=
  match r with
  | .clean => store
  | .dirty data | .through data =>
    put₂ store dev blk data

/-- The cache with what its users know: the store and who holds which buffer. -/
structure World (B : Type) where
  cache : Cache B
  store : Store B
  hold : Nat → Option Hold

/-- One call of the block layer that returns. -/
inductive Step (w : World B) : World B → Prop where
  | bread (dev blk : Nat) (rewrite : Bool) (i : Nat) (c : Cache B) :
      cfg.validdev dev = true →
      bread cfg dev blk rewrite w.cache = .ok (some i, c) →
      Step w ⟨c, w.store,
        put w.hold i (some (if rewrite then .fresh else .read))⟩
  | breadFails (dev blk : Nat) (rewrite : Bool) (c : Cache B) :
      cfg.validdev dev = true →
      bread cfg dev blk rewrite w.cache = .ok (none, c) →
      Step w ⟨c, w.store, w.hold⟩
  | bfree (i : Nat) (k : Hold) (r : Release B) (e : Int) (c : Cache B) :
      i < cfg.nbufs → w.hold i = some k → Permitted k r →
      release cfg i r w.cache = .ok (e, c) →
      Step w ⟨c, r.apply (w.cache.pool i).dev (w.cache.pool i).blk w.store,
        put w.hold i none⟩
  | bdrop (dev : Nat) (c : Cache B) :
      cfg.validdev dev = true →
      (∀ i, i < cfg.nbufs → (w.cache.pool i).dev = dev → w.hold i = none) →
      bdrop cfg dev w.cache = .ok ((), c) →
      Step w ⟨c, w.store, w.hold⟩
  | bufsync (c : Cache B) :
      bufsync cfg w.cache = .ok ((), c) → Step w ⟨c, w.store, w.hold⟩
  | bufdiscard (i : Nat) (c : Cache B) :
      i < cfg.nbufs → bufdiscard i w.cache = .ok ((), c) →
      Step w ⟨c, w.store, w.hold⟩
  | tmpbuf (i : Nat) (c : Cache B) :
      tmpbuf cfg w.cache = .ok (i, c) →
      Step w ⟨c, w.store, put w.hold i (some .tmp)⟩
  | zerobuf (zero : B) (i : Nat) (c : Cache B) :
      zerobuf cfg zero w.cache = .ok (i, c) →
      Step w ⟨c, w.store, put w.hold i (some .tmp)⟩

/-- The pool as it is at boot: no buffer carries a block. -/
structure Boot (w : World B) : Prop where
  empty : ∀ i, i < cfg.nbufs → (w.cache.pool i).dev = NO_DEVICE
  clean : ∀ i, i < cfg.nbufs → (w.cache.pool i).dirty = false
  free : ∀ i, i < cfg.nbufs → (w.cache.pool i).busy = .free
  unheld : ∀ i, w.hold i = none
  store : w.store = w.cache.disk

inductive Reachable (w : World B) : World B → Prop where
  | refl : Reachable w w
  | step {v v' : World B} : Reachable w v → Step cfg v v' → Reachable w v'

/-! ## The invariant -/

/-- A dirty buffer carries the block. -/
def Carried (pool : Nat → Blkbuf B) (dev blk : Nat) : Prop :=
  ∃ i, i < cfg.nbufs ∧ (pool i).dev = dev ∧ (pool i).blk = blk ∧
    (pool i).dirty = true

/-- `kept` says that no content is lost: a block whose device content is stale
is carried by a dirty buffer. -/
structure Coherent (pool : Nat → Blkbuf B) (disk store : Store B)
    (hold : Nat → Option Hold) : Prop where
  unique : ∀ i j, i < cfg.nbufs → j < cfg.nbufs → (pool i).dev ≠ NO_DEVICE →
    (pool j).dev = (pool i).dev → (pool j).blk = (pool i).blk → i = j
  valid : ∀ i, i < cfg.nbufs →
    (pool i).dev = NO_DEVICE ∨ cfg.validdev (pool i).dev = true
  content : ∀ i, i < cfg.nbufs → (pool i).dev ≠ NO_DEVICE →
    (hold i = some .fresh → (pool i).dirty = true) →
    (pool i).data = store (pool i).dev (pool i).blk
  kept : ∀ dev blk, disk dev blk = store dev blk ∨ Carried cfg pool dev blk
  busy : ∀ i, i < cfg.nbufs →
    (pool i).busy = if (hold i).isSome then .busy else .free
  scratch : ∀ i, i < cfg.nbufs → (hold i = some .tmp → (pool i).dev = NO_DEVICE) ∧
    ((pool i).dev = NO_DEVICE → (pool i).dirty = false ∧ hold i ≠ some .read ∧
      hold i ≠ some .fresh)

def Sound (c : Cache B) (store : Store B) (hold : Nat → Option Hold) : Prop :=
  Coherent cfg c.pool c.disk store hold ∧ ∀ n, c.fault n = false

section Pool
variable {cfg} {pool : Nat → Blkbuf B} {disk store : Store B}
  {hold : Nat → Option Hold}

theorem Carried.put {dev blk i : Nat} {b : Blkbuf B}
    (h : Carried cfg pool dev blk)
    (same : (pool i).dirty = true →
      b.dev = (pool i).dev ∧ b.blk = (pool i).blk ∧ b.dirty = true) :
    Carried cfg (put pool i b) dev blk := by
  obtain ⟨j, hj, hd, hb, dirty⟩ := h
  exact ⟨j, hj, by grind, by grind, by grind⟩

/-- Writing a buffer that holds the released content to its device. -/
theorem Coherent.writeBack (h : Coherent cfg pool disk store hold) {i : Nat}
    (data : (pool i).data = store (pool i).dev (pool i).blk) :
    Coherent cfg pool
      (put₂ disk (pool i).dev (pool i).blk (pool i).data) store hold := by
  refine { h with kept := fun dev blk => ?_ }
  rcases h.kept dev blk with same | carried
  · left
    grind
  · exact Or.inr carried

/-- A buffer whose block is up to date on its device need not be written. -/
theorem Coherent.setClean (h : Coherent cfg pool disk store hold) {i : Nat}
    (data : (pool i).data = store (pool i).dev (pool i).blk)
    (current : disk (pool i).dev (pool i).blk = store (pool i).dev (pool i).blk) :
    Coherent cfg (put pool i { pool i with dirty := false }) disk store hold := by
  obtain ⟨hu, hv, hc, hk, hb, hs⟩ := h
  refine ⟨by grind, by grind, by grind, fun dev blk => ?_, by grind, by grind⟩
  rcases hk dev blk with same | ⟨j, hj, hd, hb, dirty⟩
  · exact Or.inl same
  · by_cases here : j = i
    · subst here
      exact Or.inl (by rw [← hd, ← hb]; exact current)
    · exact Or.inr ⟨j, hj, by grind, by grind, by grind⟩

theorem Coherent.retime (h : Coherent cfg pool disk store hold) (i : Nat)
    (time : UInt16) :
    Coherent cfg (put pool i { pool i with time := time }) disk store hold := by
  obtain ⟨hu, hv, hc, hk, hb, hs⟩ := h
  exact ⟨by grind, by grind, by grind,
    fun dev blk => (hk dev blk).imp id (·.put (by grind)), by grind, by grind⟩

/-- An evicted buffer takes the name of a block that no buffer carries. -/
theorem Coherent.rename (h : Coherent cfg pool disk store hold) {i dev : Nat} (blk : Nat)
    (clean : (pool i).dirty = false) (valid : cfg.validdev dev = true)
    (real : dev ≠ NO_DEVICE)
    (absent : ∀ j, j < cfg.nbufs → ¬ ((pool j).dev = dev ∧ (pool j).blk = blk)) :
    Coherent cfg (put pool i { pool i with dev := dev, blk := blk, busy := .busy })
      disk store (put hold i (some .fresh)) := by
  obtain ⟨hu, hv, hc, hk, hb, hs⟩ := h
  exact ⟨by grind, by grind, by grind,
    fun dev blk => (hk dev blk).imp id (·.put (by grind)), by grind, by grind⟩

/-- The content read for a clean buffer is the released one, for no other
buffer can carry the block. -/
theorem Coherent.fill (h : Coherent cfg pool disk store hold) {i : Nat}
    (hi : i < cfg.nbufs) (held : hold i = some .fresh)
    (clean : (pool i).dirty = false) :
    Coherent cfg
      (put pool i { pool i with data := disk (pool i).dev (pool i).blk })
      disk store (put hold i (some .read)) := by
  have real := (h.scratch i hi).2
  have current : disk (pool i).dev (pool i).blk = store (pool i).dev (pool i).blk := by
    rcases h.kept (pool i).dev (pool i).blk with same | ⟨j, hj, hd, hb, dirty⟩
    · exact same
    · have := h.unique i j hi hj (by grind) hd hb
      grind
  obtain ⟨hu, hv, hc, hk, hb, hs⟩ := h
  exact ⟨by grind, by grind, by grind,
    fun dev blk => (hk dev blk).imp id (·.put (by grind)), by grind, by grind⟩

theorem Coherent.grab (h : Coherent cfg pool disk store hold) {i : Nat}
    (free : hold i = none) (real : (pool i).dev ≠ NO_DEVICE) (rewrite : Bool) :
    Coherent cfg (put pool i { pool i with busy := .busy }) disk store
      (put hold i (some (if rewrite then .fresh else .read))) := by
  obtain ⟨hu, hv, hc, hk, hb, hs⟩ := h
  exact ⟨by grind, by grind, by grind,
    fun dev blk => (hk dev blk).imp id (·.put (by grind)), by grind, by grind⟩

/-- A clean buffer forgets which block it carries. -/
theorem Coherent.forget (h : Coherent cfg pool disk store hold) {i : Nat}
    (clean : (pool i).dirty = false) (free : hold i = none) :
    Coherent cfg (put pool i { pool i with dev := NO_DEVICE }) disk store hold := by
  obtain ⟨hu, hv, hc, hk, hb, hs⟩ := h
  exact ⟨by grind, by grind, by grind,
    fun dev blk => (hk dev blk).imp id (·.put (by grind)), by grind, by grind⟩

theorem Coherent.borrow (h : Coherent cfg pool disk store hold) {i : Nat}
    (clean : (pool i).dirty = false) :
    Coherent cfg (put pool i { pool i with dev := NO_DEVICE, busy := .busy })
      disk store (put hold i (some .tmp)) := by
  obtain ⟨hu, hv, hc, hk, hb, hs⟩ := h
  exact ⟨by grind, by grind, by grind,
    fun dev blk => (hk dev blk).imp id (·.put (by grind)), by grind, by grind⟩

/-- What a scratch buffer holds is nobody's content. -/
theorem Coherent.scribble (h : Coherent cfg pool disk store hold) {i : Nat}
    (scratch : (pool i).dev = NO_DEVICE) (data : B) :
    Coherent cfg (put pool i { pool i with data := data }) disk store hold := by
  obtain ⟨hu, hv, hc, hk, hb, hs⟩ := h
  exact ⟨by grind, by grind, by grind,
    fun dev blk => (hk dev blk).imp id (·.put (by grind)), by grind, by grind⟩

theorem Coherent.releaseClean (h : Coherent cfg pool disk store hold) {i : Nat}
    (held : hold i ≠ some .fresh) :
    Coherent cfg (put pool i { pool i with busy := .free }) disk store
      (put hold i none) := by
  obtain ⟨hu, hv, hc, hk, hb, hs⟩ := h
  exact ⟨by grind, by grind, by grind,
    fun dev blk => (hk dev blk).imp id (·.put (by grind)), by grind, by grind⟩

theorem Coherent.releaseDirty (h : Coherent cfg pool disk store hold) {i : Nat}
    (hi : i < cfg.nbufs) (real : (pool i).dev ≠ NO_DEVICE) (data : B) :
    Coherent cfg (put pool i { pool i with data := data, dirty := true, busy := .free })
      disk (put₂ store (pool i).dev (pool i).blk data) (put hold i none) := by
  obtain ⟨hu, hv, hc, hk, hb, hs⟩ := h
  refine ⟨by grind, by grind, by grind, fun dev blk => ?_, by grind, by grind⟩
  by_cases here : dev = (pool i).dev ∧ blk = (pool i).blk
  · exact Or.inr ⟨i, hi, by grind, by grind, by grind⟩
  · rw [put₂_ne store data here]
    exact (hk dev blk).imp id (·.put (by grind))

end Pool

/-! ## One operation keeps the invariant -/

section Operations
variable {cfg} {c : Cache B} {store : Store B} {hold : Nat → Option Hold}
  {stop : Panic → Prop}

theorem wp_transfer (valid : cfg.validdev dev = true) (ok : ∀ n, c.fault n = false)
    {Q : Bool → Cache B → Prop} (h : Q true { c with xfers := c.xfers + 1 }) :
    wp stop (transfer cfg dev) Q c := by
  simpa [transfer, valid, ok] using h

theorem valid_of_real (h : Coherent cfg c.pool c.disk store hold) {i : Nat}
    (hi : i < cfg.nbufs) (real : (c.pool i).dev ≠ NO_DEVICE) :
    cfg.validdev (c.pool i).dev = true :=
  (h.valid i hi).resolve_left real

theorem wp_bdwrite (h : Sound cfg c store hold) {i : Nat} (hi : i < cfg.nbufs)
    (real : (c.pool i).dev ≠ NO_DEVICE) {Q : Bool → Cache B → Prop}
    (done : Q true { c with
      xfers := c.xfers + 1
      disk := put₂ c.disk (c.pool i).dev (c.pool i).blk (c.pool i).data }) :
    wp stop (bdwrite cfg i) Q c := by
  simp only [bdwrite, wp_bind, wp_get]
  refine wp_transfer (valid_of_real h.1 hi real) h.2 ?_
  simpa using done

theorem victimStep_mem (l : List Nat) (best : Option Nat × Int) (i : Nat)
    (h : (l.foldl (victimStep cfg c) best).1 = some i) :
    best.1 = some i ∨ (i ∈ l ∧ (c.pool i).busy = .free) := by
  induction l generalizing best with
  | nil => exact Or.inl h
  | cons j l ih =>
    rcases ih _ h with old | later
    · simp only [victimStep] at old
      split at old
      · rename_i chosen
        cases old
        exact Or.inr ⟨List.mem_cons_self, chosen.2⟩
      · exact Or.inl old
    · exact Or.inr ⟨List.mem_cons_of_mem _ later.1, later.2⟩

/-- Whatever its age, the victim is an unlocked buffer of the pool. -/
theorem victim_free {i : Nat} (h : victim cfg c = some i) :
    i < cfg.nbufs ∧ (c.pool i).busy = .free := by
  rcases victimStep_mem _ _ _ h with none | found
  · cases none
  · exact ⟨List.mem_range.mp found.1, found.2⟩

theorem Coherent.unheld (h : Coherent cfg c.pool c.disk store hold) {i : Nat}
    (hi : i < cfg.nbufs) (free : (c.pool i).busy = .free) : hold i = none := by
  cases held : hold i with
  | none => rfl
  | some k =>
    have := h.busy i hi
    simp [held, free] at this

theorem wp_freebuf (h : Sound cfg c store hold) :
    wp (fun _ => True) (freebuf cfg) (fun i t =>
      i < cfg.nbufs ∧ hold i = none ∧ (t.pool i).dirty = false ∧
        Sound cfg t store hold ∧
        ∀ j, (t.pool j).dev = (c.pool j).dev ∧ (t.pool j).blk = (c.pool j).blk) c := by
  simp only [freebuf, wp_bind, wp_get]
  cases hv : victim cfg c with
  | none => simp
  | some i =>
    obtain ⟨hi, free⟩ := victim_free hv
    have unheld := h.1.unheld hi free
    by_cases dirty : (c.pool i).dirty = true
    · have real : (c.pool i).dev ≠ NO_DEVICE := fun scratch => by
        have := ((h.1.scratch i hi).2 scratch).1
        simp [this] at dirty
      have data := h.1.content i hi real (fun _ => dirty)
      simp only [dirty, if_true, wp_bind]
      refine wp_bdwrite h hi real ?_
      have written := h.1.writeBack (i := i) data
      have clean := written.setClean (i := i) data (by simp [data])
      simp only [wp_bind, Bool.not_true, Bool.false_eq_true, if_false, wp_pure, wp_modifyBuf]
      refine ⟨hi, unheld, ?_, ⟨clean, h.2⟩, fun j => ?_⟩
      · simp
      · by_cases here : j = i
        · subst here
          simp
        · simp [here]
    · simp only [dirty, Bool.false_eq_true, if_false, wp_pure]
      exact ⟨hi, unheld, by simp, h, fun j => by simp⟩

theorem Sound.setBuf (h : Coherent cfg (put c.pool i b) c.disk store hold)
    (ok : ∀ n, c.fault n = false) {f : Blkbuf B → Blkbuf B} (same : f (c.pool i) = b) :
    Sound cfg (setBuf i f c) store hold :=
  ⟨by simpa [same] using h, ok⟩

/-- Where the block a caller asked for was found or put. -/
def Holds (cfg : Config) (i dev blk : Nat) (t : Cache B) : Prop :=
  i < cfg.nbufs ∧ (t.pool i).dev = dev ∧ (t.pool i).blk = blk

theorem wp_stamp (dev blk : Nat) (h : Sound cfg c store hold) {i : Nat}
    (holds : Holds cfg i dev blk c) {Q : Unit → Cache B → Prop}
    (done : ∀ t, Sound cfg t store hold → Holds cfg i dev blk t → Q () t) :
    wp stop (stamp i) Q c := by
  obtain ⟨hi, hdev, hblk⟩ := holds
  exact done _ ⟨h.1.retime i _, h.2⟩ ⟨hi, by simpa using hdev, by simpa using hblk⟩

theorem bfind_some {i dev blk : Nat} (h : bfind cfg c dev blk = some i) :
    Holds cfg i dev blk c := by
  have named := List.find?_some h
  have mem := List.mem_of_find?_eq_some h
  simp only [names, decide_eq_true_eq] at named
  exact ⟨List.mem_range.mp mem, named.1, named.2⟩

theorem bfind_none {dev blk : Nat} (h : bfind cfg c dev blk = none) :
    ∀ j, j < cfg.nbufs → ¬ ((c.pool j).dev = dev ∧ (c.pool j).blk = blk) := by
  intro j hj
  have := List.find?_eq_none.mp h j (List.mem_range.mpr hj)
  simpa [names] using this

theorem real_of_valid {dev : Nat} (valid : cfg.validdev dev = true) : dev ≠ NO_DEVICE := by
  rintro rfl
  simp [cfg.noDevice] at valid

theorem wp_bdread (h : Sound cfg c store hold) {i : Nat} (hi : i < cfg.nbufs)
    (real : (c.pool i).dev ≠ NO_DEVICE) {Q : Bool → Cache B → Prop}
    (done : Q true (setBuf i
      (fun b => { b with data := c.disk (c.pool i).dev (c.pool i).blk })
      { c with xfers := c.xfers + 1 })) :
    wp stop (bdread cfg i) Q c := by
  simp only [bdread, wp_bind, wp_get]
  refine wp_transfer (valid_of_real h.1 hi real) h.2 ?_
  simpa using done

theorem wp_bread (h : Sound cfg c store hold) {dev : Nat} (blk : Nat) (rewrite : Bool)
    (valid : cfg.validdev dev = true) :
    wp (fun _ => True) (bread cfg dev blk rewrite) (fun r t =>
      ∃ i, r = some i ∧ Holds cfg i dev blk t ∧
        Sound cfg t store (put hold i (some (if rewrite then .fresh else .read)))) c := by
  have real := real_of_valid valid
  simp only [bread, wp_bind, wp_get]
  cases found : bfind cfg c dev blk with
  | some i =>
    obtain ⟨hi, hdev, hblk⟩ := bfind_some found
    have busy := h.1.busy i hi
    cases held : hold i with
    | some k => simp [held] at busy; simp [busy]
    | none =>
      simp only [held, Option.isSome_none, Bool.false_eq_true, if_false] at busy
      have grabbed := h.1.grab held (by rw [hdev]; exact real) rewrite
      simp only [busy, reduceCtorEq, if_false, if_true, wp_pure, wp_bind, wp_modifyBuf]
      refine wp_stamp dev blk (Sound.setBuf grabbed h.2 rfl)
        ⟨hi, by simp [hdev], by simp [hblk]⟩ fun t sound holds => ?_
      exact ⟨i, rfl, holds, sound⟩
  | none =>
    have absent := bfind_none found
    simp only [wp_bind]
    refine wp_mono (wp_freebuf h) ?_
    rintro i t ⟨hi, unheld, clean, sound, same⟩
    have renamed := sound.1.rename blk clean valid real (fun j hj => by
      rw [(same j).1, (same j).2]
      exact absent j hj)
    have ready : Sound cfg (setBuf i
        (fun b => { b with dev := dev, blk := blk, busy := .busy }) t) store
        (put hold i (some .fresh)) := Sound.setBuf renamed sound.2 rfl
    cases rewrite with
    | true =>
      simp only [wp_modifyBuf, wp_bind, Bool.not_true, Bool.false_eq_true, if_false,
        if_true, wp_pure]
      refine wp_stamp dev blk ready ⟨hi, by simp, by simp⟩
        fun t sound holds => ?_
      exact ⟨i, rfl, holds, sound⟩
    | false =>
      simp only [wp_modifyBuf, wp_bind, Bool.not_false, if_true]
      refine wp_bdread ready hi (by simpa using real) ?_
      have filled := renamed.fill hi (by simp) (by simpa using clean)
      rw [put_put hold] at filled
      simp only [wp_bind, Bool.not_true, Bool.false_eq_true, if_false, wp_pure]
      refine wp_stamp dev blk ⟨by simpa using filled, by simpa using sound.2⟩
        ⟨hi, by simp, by simp⟩ fun t sound holds => ?_
      exact ⟨i, rfl, holds, sound⟩

theorem wp_release (h : Sound cfg c store hold) {i : Nat} (hi : i < cfg.nbufs)
    {k : Hold} (held : hold i = some k) {r : Release B} (may : Permitted k r) :
    wp (fun _ => True) (release cfg i r) (fun _ t =>
      Sound cfg t (r.apply (c.pool i).dev (c.pool i).blk store) (put hold i none)) c := by
  have busy := h.1.busy i hi
  simp only [held, Option.isSome_some, if_true] at busy
  have real : r ≠ .clean → (c.pool i).dev ≠ NO_DEVICE := by
    intro written scratch
    have := (h.1.scratch i hi).2 scratch
    cases k <;> cases r <;> simp_all [Permitted]
  cases r with
  | clean =>
    have released := h.1.releaseClean (i := i)
      (by rw [held]; cases k <;> simp_all [Permitted])
    simp only [release, bfree, wp_bind, wp_modifyBuf, Nat.not_lt_zero, if_false, wp_pure]
    exact Sound.setBuf released h.2 (by simp [busy])
  | dirty data =>
    have released := h.1.releaseDirty hi (real (by simp)) data
    simp only [release, bfree, wp_bind, wp_modifyBuf, Nat.lt_irrefl, if_false, wp_pure,
      setBuf_setBuf]
    exact Sound.setBuf released h.2 (by simp [busy])
  | through data =>
    have released := h.1.releaseDirty hi (real (by simp)) data
    have written := released.writeBack (i := i) (by simp)
    have clean := written.setClean (i := i) (by simp) (by simp)
    simp only [release, bfree, wp_bind, wp_modifyBuf, setBuf_setBuf, Nat.lt_add_one, if_true]
    refine wp_bdwrite (Sound.setBuf released h.2 (by simp [busy])) hi
      (by simpa using real) ?_
    simp only [Bool.not_true, Bool.false_eq_true, if_false, wp_bind, wp_pure, wp_modifyBuf]
    exact ⟨by simpa [busy, Release.apply] using clean, by simpa using h.2⟩

theorem wp_tmpbuf (h : Sound cfg c store hold) :
    wp (fun _ => True) (tmpbuf cfg) (fun i t => i < cfg.nbufs ∧
      (t.pool i).dev = NO_DEVICE ∧ Sound cfg t store (put hold i (some .tmp))) c := by
  simp only [tmpbuf, wp_bind]
  refine wp_mono (wp_freebuf h) ?_
  rintro i t ⟨hi, unheld, clean, sound, same⟩
  have borrowed := sound.1.borrow clean
  simp only [wp_modifyBuf, wp_pure]
  refine wp_stamp NO_DEVICE (t.pool i).blk
    (Sound.setBuf borrowed sound.2 rfl) ⟨hi, by simp, by simp⟩ fun t sound holds => ?_
  exact ⟨hi, holds.2.1, sound⟩

theorem wp_zerobuf (h : Sound cfg c store hold) (zero : B) :
    wp (fun _ => True) (zerobuf cfg zero) (fun i t =>
      Sound cfg t store (put hold i (some .tmp))) c := by
  simp only [zerobuf, wp_bind]
  refine wp_mono (wp_tmpbuf h) ?_
  rintro i t ⟨_, scratch, sound⟩
  exact Sound.setBuf (sound.1.scribble scratch zero) sound.2 rfl

/-- Writing back a buffer that holds the released content. -/
theorem wp_bdput (h : Sound cfg c store hold) {i : Nat} (hi : i < cfg.nbufs)
    (real : (c.pool i).dev ≠ NO_DEVICE)
    (settled : hold i = some .fresh → (c.pool i).dirty = true) :
    wp stop (bdput cfg i) (fun _ t => Sound cfg t store hold ∧
      (hold i = none → (t.pool i).dirty = false) ∧
      (t.pool i).dev = (c.pool i).dev ∧ (t.pool i).blk = (c.pool i).blk ∧
      (∀ j, j ≠ i → t.pool j = c.pool j) ∧
      t.disk = put₂ c.disk (c.pool i).dev (c.pool i).blk
        (store (c.pool i).dev (c.pool i).blk)) c := by
  have data := h.1.content i hi real settled
  have busy := h.1.busy i hi
  have written := h.1.writeBack (i := i) data
  have clean := written.setClean (i := i) data (by simp [data])
  simp only [bdput, wp_bind]
  refine wp_bdwrite h hi real ?_
  simp only [wp_modifyBuf]
  refine ⟨⟨?_, h.2⟩, ?_, by simp, by simp, fun j other => by simp [other], by simp [data]⟩
  · by_cases free : (c.pool i).busy = .free
    · simpa [free] using clean
    · simpa [free] using written
  · intro unheld
    simp only [unheld, Option.isSome_none, Bool.false_eq_true, if_false] at busy
    simp [busy]

/-- A block that is stale on its device is carried by a buffer still to come. -/
def Pending (pool : Nat → Blkbuf B) (disk store : Store B) (l : List Nat) : Prop :=
  ∀ dev blk, disk dev blk = store dev blk ∨
    ∃ i ∈ l, (pool i).dev = dev ∧ (pool i).blk = blk ∧ (pool i).dirty = true

theorem wp_bufsyncFrom (l : List Nat) (h : Sound cfg c store hold)
    (inPool : ∀ i ∈ l, i < cfg.nbufs) (pending : Pending c.pool c.disk store l) :
    wp (fun _ => False) (bufsyncFrom cfg l) (fun _ t => Sound cfg t store hold ∧
      ∀ dev blk, t.disk dev blk = store dev blk) c := by
  induction l generalizing c with
  | nil => exact ⟨h, fun dev blk => (pending dev blk).resolve_right (by simp)⟩
  | cons i l ih =>
    have hi := inPool i List.mem_cons_self
    have rest : ∀ j ∈ l, j < cfg.nbufs := fun j hj => inPool j (List.mem_cons_of_mem _ hj)
    simp only [bufsyncFrom, wp_bind, wp_get]
    by_cases due : (c.pool i).dev ≠ NO_DEVICE ∧ (c.pool i).dirty = true
    · simp only [due, ne_eq, not_false_eq_true, and_self, if_true, wp_bind]
      refine wp_mono (wp_bdput h hi due.1 (fun _ => due.2)) ?_
      rintro - t ⟨sound, -, hdev, hblk, same, disk⟩
      refine ih sound rest (fun dev blk => ?_)
      by_cases here : dev = (c.pool i).dev ∧ blk = (c.pool i).blk
      · left
        simp [disk, here]
      · rw [disk, put₂_ne _ _ here]
        refine (pending dev blk).imp id ?_
        rintro ⟨j, hj, hd, hb, dirty⟩
        have other : j ≠ i := fun e => here (by rw [← e]; exact ⟨hd.symm, hb.symm⟩)
        have later := (List.mem_cons.mp hj).resolve_left other
        exact ⟨j, later, by rw [same j other]; exact ⟨hd, hb, dirty⟩⟩
    · simp only [due, if_false]
      refine ih h rest (fun dev blk => (pending dev blk).imp id ?_)
      rintro ⟨j, hj, hd, hb, dirty⟩
      have other : j ≠ i := by
        rintro rfl
        have := h.1.scratch j hi
        grind
      exact ⟨j, (List.mem_cons.mp hj).resolve_left other, hd, hb, dirty⟩

/-- `bufsync` always returns, and the devices then hold every released content. -/
theorem wp_bufsync (h : Sound cfg c store hold) :
    wp (fun _ => False) (bufsync cfg) (fun _ t => Sound cfg t store hold ∧
      ∀ dev blk, t.disk dev blk = store dev blk) c := by
  refine wp_bufsyncFrom _ h (fun i hi => List.mem_range.mp hi) (fun dev blk => ?_)
  refine (h.1.kept dev blk).imp id ?_
  rintro ⟨i, hi, carried⟩
  exact ⟨i, List.mem_range.mpr hi, carried⟩

theorem wp_bdropFrom (dev : Nat) (l : List Nat) (valid : cfg.validdev dev = true)
    (h : Sound cfg c store hold) (inPool : ∀ i ∈ l, i < cfg.nbufs)
    (unheld : ∀ i, i < cfg.nbufs → (c.pool i).dev = dev → hold i = none) :
    wp (fun _ => False) (bdropFrom cfg dev l) (fun _ t => Sound cfg t store hold) c := by
  have real := real_of_valid valid
  induction l generalizing c with
  | nil => exact h
  | cons i l ih =>
    have hi := inPool i List.mem_cons_self
    have rest : ∀ j ∈ l, j < cfg.nbufs := fun j hj => inPool j (List.mem_cons_of_mem _ hj)
    simp only [bdropFrom, wp_bind, wp_get]
    by_cases named : (c.pool i).dev = dev
    · have free := unheld i hi named
      simp only [named, if_true, wp_bind]
      refine wp_mono (wp_bdput h hi (by rw [named]; exact real) (by simp [free])) ?_
      rintro - t ⟨sound, clean, hdev, -, same, -⟩
      simp only [wp_modifyBuf]
      refine ih (Sound.setBuf (sound.1.forget (clean free) free) sound.2 rfl) rest ?_
      intro j hj gone
      by_cases here : j = i
      · exact here ▸ free
      · exact unheld j hj (by simpa [here, same j here] using gone)
    · simp only [named, if_false]
      exact ih h rest unheld

theorem wp_bdrop (h : Sound cfg c store hold) {dev : Nat} (valid : cfg.validdev dev = true)
    (unheld : ∀ i, i < cfg.nbufs → (c.pool i).dev = dev → hold i = none) :
    wp (fun _ => False) (bdrop cfg dev) (fun _ t => Sound cfg t store hold) c :=
  wp_bdropFrom dev _ valid h (fun _ hi => List.mem_range.mp hi) unheld

theorem wp_bufdiscard (h : Sound cfg c store hold) (i : Nat) :
    wp (fun _ => False) (bufdiscard i) (fun _ t => Sound cfg t store hold) c := by
  simp only [bufdiscard, wp_modify]
  split
  · exact h
  · exact Sound.setBuf (h.1.retime i _) h.2 rfl

end Operations

/-! ## Whole runs -/

section Runs
variable {cfg} {w v : World B}

def World.Sound (cfg : Config) (w : World B) : Prop := Devio.Sound cfg w.cache w.store w.hold

theorem Boot.sound (boot : Boot cfg w) (ok : ∀ n, w.cache.fault n = false) :
    w.Sound cfg := by
  obtain ⟨empty, clean, free, unheld, store⟩ := boot
  refine ⟨⟨?_, ?_, ?_, ?_, ?_, ?_⟩, ok⟩
  · intro i j hi _ real
    exact absurd (empty i hi) real
  · exact fun i hi => Or.inl (empty i hi)
  · exact fun i hi real => absurd (empty i hi) real
  · exact fun dev blk => Or.inl (by rw [store])
  · exact fun i hi => by simp [free i hi, unheld]
  · exact fun i hi => by simp [clean i hi, unheld]

theorem Step.sound (step : Step cfg w v) (h : w.Sound cfg) :
    v.Sound cfg := by
  cases step with
  | bread dev blk rewrite i c valid run =>
    obtain ⟨j, found, -, sound⟩ := wp_ok (wp_bread h blk rewrite valid) run
    cases found
    exact sound
  | breadFails dev blk rewrite c valid run =>
    obtain ⟨j, found, -⟩ := wp_ok (wp_bread h blk rewrite valid) run
    cases found
  | bfree i k r e c hi held may run =>
    have sound := wp_ok (wp_release h hi held may) run
    exact sound
  | bdrop dev c valid unheld run =>
    have sound := wp_ok (wp_bdrop h valid unheld) run
    exact sound
  | bufsync c run =>
    have sound := wp_ok (wp_bufsync h) run
    exact sound.1
  | bufdiscard i c hi run =>
    have sound := wp_ok (wp_bufdiscard h i) run
    exact sound
  | tmpbuf i c run =>
    have sound := wp_ok (wp_tmpbuf h) run
    exact sound.2.2
  | zerobuf zero i c run =>
    have sound := wp_ok (wp_zerobuf h zero) run
    exact sound

theorem Reachable.sound (run : Reachable cfg w v) (h : w.Sound cfg) :
    v.Sound cfg := by
  induction run with
  | refl => exact h
  | step _ last ih => exact last.sound ih

/-- What the users of the cache may rely on. -/
structure CacheContract (cfg : Config) (w : World B) : Prop where
  /-- At most one buffer carries a block. -/
  unique : ∀ i j, i < cfg.nbufs → j < cfg.nbufs → (w.cache.pool i).dev ≠ NO_DEVICE →
    (w.cache.pool j).dev = (w.cache.pool i).dev →
    (w.cache.pool j).blk = (w.cache.pool i).blk → i = j
  /-- A read that returns hands out the content last released. -/
  read : ∀ dev blk r c, cfg.validdev dev = true →
    bread cfg dev blk false w.cache = .ok (r, c) →
    ∃ i, r = some i ∧ i < cfg.nbufs ∧ (c.pool i).dev = dev ∧ (c.pool i).blk = blk ∧
      (c.pool i).data = w.store dev blk
  /-- Stale content on a device is carried by a dirty buffer. -/
  kept : ∀ dev blk, w.cache.disk dev blk = w.store dev blk ∨
    Carried cfg w.cache.pool dev blk
  /-- `bufsync` returns, with every released content on its device. -/
  synced : ∃ c, bufsync cfg w.cache = .ok ((), c) ∧
    ∀ dev blk, c.disk dev blk = w.store dev blk

theorem cache_coherent (boot : Boot cfg w) (ok : ∀ n, w.cache.fault n = false)
    (run : Reachable cfg w v) : CacheContract cfg v := by
  have sound := run.sound (boot.sound ok)
  refine ⟨sound.1.unique, ?_, sound.1.kept, ?_⟩
  · intro dev blk r c valid returned
    obtain ⟨i, found, ⟨hi, hdev, hblk⟩, after⟩ :=
      wp_ok (wp_bread sound blk false valid) returned
    have real : (c.pool i).dev ≠ NO_DEVICE := by rw [hdev]; exact real_of_valid valid
    have data := after.1.content i hi real (by simp)
    exact ⟨i, found, hi, hdev, hblk, by rw [data, hdev, hblk]⟩
  · obtain ⟨⟨⟩, c, returned, -, synced⟩ := wp_returns (wp_bufsync sound)
    exact ⟨c, returned, synced⟩

end Runs

/-- Two buffers, drives 0 and 1. -/
def smallConfig : Config :=
  ⟨2, .int16, fun dev => decide (dev < 2), by decide⟩

def smallBoot : World Nat where
  cache :=
    { pool := fun _ => ⟨0, NO_DEVICE, 0, false, .free, 0⟩
      bufclock := 0
      disk := fun _ _ => 0
      uError := 0
      fault := fun _ => false
      xfers := 0 }
  store := fun _ _ => 0
  hold := fun _ => none

theorem smallBoot_boot : Boot smallConfig smallBoot :=
  ⟨fun _ _ => rfl, fun _ _ => rfl, fun _ _ => rfl, fun _ => rfl, rfl⟩

/-- Block 3 of drive 1 is read and released with new content. -/
theorem cache_coherent_after_write :
    ∃ v, Reachable smallConfig smallBoot v ∧ v.store 1 3 = 7 ∧
      v.cache.disk 1 3 = 0 ∧ CacheContract smallConfig v := by
  have read : Step smallConfig smallBoot _ := .bread 1 3 false 1 _ (by decide) rfl
  have run := Reachable.step (.step .refl read)
    (.bfree 1 .read (.dirty 7) 0 _ (by decide) rfl trivial rfl)
  exact ⟨_, run, rfl, rfl, cache_coherent smallBoot_boot (fun _ => rfl) run⟩

end Devio
