import Fuzix.FlockCalls
import Fuzix.Lib.Run

/-!
# The lock field over runs

`fair` says of one round of `_flock` that the caller gets the lock it asked for, or
nothing. `Action.calm` says that of a whole call, and of the failures of open that no
flag of an earlier user of the entry is taken for a lock. In a run of calm steps the
field of every inode counts the holders, and a lock is let go by its own caller or by
the last close only.
-/

set_option linter.unusedSectionVars false

namespace Flock

open Table Holding Run
open Fuzix (Build Access ITABSIZE OFTSIZE UFTSIZE PTABSIZE NO_FILE EINVAL EBADF EAGAIN EINTR EEXIST)

section Runs
variable [Cpu] {s t : State} {i o p : Nat}

/-! ## When a call does what it is asked -/

/-- One round of the loop gives the caller what it asked for, or fails or sleeps. -/
def fair (s : State) (o c lockop lock self : Nat) : Prop :=
  CFMAX ≤ c ∧ ¬ (c = self ∧ lock = LOCK_EX) ∨
  (s.oftab o).access.flock = false ∧ granted lockop = some .shared ∧
    ¬ (c = self ∧ lock = LOCK_EX) ∨
  (s.oftab o).access.flock = false ∧ granted lockop = some .exclusive ∧ c = 0 ∧ self = 0 ∧
    lock = LOCK_EX ∨
  (s.oftab o).access.flock = true ∧ granted lockop = some .exclusive ∧ c = 1 ∧ self = 1 ∧
    lock = LOCK_EX

instance (s : State) (o c lockop lock self : Nat) : Decidable (fair s o c lockop lock self) := by
  unfold fair; infer_instance

/-- A call of `_flock` on entry `o` of inode `i`. -/
def flockCalm (s : State) (i o lockop : Nat) : Prop :=
  (s.oftab o).access.flock = true ∧ (lockOf lockop = LOCK_SH ∨
    (s.itab i).flock = CFLEX ∧ lockOf lockop = LOCK_EX) ∨
  ¬ ((s.oftab o).access.flock = true ∧ lockOf lockop = LOCK_UN) ∧ (lockop = LOCK_UN ∨
    fair s o (s.itab i).flock lockop (lockOf lockop)
      (if (s.oftab o).access.flock then 1 else 0))

instance (s : State) (i o lockop : Nat) : Decidable (flockCalm s i o lockop) := by
  unfold flockCalm; infer_instance

def Look.lacks : Look → Prop
  | .inode _ => False
  | _ => True

instance : (look : Look) → Decidable look.lacks
  | .inode _ => isFalse id
  | .bad => isTrue trivial
  | .broken => isTrue trivial

/-- The entry was not left with a lock by its last user. -/
def clear (s : State) (k : Nat) : Prop := (s.oftab k).access.flock = false

def Check.calm (s : State) (k : Nat) : Check → Prop
  | .refused _ => clear s k
  | .tty ctty => (s.itab ctty).refs < 255
  | _ => True

def Walk.calm (s : State) (flag k : Nat) : Walk → Prop
  | .missing _ => True
  | .found i fresh _ made check => (fresh = false → (s.itab i).refs < 255) ∧
      (exclusiveFlag flag ∧ made = false ∨ check.calm s k)

def bookingCalm (s : State) (flag : Nat) (walk : Walk) : Except Nat (Nat × Nat) → Prop
  | .error _ => True
  | .ok (_, k) => walk.calm s flag k

/-- `i` is the inode of entry `k`. -/
def Opened.calm (s : State) (k : Nat) : Opened → Prop
  | .failed _ => clear s k
  | .truncFailed _ => clear s k ∧ ∀ i, i < ITABSIZE → (s.oftab k).inode = some i →
      entries s i < (s.itab i).refs
  | .done => True

def openCalm (s : State) (out : Opened) : Call → Prop
  | .opening _ k _ => out.calm s k
  | _ => True

def wakeCalm (s : State) (signal : Bool) : Call → Prop
  | .flock i o lockop lock self => signal = true ∨
      fair s o (s.itab i).flock lockop (locals s lock self).1 (locals s lock self).2
  | _ => True

def lookCalm (s : State) (o file lockop : Nat) : Look → Prop
  | .inode i => LOCK_UN < lockOf lockop ∨ file < 256 ∧ flockCalm s i o lockop
  | _ => True

/-- The call does not get at the defects of the lock count. The other users of inodes
give back no reference but their own. -/
def Action.calm (s : State) : Action → Prop
  | .open p flag walk => bookingCalm s flag walk (booking s p flag)
  | .opened p out => openCalm s out (s.ptab p).call
  | .flock p file lockop =>
    lookCalm s ((s.ptab p).files file) file lockop (getinode s p (file % 256))
  | .woken p signal => wakeCalm s signal (s.ptab p).call
  | .dup p oldd => (getinode s p (oldd % 256)).lacks ∨ oldd < 256
  | .dup2 p oldd newd => (getinode s p (oldd % 256)).lacks ∨ oldd < 256 ∧ oldd ≠ newd
  | .take i fresh _ => fresh = false → (s.itab i).refs < 255
  | .drop i => entries s i < (s.itab i).refs
  | _ => True

def Action.calmStep (s : State) (a : Action) (t : State) : Prop := a.calm s ∧ a.step s t

/-! ## Locks are granted -/

/-- The field is stored, the entry is marked and the caller is told. -/
def grantedTo (s : State) (i o lockop : Nat) (d : Cinode) : State := { s with
  itab := put s.itab i d
  oftab := put s.oftab o ⟨(s.oftab o).refs, (s.oftab o).inode,
    { (s.oftab o).access with flock := true }⟩
  told := put s.told o (granted lockop) }

theorem done_eq (named : (s.oftab o).inode = some i) (c lockop : Nat) :
    ∃ d : Cinode, d.refs = (s.itab i).refs ∧ d.flock = c ∧
      done s p i o c lockop = reply (grantedTo s i o lockop d) p 0 := by
  unfold done answer
  by_cases flag : (s.oftab o).access.flock = true
  · refine ⟨{ (s.itab i).lower with flock := c }, lower_refs _, rfl, ?_⟩
    rw [if_pos flag, deflock_held named flag]
    unfold modifyInode modifyOft setTold grantedTo
    dsimp only
    rw [put_put, put_same]
  · refine ⟨{ s.itab i with flock := c }, rfl, rfl, ?_⟩
    rw [if_neg flag]
    rfl

/-- `Others s t o`: the locks of the other entries stay as they are. -/
def Others (s t : State) (o : Nat) : Prop := ∀ k, k ≠ o → t.told k = s.told k

theorem Kept.granted (h : Kept s none) (ho : o < OFTSIZE) (used : names s o ≠ 0)
    (named : (s.oftab o).inode = some i) {lockop : Nat} {d : Cinode}
    (some' : granted lockop ≠ none) (refs : d.refs = (s.itab i).refs)
    (locks : Encodes CFMAX CFLEX OFTSIZE (put (holding s i) o (granted lockop)) d.flock) :
    Kept (grantedTo s i o lockop d) none := by
  have entry : (grantedTo s i o lockop d).oftab o = ⟨(s.oftab o).refs, (s.oftab o).inode,
      { (s.oftab o).access with flock := true }⟩ := put_same _ _ _
  have rest : ∀ k, k ≠ o → (grantedTo s i o lockop d).oftab k = s.oftab k :=
    fun k away => put_ne _ _ away
  have told : (grantedTo s i o lockop d).told o = Flock.granted lockop := put_same _ _ _
  have inode : (grantedTo s i o lockop d).itab i = d := put_same _ _ _
  obtain ⟨count, file⟩ := h.count o ho (by rw [owed_none]; exact used)
  refine h.rebuild ho named h.calm rfl (fun k away => ⟨rest k away, put_ne _ _ away, rfl⟩)
    (fun k away => put_ne _ _ away) (by rw [owed_none]; exact used) ?_ ?_ (Or.inl ?_)
    (fun _ => ⟨?_, ?_⟩) (fun no => (used (by rw [owed_none] at no; exact no)).elim)
  · rw [inode]
    refine locks.congr fun k _ => ?_
    unfold holding
    by_cases me : k = o
    · rw [me, entry, put_same, told]
      exact if_pos named
    · rw [rest k me, put_ne _ _ me]
      show (if _ then put s.told o _ k else none) = _
      rw [put_ne _ _ me]
  · rw [inode, entry, refs]
    have bounds := h.refs i (h.range o ho i named)
    have same : Oft.uses ⟨(s.oftab o).refs, (s.oftab o).inode,
      { (s.oftab o).access with flock := true }⟩ i = (s.oftab o).uses i := rfl
    rw [same]
    exact ⟨Nat.add_le_add_right bounds.1 _, bounds.2⟩
  · rw [entry]
    exact named
  · rw [entry]
    exact count
  · unfold openFile
    rw [entry, told]
    refine ⟨file.1, ?_⟩
    show true = _
    exact (Option.isSome_iff_ne_none.mpr some').symm

theorem grantedTo_others (s : State) (i o lockop : Nat) (d : Cinode) :
    Others s (grantedTo s i o lockop d) o := fun _ away => put_ne _ _ away

/-- An entry that is open, and what it holds. -/
structure Open (s : State) (o i : Nat) : Prop where
  entry : o < OFTSIZE
  used : names s o ≠ 0
  inode : (s.oftab o).inode = some i

theorem Kept.flag (h : Kept s none) (q : Open s o i) :
    (s.oftab o).access.flock = (s.told o).isSome ∧ i < ITABSIZE ∧ holding s i o = s.told o := by
  obtain ⟨_, _, flag⟩ := h.count o q.entry (by rw [owed_none]; exact q.used)
  exact ⟨flag, h.range o q.entry i q.inode, if_pos q.inode⟩

theorem Kept.unlocked (h : Kept s none) (q : Open s o i) (clear : (s.oftab o).access.flock = false) :
    s.told o = none := by
  have flag := (h.flag q).1
  rw [clear] at flag
  exact Option.isNone_iff_eq_none.mp (by simpa using flag)

theorem Kept.locked (h : Kept s none) (q : Open s o i) (held : (s.oftab o).access.flock = true) :
    holding s i o ≠ none := by
  obtain ⟨flag, _, mine⟩ := h.flag q
  rw [held] at flag
  rw [mine]
  exact Option.isSome_iff_ne_none.mp flag.symm

/-- A shared lock for an entry without one. -/
theorem Kept.share_new (h : Kept s none) (q : Open s o i)
    (clear : (s.oftab o).access.flock = false) (room : (s.itab i).flock < CFMAX) :
    Encodes CFMAX CFLEX OFTSIZE (put (holding s i) o (some .shared)) ((s.itab i).flock + 1) := by
  obtain ⟨_, hi, mine⟩ := h.flag q
  exact (h.locks i hi).share q.entry (mine.trans (h.unlocked q clear)) room gap

/-- A shared lock for an entry that has one or the exclusive lock. -/
theorem Kept.share_again (h : Kept s none) (q : Open s o i)
    (held : (s.oftab o).access.flock = true) :
    Encodes CFMAX CFLEX OFTSIZE (put (holding s i) o (some .shared))
      (if (s.itab i).flock = CFLEX then 1 else (s.itab i).flock) := by
  obtain ⟨_, hi, _⟩ := h.flag q
  have locks := h.locks i hi
  have some' := h.locked q held
  have released := locks.release q.entry some' gap
  have positive := locks.pos gap q.entry some'
  have most : (s.itab i).flock = CFLEX ∨ (s.itab i).flock ≤ CFMAX := by
    rcases locks with ⟨bound, _⟩ | ⟨marked, _⟩
    · exact Or.inr bound
    · exact Or.inl marked
  have marks : CFMAX = 14 ∧ CFLEX = 15 := ⟨rfl, rfl⟩
  have again := released.share (k := o) q.entry (put_same _ _ _) (by unfold lowered; split <;> omega)
    gap
  rw [put_put] at again
  unfold lowered at again
  split
  · rename_i marked
    rw [if_pos marked] at again
    exact again
  · rename_i shared
    rw [if_neg shared, Nat.sub_add_cancel positive] at again
    exact again

theorem Kept.seize_new (h : Kept s none) (q : Open s o i) (zero : (s.itab i).flock = 0) :
    Encodes CFMAX CFLEX OFTSIZE (put (holding s i) o (some .exclusive)) CFLEX := by
  obtain ⟨_, hi, _⟩ := h.flag q
  have locks := h.locks i hi
  rw [zero] at locks
  exact locks.seize q.entry gap

/-- The only sharer takes the lock for itself. -/
theorem Kept.seize_again (h : Kept s none) (q : Open s o i)
    (held : (s.oftab o).access.flock = true) (one : (s.itab i).flock = 1) :
    Encodes CFMAX CFLEX OFTSIZE (put (holding s i) o (some .exclusive)) CFLEX := by
  obtain ⟨_, hi, _⟩ := h.flag q
  have locks := h.locks i hi
  have released := locks.release q.entry (h.locked q held) gap
  rw [one] at released
  have seized := Encodes.seize (k := o) (show Encodes CFMAX CFLEX OFTSIZE _ 0 from released)
    q.entry gap
  rw [put_put] at seized
  exact seized

theorem Kept.done (h : Kept s none) (q : Open s o i) {c lockop : Nat}
    (some' : Flock.granted lockop ≠ none)
    (locks : Encodes CFMAX CFLEX OFTSIZE (put (holding s i) o (Flock.granted lockop)) c) :
    Kept (done s p i o c lockop) none ∧ Others s (done s p i o c lockop) o := by
  obtain ⟨d, refs, field, run⟩ := done_eq (p := p) q.inode c lockop
  rw [run]
  rw [← field] at locks
  exact ⟨(h.granted q.entry q.used q.inode some' refs locks).reply p 0,
    grantedTo_others s i o lockop d⟩

theorem Kept.sleep (h : Kept s none) (q : Open s o i) (hi : i < ITABSIZE)
    (mine : ∃ fd, fd < UFTSIZE ∧ (s.ptab p).files fd = o) (lockop lock self : Nat) :
    Kept (setCall s p (.flock i o lockop lock self)) none := by
  refine h.proc rfl rfl (Or.inr ⟨?_, mine, q.entry, hi, q.inode⟩)
  intro u k g no
  cases no

/-- One round of the loop. -/
theorem Kept.attempt (h : Kept s none) (q : Open s o i)
    (mine : ∃ fd, fd < UFTSIZE ∧ (s.ptab p).files fd = o) {lockop lock self : Nat}
    (ok : fair s o (s.itab i).flock lockop lock self) :
    Kept (attempt s p i o (s.itab i).flock lockop lock self) none ∧
      Others s (attempt s p i o (s.itab i).flock lockop lock self) o := by
  obtain ⟨_, hi, _⟩ := h.flag q
  have same : Others s s o := fun _ _ => rfl
  unfold Flock.attempt
  rcases ok with ⟨full, other⟩ | ⟨clear, asked, other⟩ | ⟨clear, asked, zero, none, seize⟩ |
    ⟨held, asked, one, me, seize⟩
  · rw [if_neg other, if_neg (by omega)]
    split
    · exact ⟨h.fail p _, same⟩
    split
    · exact ⟨h.fail p _, same⟩
    · exact ⟨h.sleep q hi mine _ _ _, same⟩
  · rw [if_neg other]
    split
    · rename_i room
      apply h.done q
      · rw [asked]
        intro no
        cases no
      · rw [asked]
        exact h.share_new q clear room
    split
    · exact ⟨h.fail p _, same⟩
    split
    · exact ⟨h.fail p _, same⟩
    · exact ⟨h.sleep q hi mine _ _ _, same⟩
  · rw [if_pos ⟨by omega, seize⟩]
    apply h.done q
    · rw [asked]
      intro no
      cases no
    · rw [asked]
      exact h.seize_new q zero
  · rw [if_pos ⟨by omega, seize⟩]
    apply h.done q
    · rw [asked]
      intro no
      cases no
    · rw [asked]
      exact h.seize_again q held one

theorem setTold_same {v : Option Kind} (there : s.told o = v) : setTold s o v = s := by
  unfold setTold
  rw [← there, put_self]

/-- An unlock of an entry that has no lock. -/
theorem unlock_clear (q : Open s o i) (clear : (s.oftab o).access.flock = false)
    (unlocked : s.told o = none) :
    unlock s p o LOCK_UN = reply s p 0 := by
  have entry : ({ s.oftab o with access := { (s.oftab o).access with flock := false } } : Oft) =
      s.oftab o := by
    rw [← clear]
  have untouched : modifyOft s o
      (fun e => { e with access := { e.access with flock := false } }) = s := by
    unfold modifyOft
    dsimp only
    rw [entry, put_self]
  unfold unlock answer
  rw [untouched]
  dsimp only
  rw [deflock_free q.inode clear]
  exact congrArg (reply · p 0) (setTold_same unlocked)

theorem granted_shared {lockop : Nat} (asked : lockOf lockop = LOCK_SH) :
    granted lockop = some .shared := if_pos asked

theorem granted_exclusive {lockop : Nat} (asked : lockOf lockop = LOCK_EX) :
    granted lockop = some .exclusive := by
  unfold granted
  rw [if_neg (by rw [asked]; decide), if_pos asked]

/-- What a call of `_flock` on entry `o` may come to. -/
theorem Kept.contend (h : Kept s none) (q : Open s o i)
    (mine : ∃ fd, fd < UFTSIZE ∧ (s.ptab p).files fd = o) {lockop lock self : Nat}
    (ok : (lockop = LOCK_UN → (s.oftab o).access.flock = false) ∧
      (lockop = LOCK_UN ∨ fair s o (s.itab i).flock lockop lock self)) :
    Kept (contend s p i o (s.itab i).flock lockop lock self) none ∧
      Others s (contend s p i o (s.itab i).flock lockop lock self) o := by
  unfold Flock.contend
  by_cases un : lockop = LOCK_UN
  · have clear := ok.1 un
    rw [if_pos un, un, unlock_clear q clear (h.unlocked q clear)]
    exact ⟨h.reply p 0, fun _ _ => rfl⟩
  · rw [if_neg un]
    exact h.attempt q mine (ok.2.resolve_left un)

theorem Open.statics (q : Open s o i) (lock self : Nat) :
    Open { s with lock := lock, self := self } o i := ⟨q.entry, q.used, q.inode⟩

theorem Kept.flock (h : Kept s none) (hp : p < PTABSIZE) (live : (s.ptab p).live = true)
    {file lockop : Nat}
    (ok : lookCalm s ((s.ptab p).files file) file lockop (Flock.getinode s p (file % 256))) :
    Kept (flock s p file lockop) none ∧
      Others s (Flock.flock s p file lockop) ((s.ptab p).files file) := by
  unfold Flock.flock
  dsimp only
  have start := h.statics (lockOf lockop) 0
  by_cases large : LOCK_UN < lockOf lockop
  · rw [if_pos large]
    exact ⟨start.fail p _, fun _ _ => rfl⟩
  rw [if_neg large]
  have look : Flock.getinode { s with lock := lockOf lockop, self := 0 } p (file % 256) =
      Flock.getinode s p (file % 256) := rfl
  rw [look]
  cases found : Flock.getinode s p (file % 256) with
  | bad => exact ⟨start.fail p _, fun _ _ => rfl⟩
  | broken => exact (h.getinode hp live _ found).elim
  | inode i =>
    rw [found] at ok
    obtain ⟨small, calm⟩ := ok.resolve_left large
    rw [Nat.mod_eq_of_lt small] at found
    obtain ⟨hfd, inside, hi, inode⟩ := getinode_inode found
    generalize here : (s.ptab p).files file = o at inside inode calm
    have mine : ∃ fd, fd < UFTSIZE ∧ (s.ptab p).files fd = o := ⟨file, hfd, here⟩
    have q : Open s o i := ⟨inside, by have le := one_le_names hp live hfd; rw [here] at le; omega, inode⟩
    have again := h.statics (lockOf lockop) 1
    dsimp only
    by_cases held : (s.oftab o).access.flock = true
    · rw [if_pos held]
      by_cases share : lockOf lockop = LOCK_SH
      · rw [if_pos share]
        apply again.done (q.statics _ _)
        · rw [granted_shared share]
          intro no
          cases no
        · rw [granted_shared share]
          exact h.share_again q held
      · rw [if_neg share]
        by_cases noop : (s.itab i).flock = CFLEX ∧ lockOf lockop = LOCK_EX
        · rw [if_pos noop]
          have exclusive : s.told o = some .exclusive := by
            obtain ⟨_, _, same⟩ := h.flag q
            rw [← same]
            exact ((h.locks i hi).mark_iff gap q.entry (h.locked q held)).mp noop.1
          unfold answer
          rw [granted_exclusive noop.2,
            setTold_same (s := { s with lock := lockOf lockop, self := 1 }) exclusive]
          exact ⟨again.reply p 0, fun _ _ => rfl⟩
        · rw [if_neg noop]
          rcases calm with ⟨_, no⟩ | ⟨notUn, fair'⟩
          · rcases no with no | no
            · exact (share no).elim
            · exact (noop no).elim
          · rw [if_pos held] at fair'
            refine again.contend (q.statics _ _) mine ⟨fun un => ?_, fair'⟩
            exact (notUn ⟨held, by rw [un]; rfl⟩).elim
    · have clear : (s.oftab o).access.flock = false := by simpa using held
      rw [if_neg held]
      rcases calm with ⟨no, _⟩ | ⟨_, fair'⟩
      · exact (held no).elim
      · rw [if_neg held] at fair'
        exact start.contend (q.statics _ _) mine ⟨fun _ => clear, fair'⟩

/-- The call that sleeps in `_flock`. -/
def Call.locking : Call → Option Nat
  | .flock _ o _ _ _ => some o
  | _ => none

theorem Kept.woken (h : Kept s none) (hp : p < PTABSIZE) (live : (s.ptab p).live = true)
    {signal : Bool} (ok : wakeCalm s signal (s.ptab p).call) :
    Kept (woken s p signal) none ∧
      ∀ k, (s.ptab p).call.locking ≠ some k → (Flock.woken s p signal).told k = s.told k := by
  unfold Flock.woken
  have waits := h.waits p hp live
  cases call : (s.ptab p).call with
  | user => exact ⟨h, fun _ _ => rfl⟩
  | opening u k flag => exact ⟨h, fun _ _ => rfl⟩
  | flock i o lockop lock self =>
    rw [call] at ok waits
    obtain ⟨⟨fd, hfd, mine⟩, ho, hi, inode⟩ := waits
    have used := one_le_names hp live hfd
    rw [mine] at used
    have awake := h.wake p
    have q : Open (setCall s p .user) o i := by
      refine ⟨ho, ?_, inode⟩
      rw [names_congr (s := s) fun q _ => ?_]
      · omega
      · show (put s.ptab p _ q).live = _ ∧ (put s.ptab p _ q).files = _
        by_cases me : q = p
        · rw [me, put_same]
          exact ⟨rfl, rfl⟩
        · rw [put_ne _ _ me]
          exact ⟨rfl, rfl⟩
    have files : ((setCall s p .user).ptab p).files fd = o := by
      show (put s.ptab p _ p).files fd = o
      rw [put_same]
      exact mine
    dsimp only
    by_cases stop : signal = true
    · rw [if_pos stop]
      exact ⟨awake.fail p _, fun _ _ => rfl⟩
    · rw [if_neg stop]
      have fair' := ok.resolve_left stop
      obtain ⟨kept, others⟩ := awake.attempt q ⟨fd, hfd, files⟩ fair'
      refine ⟨kept, fun k other => others k fun me => other ?_⟩
      rw [me]
      rfl

/-! ## Open -/

theorem iOpen_same (s : State) (i : Nat) (fresh rdonly : Bool) :
    (iOpen s i fresh rdonly).oftab = s.oftab ∧ (iOpen s i fresh rdonly).ptab = s.ptab ∧
      (iOpen s i fresh rdonly).told = s.told := by
  unfold iOpen
  split
  · exact ⟨rfl, rfl, rfl⟩
  · exact ⟨rfl, rfl, rfl⟩

theorem entries_same (entries' : t.oftab = s.oftab) (i : Nat) : entries t i = entries s i := by
  unfold entries
  rw [entries']

/-- The inode that a walk gives has one more reference. -/
theorem iOpen_refs {fresh : Bool} (rdonly : Bool)
    (unused : fresh = true → (s.itab i).refs = 0) (room : fresh = false → (s.itab i).refs < 255) :
    ((iOpen s i fresh rdonly).itab i).refs = (s.itab i).refs + 1 ∧
      ∀ j, j ≠ i → (iOpen s i fresh rdonly).itab j = s.itab j := by
  unfold iOpen
  cases fresh with
  | true =>
    refine ⟨?_, fun j away => put_ne _ _ away⟩
    show (put s.itab i _ i).refs = _
    rw [put_same, unused rfl]
  | false =>
    refine ⟨?_, fun j away => put_ne _ _ away⟩
    show (put s.itab i _ i).refs = _
    rw [put_same]
    show ((s.itab i).refs + 1) % 256 = _
    have bound := room rfl
    omega

/-- `/dev/tty`: the entry gets the inode of the controlling terminal instead. -/
theorem swap_inode (s : State) (k i ctty : Nat) (held : (s.itab i).refs ≠ 0) :
    iRef (setEntry (iDeref (setEntry s k i) i) k ctty) ctty =
      setEntry (iRef (iDeref s i) ctty) k ctty := by
  rw [iDeref_held (u := setEntry s k i) held, iDeref_held held]
  unfold setEntry modifyOft modifyInode iRef modifyInode
  dsimp only
  rw [put_put, put_same]

structure Desk (s : State) (p u flag : Nat) : Prop where
  proc : p < PTABSIZE
  live : (s.ptab p).live = true
  awake : (s.ptab p).call = .user
  slot : u < UFTSIZE
  free : (s.ptab p).files u = NO_FILE
  fair : ¬ badFlag flag

theorem Desk.same {u flag : Nat} (d : Desk s p u flag) (desks : t.ptab = s.ptab) :
    Desk t p u flag :=
  ⟨d.proc, by rw [desks]; exact d.live, by rw [desks]; exact d.awake, d.slot,
    by rw [desks]; exact d.free, d.fair⟩

theorem Kept.openFound (h : Kept s none) {k u flag : Nat} (b : Booked s k) (d : Desk s p u flag)
    (hi : i < ITABSIZE) (spare : entries s i < (s.itab i).refs) {check : Check}
    (proper : check.proper) (clear' : ∀ e, check = .refused e → clear s k)
    (room : ∀ ctty, check = .tty ctty → ((Flock.iDeref s i).itab ctty).refs < 255) :
    Kept (openFound s p u k flag i check) none ∧
      ∀ j, j < OFTSIZE → (Flock.openFound s p u k flag i check).told j = s.told j := by
  obtain ⟨kept, booked⟩ := h.setEntry b hi spare
  have inode : ((Flock.setEntry s k i).oftab k).inode = some i := by
    show (put s.oftab k _ k).inode = some i
    rw [put_same]
  cases check with
  | refused e =>
    have unlocked : ((Flock.setEntry s k i).oftab k).access.flock = false := by
      show (put s.oftab k _ k).access.flock = false
      rw [put_same]
      exact clear' e rfl
    exact kept.cantopen (p := p) (u := u) booked e d.free (Or.inr unlocked)
  | plain =>
    exact ⟨kept.openDone booked d.proc d.live d.awake d.slot d.free d.fair hi inode, fun _ _ => rfl⟩
  | device =>
    exact ⟨kept.begin booked d.slot d.free d.fair hi inode, fun _ _ => rfl⟩
  | tty ctty =>
    have dropped := h.iDeref spare hi
    have held : (s.itab i).refs ≠ 0 := by omega
    have refs := room ctty rfl
    have raised := dropped.iRef refs
    have same : (Flock.iRef (Flock.iDeref s i) ctty).oftab = s.oftab ∧
        (Flock.iRef (Flock.iDeref s i) ctty).ptab = s.ptab := by
      rw [iDeref_held held]
      exact ⟨rfl, rfl⟩
    have more : entries (Flock.iRef (Flock.iDeref s i) ctty) ctty <
        ((Flock.iRef (Flock.iDeref s i) ctty).itab ctty).refs := by
      have bounds := (dropped.refs ctty proper).1
      show entries (Flock.iDeref s i) ctty < (put (Flock.iDeref s i).itab ctty _ ctty).refs
      rw [put_same]
      show _ < (((Flock.iDeref s i).itab ctty).refs + 1) % 256
      omega
    obtain ⟨kept', booked'⟩ := raised.setEntry (b.same same.1 same.2) proper more
    have inode' : ((Flock.setEntry (Flock.iRef (Flock.iDeref s i) ctty) k ctty).oftab k).inode =
        some ctty := by
      show (put (Flock.iRef (Flock.iDeref s i) ctty).oftab k _ k).inode = some ctty
      rw [put_same]
    unfold Flock.openFound
    dsimp only
    rw [swap_inode s k i ctty held]
    refine ⟨kept'.begin booked' d.slot ?_ d.fair proper inode', fun j _ => ?_⟩
    · show ((Flock.iRef (Flock.iDeref s i) ctty).ptab p).files u = NO_FILE
      rw [same.2]
      exact d.free
    · show (Flock.iDeref s i).told j = s.told j
      rw [iDeref_held held]
      rfl

theorem booking_ok {flag u k : Nat} (found : booking s p flag = .ok (u, k)) :
    ¬ badFlag flag ∧ u < UFTSIZE ∧ (s.ptab p).files u = NO_FILE ∧ freeEntry s = some k := by
  unfold booking at found
  split at found
  · cases found
  rename_i fair'
  split at found
  · cases found
  rename_i slot
  split at found
  · cases found
  rename_i entry
  injection found with found
  injection found with first second
  subst first second
  exact ⟨fair', (ufAlloc_free slot).1, (ufAlloc_free slot).2, entry⟩

theorem Kept.open (h : Kept s none) (hp : p < PTABSIZE) (live : (s.ptab p).live = true)
    (awake : (s.ptab p).call = .user) {flag : Nat} {walk : Walk} (proper : walk.proper s)
    (calm : bookingCalm s flag walk (booking s p flag)) :
    Kept (open' s p flag walk) none ∧
      ∀ j, j < OFTSIZE → (open' s p flag walk).told j = s.told j := by
  unfold open'
  cases found : booking s p flag with
  | error e => exact ⟨h.fail p e, fun _ _ => rfl⟩
  | ok place =>
    obtain ⟨u, k⟩ := place
    rw [found] at calm
    obtain ⟨fair', slot, free, entry⟩ := booking_ok found
    obtain ⟨kept, booked, idle⟩ := h.takeEntry entry
    have unset : ((Flock.takeEntry s k).oftab k).inode = none := by
      show (put s.oftab k _ k).inode = none
      rw [put_same]
    have access : ((Flock.takeEntry s k).oftab k).access = (s.oftab k).access := by
      show (put s.oftab k _ k).access = _
      rw [put_same]
    dsimp only
    cases walk with
    | missing e => exact kept.cantopen (p := p) (u := u) booked e free (Or.inl unset)
    | found i fresh rdonly made check =>
      obtain ⟨hi, unused, proper'⟩ := proper
      obtain ⟨room, calm'⟩ := calm
      have opened := kept.iOpen rdonly hi unused room
      obtain ⟨refs, rest⟩ := iOpen_refs (s := Flock.takeEntry s k) rdonly unused room
      obtain ⟨oftab, ptab, told⟩ := iOpen_same (Flock.takeEntry s k) i fresh rdonly
      have bounds := kept.refs i hi
      have spare : entries (Flock.iOpen (Flock.takeEntry s k) i fresh rdonly) i <
          ((Flock.iOpen (Flock.takeEntry s k) i fresh rdonly).itab i).refs := by
        rw [refs, entries_same oftab]
        omega
      have d : Desk (Flock.takeEntry s k) p u flag := ⟨hp, live, awake, slot, free, fair'⟩
      dsimp only
      by_cases exists' : exclusiveFlag flag ∧ made = false
      · rw [if_pos exists']
        have dropped := opened.iDeref spare hi
        have same : (Flock.iDeref (Flock.iOpen (Flock.takeEntry s k) i fresh rdonly) i).oftab =
            (Flock.takeEntry s k).oftab ∧
            (Flock.iDeref (Flock.iOpen (Flock.takeEntry s k) i fresh rdonly) i).ptab = s.ptab ∧
            (Flock.iDeref (Flock.iOpen (Flock.takeEntry s k) i fresh rdonly) i).told = s.told := by
          rw [iDeref_held (by omega)]
          exact ⟨oftab, ptab, told⟩
        obtain ⟨kept', told'⟩ := dropped.cantopen (p := p) (u := u) (booked.same same.1 same.2.1)
          EEXIST (by rw [same.2.1]; exact free) (Or.inl (by rw [same.1]; exact unset))
        exact ⟨kept', fun j hj => (told' j hj).trans (congrFun same.2.2 j)⟩
      · rw [if_neg exists']
        have calm'' := calm'.resolve_left exists'
        have clear' : ∀ e, check = .refused e →
            clear (Flock.iOpen (Flock.takeEntry s k) i fresh rdonly) k := by
          intro e refused
          rw [refused] at calm''
          unfold clear
          rw [oftab, access]
          exact calm''
        have room' : ∀ ctty, check = .tty ctty → ((Flock.iDeref (Flock.iOpen
            (Flock.takeEntry s k) i fresh rdonly) i).itab ctty).refs < 255 := by
          intro ctty tty
          rw [tty] at calm''
          have small : (s.itab ctty).refs < 255 := calm''
          rw [iDeref_held (by omega)]
          show (put (Flock.iOpen _ i fresh rdonly).itab i _ ctty).refs < 255
          by_cases me : ctty = i
          · rw [me, put_same]
            show ((Flock.iOpen _ i fresh rdonly).itab i).refs - 1 < 255
            rw [refs]
            rw [me] at small
            exact small
          · rw [put_ne _ _ me, rest ctty me]
            exact small
        obtain ⟨kept', told'⟩ := opened.openFound (booked.same oftab ptab) (d.same ptab) hi spare
          proper' clear' room'
        exact ⟨kept', fun j hj => (told' j hj).trans (congrFun told j)⟩

theorem Kept.openReturns (h : Kept s none) (hp : p < PTABSIZE) (live : (s.ptab p).live = true)
    {out : Opened} (calm : openCalm s out (s.ptab p).call) :
    Kept (openReturns s p out) none ∧
      ∀ j, j < OFTSIZE → (openReturns s p out).told j = s.told j := by
  unfold Flock.openReturns
  have waits := h.waits p hp live
  cases call : (s.ptab p).call with
  | user => exact ⟨h, fun _ _ => rfl⟩
  | flock i o lockop lock self => exact ⟨h, fun _ _ => rfl⟩
  | opening u k flag =>
    rw [call] at waits calm
    obtain ⟨slot, hk, fair', free, one, i, hi, named⟩ := waits
    have opening : opens s p k := ⟨hp, live, u, flag, call⟩
    obtain ⟨unnamed, alone⟩ := h.booked p k opening
    have awake := h.wake p
    have mine : (setCall s p .user).ptab p = { s.ptab p with call := .user } := put_same _ _ _
    have same : ∀ q, q < PTABSIZE → ((setCall s p .user).ptab q).live = (s.ptab q).live ∧
        ((setCall s p .user).ptab q).files = (s.ptab q).files := by
      intro q _
      by_cases me : q = p
      · rw [me, mine]
        exact ⟨rfl, rfl⟩
      · rw [show (setCall s p .user).ptab q = s.ptab q from put_ne _ _ me]
        exact ⟨rfl, rfl⟩
    have booked : Booked (setCall s p .user) k := by
      refine ⟨hk, one, (names_congr same k).trans (by simpa using unnamed), fun q again => ?_⟩
      obtain ⟨other, before⟩ := opens_desk (f := fun q => { q with call := .user }) rfl again
      exact other (alone q before)
    have d : Desk (setCall s p .user) p u flag :=
      ⟨hp, by rw [mine]; exact live, by rw [mine], slot, by rw [mine]; exact free, fair'⟩
    dsimp only
    cases out with
    | failed e => exact awake.cantopen (p := p) (u := u) booked e d.free (Or.inr calm)
    | done =>
      exact ⟨awake.openDone booked d.proc d.live d.awake d.slot d.free d.fair hi named,
        fun _ _ => rfl⟩
    | truncFailed e =>
      obtain ⟨clear', spare⟩ := calm
      have more := spare i hi named
      have dropped := awake.iDeref (i := i) more hi
      have there : ((setCall s p .user).oftab k).inode = some i := named
      have same' : (Flock.iDeref (setCall s p .user) i).oftab = s.oftab ∧
          (Flock.iDeref (setCall s p .user) i).ptab = (setCall s p .user).ptab ∧
          (Flock.iDeref (setCall s p .user) i).told = s.told := by
        rw [iDeref_held (show ((setCall s p .user).itab i).refs ≠ 0 from
          (show (s.itab i).refs ≠ 0 by omega))]
        exact ⟨rfl, rfl, rfl⟩
      rw [there]
      dsimp only
      obtain ⟨kept, told⟩ := dropped.cantopen (p := p) (u := u)
        (booked.same same'.1 same'.2.1) e (by rw [same'.2.1]; exact d.free)
        (Or.inr (by rw [same'.1]; exact clear'))
      exact ⟨kept, fun j hj => (told j hj).trans (congrFun same'.2.2 j)⟩

/-! ## Runs -/

/-- The entry that a step of `_flock` works on. -/
def Action.target (s : State) : Action → Option Nat
  | .flock p file _ => some ((s.ptab p).files file)
  | .woken p _ => (s.ptab p).call.locking
  | _ => none

/-- Locks are let go by a call of `_flock` on their entry, or with its last reference. -/
def Releases (s : State) (a : Action) (t : State) : Prop :=
  ∀ k, k < OFTSIZE → a.target s ≠ some k →
    t.told k = s.told k ∨ t.told k = none ∧ (t.oftab k).refs = 0

theorem Lets.releases (h : Lets s t) (a : Action) : Releases s a t := fun k hk _ => (h k hk).1

theorem releases_same (a : Action) (same : ∀ k, k < OFTSIZE → t.told k = s.told k) :
    Releases s a t := fun k hk _ => Or.inl (same k hk)

theorem lacks_inode {look : Look} (lacks : look.lacks) (i : Nat) : look ≠ .inode i := by
  intro here
  rw [here] at lacks
  exact lacks

theorem Kept.step (h : Kept s none) {a : Action} (step : a.calmStep s t) :
    Kept t none ∧ Releases s a t := by
  obtain ⟨calm, _, enabled, rfl⟩ := step
  cases a with
  | «open» p flag walk =>
    obtain ⟨⟨hp, live, awake⟩, proper⟩ := enabled
    obtain ⟨kept, told⟩ := h.open hp live awake proper calm
    exact ⟨kept, releases_same _ told⟩
  | opened p out =>
    obtain ⟨hp, live, _⟩ := enabled
    obtain ⟨kept, told⟩ := h.openReturns hp live calm
    exact ⟨kept, releases_same _ told⟩
  | flock p file lockop =>
    obtain ⟨hp, live, _⟩ := enabled
    obtain ⟨kept, others⟩ := h.flock hp live calm
    exact ⟨kept, fun k _ away => Or.inl (others k fun me => away (congrArg some me.symm))⟩
  | woken p signal =>
    obtain ⟨hp, live, _⟩ := enabled
    obtain ⟨kept, others⟩ := h.woken hp live calm
    exact ⟨kept, fun k _ away => Or.inl (others k away)⟩
  | dup p oldd =>
    obtain ⟨hp, live, awake⟩ := enabled
    obtain ⟨kept, lets⟩ := h.dup hp live awake (calm.imp lacks_inode id)
    exact ⟨kept, lets.releases _⟩
  | dup2 p oldd newd =>
    obtain ⟨hp, live, awake⟩ := enabled
    obtain ⟨kept, lets⟩ := h.dup2 hp live awake (calm.imp lacks_inode id)
    exact ⟨kept, lets.releases _⟩
  | close p fd =>
    obtain ⟨hp, live, awake⟩ := enabled
    obtain ⟨kept, lets, _⟩ := h.doclose hp live awake (fd % 256)
    exact ⟨kept, lets.releases _⟩
  | fork p child =>
    obtain ⟨⟨hp, live, _⟩, hc, dead⟩ := enabled
    obtain ⟨kept, lets⟩ := h.fork hp live hc dead
    exact ⟨kept, lets.releases _⟩
  | exit p =>
    obtain ⟨hp, live⟩ := enabled
    obtain ⟨kept, lets⟩ := h.doexit hp live
    exact ⟨kept, lets.releases _⟩
  | take i fresh rdonly =>
    obtain ⟨hi, unused⟩ := enabled
    exact ⟨h.iOpen rdonly hi unused calm,
      releases_same _ fun k _ => congrFun (iOpen_same s i fresh rdonly).2.2 k⟩
  | drop i =>
    have spare : entries s i < (s.itab i).refs := calm
    refine ⟨h.iDeref spare enabled, releases_same _ fun k _ => ?_⟩
    show (Flock.iDeref s i).told k = s.told k
    rw [iDeref_held (by omega)]
    rfl
  | mark i dirty rdonly =>
    exact ⟨h.inode (f := fun c => { c with dirty := dirty, rdonly := rdonly }) rfl
      fun hi => h.refs i hi, releases_same _ fun _ _ => rfl⟩

theorem kept_boot : Kept boot none := by
  have unnamed : ∀ k, k < OFTSIZE → names boot k = 0 := by
    intro k hk
    refine (total_congr fun p _ => ?_).trans (total_zero PTABSIZE)
    unfold Proc.names
    split
    · refine (total_congr fun j _ => ?_).trans (total_zero UFTSIZE)
      exact if_neg (entry_ne_none hk)
    · rfl
  refine ⟨rfl, fun i _ => free_of_none fun k _ => ?_, fun i _ => ⟨?_, ?_⟩, fun k hk no => ?_,
    fun _ _ _ => rfl, fun k _ i no => ?_, fun _ _ _ _ _ => Or.inl rfl, fun _ _ _ => trivial,
    fun p k opening => ?_⟩
  · exact ite_self _
  · refine Nat.le_of_eq ((total_congr fun k _ => ?_).trans (total_zero OFTSIZE))
    exact if_neg fun no => no.1 rfl
  · exact Nat.zero_lt_succ _
  · exact (no (unnamed k hk)).elim
  · cases no
  · obtain ⟨_, _, _, _, call⟩ := opening
    cases call

theorem kept_run {as : List Action} (run : Steps Action.calmStep boot as s) : Kept s none :=
  run.keeps (I := fun s => Kept s none) (fun _ _ _ kept step => (kept.step step).1) kept_boot

/-- An unlock that answers leaves the entry without a lock. -/
theorem Kept.unlocks (h : Kept s none) (hp : p < PTABSIZE) (live : (s.ptab p).live = true)
    {file lockop : Nat} (un : lockOf lockop = LOCK_UN)
    (ok : lookCalm s ((s.ptab p).files file) file lockop (Flock.getinode s p (file % 256)))
    (zero : ((Flock.flock s p file lockop).ptab p).answer = some 0) :
    (Flock.flock s p file lockop).told ((s.ptab p).files file) = none := by
  unfold Flock.flock at zero ⊢
  dsimp only at zero ⊢
  rw [if_neg (by omega)] at zero ⊢
  have look : Flock.getinode { s with lock := lockOf lockop, self := 0 } p (file % 256) =
      Flock.getinode s p (file % 256) := rfl
  rw [look] at zero ⊢
  cases found : Flock.getinode s p (file % 256) with
  | bad =>
    rw [found] at zero
    change ((put s.ptab p _) p).answer = some 0 at zero
    rw [put_same] at zero
    cases zero
  | broken => exact (h.getinode hp live _ found).elim
  | inode i =>
    rw [found] at ok
    obtain ⟨small, calm⟩ := ok.resolve_left (by omega)
    rw [Nat.mod_eq_of_lt small] at found
    obtain ⟨hfd, inside, hi, inode⟩ := getinode_inode found
    generalize here : (s.ptab p).files file = o at inside inode calm
    have q : Open s o i := ⟨inside, by have le := one_le_names hp live hfd; rw [here] at le; omega, inode⟩
    have clear' : (s.oftab o).access.flock = false := by
      rcases calm with ⟨_, no | no⟩ | ⟨notUn, _⟩
      · rw [un] at no
        cases no
      · rw [un] at no
        cases no.2
      · by_contra held
        exact notUn ⟨by simpa using held, un⟩
    have unlocked := h.unlocked q clear'
    dsimp only
    rw [if_neg (by rw [clear']; exact Bool.false_ne_true)]
    rcases calm with ⟨held, _⟩ | ⟨_, rest⟩
    · rw [clear'] at held
      cases held
    unfold Flock.contend
    rcases rest with exactly | fair'
    · rw [if_pos exactly, exactly, unlock_clear (q.statics (lockOf LOCK_UN) 0) clear' unlocked]
      exact unlocked
    · by_cases exactly : lockop = LOCK_UN
      · rw [if_pos exactly, exactly, unlock_clear (q.statics (lockOf LOCK_UN) 0) clear' unlocked]
        exact unlocked
      · rw [if_neg exactly]
        have asked : Flock.granted lockop = none := by
          unfold Flock.granted
          rw [un]
          rfl
        unfold Flock.attempt
        rcases fair' with ⟨full, other⟩ | ⟨_, no, _⟩ | ⟨_, no, _⟩ | ⟨_, no, _⟩
        · rw [if_neg (by rw [un]; exact fun no => by cases no.2), if_neg (by omega)]
          split
          · exact unlocked
          split
          · exact unlocked
          · exact unlocked
        · rw [asked] at no
          cases no
        · rw [asked] at no
          cases no
        · rw [asked] at no
          cases no

/-- In every run of calm steps the lock field of an inode counts the open entries that
share its lock, or marks the one that has it alone. `O_FLOCK` marks the entries that
have a lock. The next calm step takes no lock away but with the last reference to its
entry, or from the entry it is called for. -/
theorem locks_counted {as : List Action} (run : Steps Action.calmStep boot as s) :
    s.panicked = false ∧
    (∀ i, i < ITABSIZE → Encodes CFMAX CFLEX OFTSIZE (holding s i) (s.itab i).flock) ∧
    (∀ k, k < OFTSIZE → (s.oftab k).refs = 0 → s.told k = none) ∧
    (∀ p fd i, p < PTABSIZE → (s.ptab p).live = true → getinode s p fd = .inode i →
      (s.oftab ((s.ptab p).files fd)).access.flock = (holding s i ((s.ptab p).files fd)).isSome) ∧
    ∀ a t, Action.calmStep s a t → Releases s a t ∧ ∀ p file lockop, a = .flock p file lockop →
      lockOf lockop = LOCK_UN → (t.ptab p).answer = some 0 →
      t.told ((s.ptab p).files file) = none := by
  have h := kept_run run
  refine ⟨h.calm, h.locks, fun k hk free => ?_, fun p fd i hp live found => ?_,
    fun a t step => ⟨(h.step step).2, fun p file lockop call un zero => ?_⟩⟩
  · by_cases named : names s k = 0
    · exact h.idle k hk named
    · have count := (h.count k hk (by rw [owed_none]; exact named)).1
      rw [owed_none] at count
      omega
  · obtain ⟨hfd, inside, _, inode⟩ := getinode_inode found
    have le := one_le_names hp live hfd
    obtain ⟨flag, _, same⟩ := h.flag (o := (s.ptab p).files fd) ⟨inside, by omega, inode⟩
    rw [flag, same]
  · obtain ⟨calm, _, enabled, rfl⟩ := step
    subst call
    obtain ⟨hp, live, _⟩ := enabled
    exact h.unlocks hp live un calm zero

end Runs

/-! ## Runs on two files -/

section Walks
variable [Cpu]

instance (s : State) (walk : Walk) : Decidable (walk.proper s) :=
  match walk with
  | .missing _ => isTrue trivial
  | .found i fresh _ _ (.refused _) =>
    inferInstanceAs (Decidable (i < ITABSIZE ∧ (fresh = true → (s.itab i).refs = 0) ∧ True))
  | .found i fresh _ _ .plain =>
    inferInstanceAs (Decidable (i < ITABSIZE ∧ (fresh = true → (s.itab i).refs = 0) ∧ True))
  | .found i fresh _ _ .device =>
    inferInstanceAs (Decidable (i < ITABSIZE ∧ (fresh = true → (s.itab i).refs = 0) ∧ True))
  | .found i fresh _ _ (.tty ctty) =>
    inferInstanceAs (Decidable (i < ITABSIZE ∧ (fresh = true → (s.itab i).refs = 0) ∧
      ctty < ITABSIZE))

instance (s : State) : (a : Action) → Decidable (a.enabled s)
  | .open p _ walk => inferInstanceAs (Decidable (calls s p ∧ walk.proper s))
  | .opened p _ => inferInstanceAs (Decidable (asleep s p))
  | .flock p _ _ => inferInstanceAs (Decidable (calls s p))
  | .woken p _ => inferInstanceAs (Decidable (asleep s p))
  | .dup p _ => inferInstanceAs (Decidable (calls s p))
  | .dup2 p _ _ => inferInstanceAs (Decidable (calls s p))
  | .close p _ => inferInstanceAs (Decidable (calls s p))
  | .fork p child => inferInstanceAs (Decidable (calls s p ∧ child < PTABSIZE ∧
      (s.ptab child).live = false))
  | .exit p => inferInstanceAs (Decidable (p < PTABSIZE ∧ (s.ptab p).live = true))
  | .take i fresh _ => inferInstanceAs (Decidable (i < ITABSIZE ∧
      (fresh = true → (s.itab i).refs = 0)))
  | .drop i => inferInstanceAs (Decidable (i < ITABSIZE))
  | .mark i _ _ => inferInstanceAs (Decidable (i < ITABSIZE))

instance (s : State) (k : Nat) : Decidable (clear s k) := by unfold clear; infer_instance

instance (s : State) (k : Nat) : (check : Check) → Decidable (check.calm s k)
  | .refused _ => inferInstanceAs (Decidable (clear s k))
  | .tty ctty => inferInstanceAs (Decidable ((s.itab ctty).refs < 255))
  | .plain => isTrue trivial
  | .device => isTrue trivial

instance (s : State) (flag k : Nat) : (walk : Walk) → Decidable (walk.calm s flag k)
  | .missing _ => isTrue trivial
  | .found i fresh _ made check => inferInstanceAs (Decidable (
      (fresh = false → (s.itab i).refs < 255) ∧
      (exclusiveFlag flag ∧ made = false ∨ check.calm s k)))

instance (s : State) (flag : Nat) (walk : Walk) : (place : Except Nat (Nat × Nat)) →
    Decidable (bookingCalm s flag walk place)
  | .error _ => isTrue trivial
  | .ok (_, k) => inferInstanceAs (Decidable (walk.calm s flag k))

instance (s : State) (k : Nat) : (out : Opened) → Decidable (out.calm s k)
  | .failed _ => inferInstanceAs (Decidable (clear s k))
  | .truncFailed _ => inferInstanceAs (Decidable (clear s k ∧ ∀ i, i < ITABSIZE →
      (s.oftab k).inode = some i → entries s i < (s.itab i).refs))
  | .done => isTrue trivial

instance (s : State) (out : Opened) : (call : Call) → Decidable (openCalm s out call)
  | .opening _ k _ => inferInstanceAs (Decidable (out.calm s k))
  | .user => isTrue trivial
  | .flock _ _ _ _ _ => isTrue trivial

instance (s : State) (signal : Bool) : (call : Call) → Decidable (wakeCalm s signal call)
  | .flock i o lockop lock self => inferInstanceAs (Decidable (signal = true ∨
      fair s o (s.itab i).flock lockop (locals s lock self).1 (locals s lock self).2))
  | .user => isTrue trivial
  | .opening _ _ _ => isTrue trivial

instance (s : State) (o file lockop : Nat) : (look : Look) →
    Decidable (lookCalm s o file lockop look)
  | .inode i => inferInstanceAs (Decidable (LOCK_UN < lockOf lockop ∨
      file < 256 ∧ flockCalm s i o lockop))
  | .bad => isTrue trivial
  | .broken => isTrue trivial

instance (s : State) : (a : Action) → Decidable (a.calm s)
  | .open p flag walk => inferInstanceAs (Decidable (bookingCalm s flag walk (booking s p flag)))
  | .opened p out => inferInstanceAs (Decidable (openCalm s out (s.ptab p).call))
  | .flock p file lockop => inferInstanceAs (Decidable (
      lookCalm s ((s.ptab p).files file) file lockop (getinode s p (file % 256))))
  | .woken p signal => inferInstanceAs (Decidable (wakeCalm s signal (s.ptab p).call))
  | .dup p oldd => inferInstanceAs (Decidable ((getinode s p (oldd % 256)).lacks ∨ oldd < 256))
  | .dup2 p oldd newd => inferInstanceAs (Decidable ((getinode s p (oldd % 256)).lacks ∨
      oldd < 256 ∧ oldd ≠ newd))
  | .take i fresh _ => inferInstanceAs (Decidable (fresh = false → (s.itab i).refs < 255))
  | .drop i => inferInstanceAs (Decidable (entries s i < (s.itab i).refs))
  | .close _ _ => isTrue trivial
  | .fork _ _ => isTrue trivial
  | .exit _ => isTrue trivial
  | .mark _ _ _ => isTrue trivial

/-- The state after a list of actions that are all possible and all `good`. -/
def walk (good : State → Action → Prop) [∀ s a, Decidable (good s a)] :
    List Action → State → Option State
  | [], s => some s
  | a :: as, s =>
    if good s a ∧ s.panicked = false ∧ a.enabled s then walk good as (a.run s) else none

theorem walk_steps {good : State → Action → Prop} [∀ s a, Decidable (good s a)] {as : List Action}
    {s t : State} (h : walk good as s = some t) :
    Steps (fun s a t => good s a ∧ a.step s t) s as t := by
  induction as generalizing s with
  | nil =>
    cases h
    exact Steps.nil _
  | cons a as ih =>
    unfold walk at h
    split at h
    · rename_i ok
      exact Steps.cons ⟨ok.1, ok.2.1, ok.2.2, rfl⟩ (ih h)
    · cases h

end Walks

/-- Two processes, two entries and two inodes. -/
@[reducible] def pair : Cpu where
  ITABSIZE := 2
  OFTSIZE := 2
  UFTSIZE := 3
  PTABSIZE := 2
  NMOUNTS := 1
  width := .int16
  configAcct := false
  validdev := fun dev => dev < 16
  below := fun _ => 0
  noDevice := by decide
  oftBound := by decide
  uftBound := by decide
  oftRefsBound := by decide
  inodeRefsBound := by decide
  staticfast := false

/-- The file is opened, locked shared, and then by the same process alone. -/
theorem locks_counted_after_upgrade : ∃ s, @Steps State Action (@Action.calmStep pair) boot
    [.open 0 0 (.found 0 true false false .plain), .flock 0 0 LOCK_SH, .flock 0 0 LOCK_EX] s ∧
    s.told 0 = some .exclusive ∧ Encodes CFMAX CFLEX 2 (holding s 0) (s.itab 0).flock := by
  let m := pair
  have runs : (walk (fun s a => a.calm s) [.open 0 0 (.found 0 true false false .plain),
      .flock 0 0 LOCK_SH, .flock 0 0 LOCK_EX] boot).map (fun s => s.told 0) =
      some (some .exclusive) := by decide +kernel
  obtain ⟨s, run, told⟩ := Option.map_eq_some_iff.mp runs
  have steps : Steps Action.calmStep boot _ s := walk_steps run
  exact ⟨s, steps, told, (locks_counted steps).2.1 0 (by decide)⟩

/-- A lock that was given up is still counted, and an exclusive lock is given to a
process beside one that has a shared lock. -/
theorem lock_miscounted : ∃ (_ : Cpu) (s t : State) (as bs : List Action),
    Steps Action.step boot as s ∧ s.told 0 = none ∧ s.told 1 = none ∧
      ¬ Encodes CFMAX CFLEX OFTSIZE (holding s 0) (s.itab 0).flock ∧
    Steps Action.step boot bs t ∧ holding t 0 0 = some .shared ∧
      holding t 0 1 = some .exclusive := by
  let m := pair
  have unlocked : (walk (fun _ _ => True) [.open 0 0 (.found 0 true false false .plain),
      .flock 0 0 LOCK_SH, .flock 0 0 LOCK_UN] boot).map
      (fun s => (s.told 0, s.told 1, (s.itab 0).flock)) = some (none, none, 1) := by
    decide +kernel
  have shared : (walk (fun _ _ => True) [.open 0 0 (.found 0 true false false .plain),
      .flock 0 0 LOCK_SH, .fork 0 1, .open 1 0 (.found 0 false false false .plain),
      .flock 1 1 LOCK_EX] boot).map (fun s => (holding s 0 0, holding s 0 1)) =
      some (some .shared, some .exclusive) := by decide +kernel
  obtain ⟨s, run, facts⟩ := Option.map_eq_some_iff.mp unlocked
  obtain ⟨t, run', facts'⟩ := Option.map_eq_some_iff.mp shared
  injection facts with zero rest
  injection rest with one field
  injection facts' with first second
  refine ⟨pair, s, t, _, _, (walk_steps run).mono fun _ _ _ step => step.2, zero, one,
    fun no => ?_, (walk_steps run').mono fun _ _ _ step => step.2, first, second⟩
  have idle : ∀ k, k < OFTSIZE → holding s 0 k = none := by
    intro k hk
    unfold holding
    split
    · have small : k < 2 := hk
      have which : k = 0 ∨ k = 1 := by omega
      rcases which with here | here
      · rw [here]
        exact zero
      · rw [here]
        exact one
    · rfl
  have count := no.zero_of_none idle
  rw [field] at count
  cases count

end Flock
