import Fuzix.Lib.Run
import Mathlib.Tactic.Linarith

/-!
# The time of day

`updatetod` and `inittod` of timer.c on a machine with an RTC. The interval is
`CONFIG_RTC_INTERVAL`, if that is defined. The RTC has counted `rtc` seconds; the
kernel is shown them modulo 60.
-/

namespace Clock

open Run

structure State where
  tod_deci : BitVec 8
  rtcsec : BitVec 8
  low : BitVec 32
  high : BitVec 32
  deriving DecidableEq

/-- Both words of `tod`. -/
def State.time (s : State) : BitVec 64 := s.high ++ s.low

/-- `tod.low += slide` and the test for a carry, with the slide as a `uint32_t`. -/
def addlow (slide : BitVec 32) (s : State) : State :=
  let low := s.low + slide
  { s with low := low, high := if low < slide then s.high + 1 else s.high }

def addtod (slide : BitVec 8) (s : State) : State :=
  let slide := if slide.slt 0 then slide + 60 else slide
  addlow (slide.signExtend 32) s

def follow (rtcnew : BitVec 8) (s : State) : State :=
  if rtcnew = s.rtcsec then s
  else addtod (rtcnew - s.rtcsec) { s with rtcsec := rtcnew }

def updatetod (interval : Option Nat) (rtc_secs : BitVec 8) (s : State) : State :=
  match interval with
  | none => follow rtc_secs s
  | some n =>
    let s := { s with tod_deci := s.tod_deci + 1 }
    if s.tod_deci.toNat ≠ n then
      if s.tod_deci % 10 = 0 then addtod 1 { s with rtcsec := s.rtcsec + 1 } else s
    else follow rtc_secs { s with tod_deci := 0 }

def inittod (rtc_secs : BitVec 8) (s : State) : State := { s with rtcsec := rtc_secs }

/-! ## The kernel and the RTC -/

/-- The kernel with the seconds of the RTC, now and when they were last read. -/
structure World where
  kernel : State
  rtc : Nat
  last : Nat

def secs (rtc : Nat) : BitVec 8 := BitVec.ofNat 8 (rtc % 60)

/-- The call in this state gets to `rtc_secs`. -/
def reads (interval : Option Nat) (s : State) : Bool :=
  match interval with
  | none => true
  | some n => (s.tod_deci + 1).toNat = n

/-- `updatetod` is called after the RTC went on by `seconds`. -/
def tick (interval : Option Nat) (w : World) (seconds : Nat) : World :=
  ⟨updatetod interval (secs (w.rtc + seconds)) w.kernel, w.rtc + seconds,
    if reads interval w.kernel then w.rtc + seconds else w.last⟩

def boot (low high : BitVec 32) (rtc : Nat) : World :=
  ⟨inittod (secs rtc) ⟨0, 0, low, high⟩, rtc, rtc⟩

def World.elapsed (w : World) (seconds : Nat) : Nat := w.rtc + seconds - w.last

/-- The seconds that the kernel has counted itself since it last read the RTC. -/
def World.counted (w : World) : Nat := w.kernel.tod_deci.toNat / 10

/-- The RTC goes on by less than a minute between readings. -/
def Timely (w : World) (seconds : Nat) : Prop := w.elapsed seconds < 60

instance (w : World) (seconds : Nat) : Decidable (Timely w seconds) := by
  unfold Timely; infer_instance

/-- The interval in whole seconds. -/
def span (interval : Option Nat) : Nat := interval.getD 0 / 10

/-- `base` is the time when the RTC had counted no second. -/
structure Right (interval : Option Nat) (base : BitVec 64) (w : World) (seconds : Nat) : Prop where
  forward : ∃ d, d ≤ w.elapsed seconds + span interval ∧
    (tick interval w seconds).kernel.time = w.kernel.time + BitVec.ofNat 64 d
  close : ∃ t, (tick interval w seconds).kernel.time = base + BitVec.ofNat 64 t ∧
    (tick interval w seconds).last ≤ t ∧ t ≤ (tick interval w seconds).rtc + span interval ∧
    (reads interval w.kernel → t = (tick interval w seconds).rtc)

/-- The byte `tod_deci` gets to the interval. -/
def Configured (interval : Option Nat) : Prop := ∀ n, interval = some n → 0 < n ∧ n < 256

/-- The kernel has not counted more seconds than the RTC. -/
def Clean (interval : Option Nat) (w : World) (seconds : Nat) : Prop :=
  reads interval w.kernel → w.counted ≤ w.elapsed seconds

instance (interval : Option Nat) (w : World) (seconds : Nat) : Decidable (Clean interval w seconds) := by
  unfold Clean; infer_instance

/-! ## The sum of two words -/

theorem time_toNat (s : State) : s.time.toNat = s.high.toNat * 4294967296 + s.low.toNat := by
  rw [State.time, BitVec.toNat_append, ← Nat.shiftLeft_add_eq_or_of_lt s.low.isLt, Nat.shiftLeft_eq]

/-- The test behind the sum finds its carry. -/
theorem addlow_time (slide : BitVec 32) (s : State) :
    (addlow slide s).time = s.time + slide.zeroExtend 64 := by
  have low := s.low.isLt
  have high := s.high.isLt
  have short := slide.isLt
  apply BitVec.eq_of_toNat_eq
  rw [time_toNat, BitVec.toNat_add, time_toNat, BitVec.zeroExtend, BitVec.toNat_setWidth]
  unfold addlow
  by_cases carry : s.low + slide < slide
  · have wrapped := BitVec.lt_def.mp carry
    rw [BitVec.toNat_add] at wrapped
    have one : (1 : BitVec 32).toNat = 1 := rfl
    simp only [if_pos carry, BitVec.toNat_add, one]
    omega
  · have whole : ¬ (s.low + slide).toNat < slide.toNat := fun less => carry (BitVec.lt_def.mpr less)
    rw [BitVec.toNat_add] at whole
    simp only [if_neg carry, BitVec.toNat_add]
    omega

/-- What a slide adds to the time: a sum of slide and minute that is still negative is
added as an unsigned word. -/
def amount (slide : Int) : Nat :=
  ((if slide < 0 then slide + 60 else slide) % 4294967296).toNat

theorem extended (slide : BitVec 8) :
    (slide.signExtend 32).toNat = (slide.toInt % 4294967296).toNat := by
  have low := BitVec.le_toInt slide
  have high := BitVec.toInt_lt (x := slide)
  have same : (slide.signExtend 32).toInt = slide.toInt := BitVec.toInt_signExtend_of_le (by decide)
  have word := BitVec.toInt_eq_toNat_cond (slide.signExtend 32)
  have short := (slide.signExtend 32).isLt
  rw [same] at word
  split at word <;> omega

theorem addtod_time (slide : BitVec 8) (s : State) (high : slide.toInt ≤ 67) :
    (addtod slide s).time = s.time + BitVec.ofNat 64 (amount slide.toInt) := by
  have negative : slide.slt 0 = decide (slide.toInt < 0) := rfl
  have low := BitVec.le_toInt slide
  have sixty : (60 : BitVec 8).toInt = 60 := rfl
  have corrected : (if slide.slt 0 then slide + 60 else slide).toInt =
      if slide.toInt < 0 then slide.toInt + 60 else slide.toInt := by
    rw [negative]
    by_cases less : slide.toInt < 0
    · simp only [less, decide_true, if_true, BitVec.toInt_add, sixty, Int.bmod_def]
      omega
    · simp [less]
  have word : amount slide.toInt < 18446744073709551616 := by unfold amount; omega
  unfold addtod
  rw [addlow_time]
  congr 1
  apply BitVec.eq_of_toNat_eq
  rw [BitVec.zeroExtend, BitVec.toNat_setWidth, extended, corrected, BitVec.toNat_ofNat, ← amount]

theorem addtod_others (slide : BitVec 8) (s : State) :
    (addtod slide s).tod_deci = s.tod_deci ∧ (addtod slide s).rtcsec = s.rtcsec := ⟨rfl, rfl⟩

theorem follow_others (rtcnew : BitVec 8) (s : State) :
    (follow rtcnew s).tod_deci = s.tod_deci ∧ (follow rtcnew s).rtcsec = rtcnew := by
  unfold follow
  split
  · rename_i same
    exact ⟨rfl, same.symm⟩
  · exact addtod_others _ _

theorem follow_time {rtcnew : BitVec 8} {s : State} (new : rtcnew.toNat < 60) (old : s.rtcsec.toNat < 85) :
    (follow rtcnew s).time = s.time + BitVec.ofNat 64 (amount (rtcnew.toNat - s.rtcsec.toNat)) := by
  unfold follow
  split
  · rename_i same
    have none : amount (rtcnew.toNat - s.rtcsec.toNat) = 0 := by rw [same, Int.sub_self]; rfl
    rw [none]
    exact (BitVec.add_zero s.time).symm
  · have difference : (rtcnew - s.rtcsec).toInt = rtcnew.toNat - s.rtcsec.toNat := by
      rw [BitVec.toInt_eq_toNat_cond, BitVec.toNat_sub]
      omega
    rw [addtod_time _ _ (by omega), difference]
    rfl

/-! ## What a call does -/

structure Inv (interval : Option Nat) (base : BitVec 64) (w : World) : Prop where
  waits : ∀ n, interval = some n → w.kernel.tod_deci.toNat < n
  idle : interval = none → w.kernel.tod_deci = 0
  second : w.kernel.rtcsec.toNat = w.last % 60 + w.counted
  below : w.last ≤ w.rtc
  time : w.kernel.time = base + BitVec.ofNat 64 (w.last + w.counted)

variable {interval : Option Nat} {base : BitVec 64} {w : World} {seconds : Nat}

theorem Inv.counted_span (inv : Inv interval base w) (configured : Configured interval) :
    w.counted ≤ span interval ∧ span interval < 26 := by
  cases interval with
  | none => simp [World.counted, inv.idle rfl, span]
  | some n =>
    have waits := inv.waits n rfl
    have byte := configured n rfl
    simp only [World.counted, span, Option.getD_some]
    omega

variable (seconds) in
theorem tick_reads (inv : Inv interval base w) (due : reads interval w.kernel) :
    (tick interval w seconds).kernel =
      follow (secs (w.rtc + seconds)) { w.kernel with tod_deci := 0 } := by
  cases interval with
  | none =>
    have idle : w.kernel = { w.kernel with tod_deci := 0 } := by rw [← inv.idle rfl]
    exact congrArg (follow (secs (w.rtc + seconds))) idle
  | some n =>
    have full : (w.kernel.tod_deci + 1).toNat = n := of_decide_eq_true due
    exact if_neg (not_not.mpr full)

theorem secs_toNat (rtc : Nat) : (secs rtc).toNat = rtc % 60 := by
  rw [secs, BitVec.toNat_ofNat]
  omega

theorem reading_time (inv : Inv interval base w) (configured : Configured interval)
    (due : reads interval w.kernel) :
    (tick interval w seconds).kernel.time = w.kernel.time +
      BitVec.ofNat 64 (amount (((w.rtc + seconds) % 60 : Nat) - (w.last % 60 + w.counted : Nat))) := by
  have bounds := inv.counted_span configured
  have second := inv.second
  have minute : (secs (w.rtc + seconds)).toNat < 60 := by rw [secs_toNat]; omega
  rw [tick_reads seconds inv due, follow_time minute (by show w.kernel.rtcsec.toNat < 85; omega), secs_toNat]
  rw [← second]
  rfl

/-- The RTC has passed at most one minute. -/
theorem minutes (inv : Inv interval base w) (timely : Timely w seconds) :
    (w.rtc + seconds) % 60 = w.last % 60 + w.elapsed seconds ∨
      (w.rtc + seconds) % 60 + 60 = w.last % 60 + w.elapsed seconds := by
  have below := inv.below
  unfold Timely at timely
  unfold World.elapsed at *
  omega

/-- A reading makes up for what the RTC is ahead. -/
theorem amount_clean (inv : Inv interval base w) (configured : Configured interval)
    (timely : Timely w seconds) (clean : w.counted ≤ w.elapsed seconds) :
    amount (((w.rtc + seconds) % 60 : Nat) - (w.last % 60 + w.counted : Nat)) =
      w.elapsed seconds - w.counted := by
  have bounds := inv.counted_span configured
  unfold Timely at timely
  unfold amount
  rcases minutes inv timely with within | passed <;> split <;> omega

/-- Behind the kernel's own count, it adds most of a minute, or of the low word. -/
theorem amount_late (inv : Inv interval base w) (configured : Configured interval)
    (timely : Timely w seconds) (late : w.elapsed seconds < w.counted) :
    w.elapsed seconds + span interval <
        amount (((w.rtc + seconds) % 60 : Nat) - (w.last % 60 + w.counted : Nat)) ∧
      amount (((w.rtc + seconds) % 60 : Nat) - (w.last % 60 + w.counted : Nat)) < 4294967296 := by
  have bounds := inv.counted_span configured
  unfold amount
  rcases minutes inv timely with within | passed <;> split <;> omega

variable (seconds) in
theorem tick_counts (idle : ¬ reads interval w.kernel) :
    ∃ n, interval = some n ∧ (w.kernel.tod_deci + 1).toNat ≠ n ∧
      (tick interval w seconds).kernel =
        if (w.kernel.tod_deci + 1) % 10 = 0 then
          addtod 1 { w.kernel with tod_deci := w.kernel.tod_deci + 1, rtcsec := w.kernel.rtcsec + 1 }
        else { w.kernel with tod_deci := w.kernel.tod_deci + 1 } := by
  cases interval with
  | none => exact absurd rfl idle
  | some n =>
    have short : (w.kernel.tod_deci + 1).toNat ≠ n := fun full => idle (decide_eq_true full)
    exact ⟨n, rfl, short, if_pos short⟩

variable (seconds) in
theorem tick_last_reads (due : reads interval w.kernel) :
    (tick interval w seconds).last = w.rtc + seconds := if_pos due

variable (seconds) in
theorem tick_last_counts (idle : ¬ reads interval w.kernel) :
    (tick interval w seconds).last = w.last := if_neg idle

theorem time_moves (a b : Nat) (t : BitVec 64) :
    t + BitVec.ofNat 64 a + BitVec.ofNat 64 b = t + BitVec.ofNat 64 (a + b) := by
  rw [BitVec.ofNat_add, BitVec.add_assoc]

theorem reading_inv (inv : Inv interval base w) (configured : Configured interval)
    (timely : Timely w seconds) (due : reads interval w.kernel)
    (clean : w.counted ≤ w.elapsed seconds) : Inv interval base (tick interval w seconds) := by
  have read := tick_reads seconds inv due
  obtain ⟨deci, second⟩ := follow_others (secs (w.rtc + seconds)) { w.kernel with tod_deci := 0 }
  rw [← read] at deci second
  have none : (tick interval w seconds).counted = 0 := by
    rw [World.counted, deci]
    show (0 : BitVec 8).toNat / 10 = 0
    decide
  have last := tick_last_reads seconds due
  have below := inv.below
  constructor
  · intro n defined
    rw [deci]
    exact (configured n defined).1
  · intro _
    exact deci
  · rw [second, secs_toNat, last, none]
    rfl
  · rw [last]
    rfl
  · rw [reading_time inv configured due, amount_clean inv configured timely clean, inv.time, time_moves,
      last, none]
    unfold World.elapsed at *
    congr 2
    omega

theorem reading_right (inv : Inv interval base w) (configured : Configured interval)
    (timely : Timely w seconds) (due : reads interval w.kernel)
    (clean : w.counted ≤ w.elapsed seconds) : Right interval base w seconds := by
  have after := (reading_inv inv configured timely due clean).time
  have last := tick_last_reads seconds due
  have none : (tick interval w seconds).counted = 0 := by
    rw [World.counted, tick_reads seconds inv due, (follow_others _ _).1]
    show (0 : BitVec 8).toNat / 10 = 0
    decide
  constructor
  · refine ⟨w.elapsed seconds - w.counted, by omega, ?_⟩
    rw [reading_time inv configured due, amount_clean inv configured timely clean]
  · refine ⟨w.rtc + seconds, ?_, ?_, ?_, fun _ => rfl⟩
    · rw [last, none] at after
      exact after
    · exact Nat.le_of_eq last
    · exact Nat.le_add_right _ _

theorem reading_wrong (inv : Inv interval base w) (configured : Configured interval)
    (timely : Timely w seconds) (due : reads interval w.kernel)
    (late : w.elapsed seconds < w.counted) : ¬ Right interval base w seconds := by
  intro right
  obtain ⟨d, small, moved⟩ := right.forward
  obtain ⟨more, word⟩ := amount_late inv configured timely late
  rw [reading_time inv configured due] at moved
  have same := congrArg BitVec.toNat ((BitVec.add_right_inj _).mp moved)
  rw [BitVec.toNat_ofNat, BitVec.toNat_ofNat] at same
  omega

theorem deci_next (short : w.kernel.tod_deci.toNat + 1 < 256) :
    (w.kernel.tod_deci + 1).toNat = w.kernel.tod_deci.toNat + 1 ∧
      ((w.kernel.tod_deci + 1) % 10 = 0 ↔ (w.kernel.tod_deci.toNat + 1) % 10 = 0) := by
  have next : (w.kernel.tod_deci + 1).toNat = w.kernel.tod_deci.toNat + 1 := by
    have one : (1 : BitVec 8).toNat = 1 := rfl
    rw [BitVec.toNat_add, one]
    omega
  refine ⟨next, ?_⟩
  have ten : (10 : BitVec 8).toNat = 10 := rfl
  have zero : (0 : BitVec 8).toNat = 0 := rfl
  rw [← BitVec.toNat_inj, BitVec.toNat_umod, next, ten, zero]

variable (seconds) in
/-- A call between readings counts no second, or one. -/
theorem counting (inv : Inv interval base w) (configured : Configured interval)
    (idle : ¬ reads interval w.kernel) :
    (tick interval w seconds).kernel.tod_deci.toNat = w.kernel.tod_deci.toNat + 1 ∧
      ∃ d, d ≤ span interval ∧ (tick interval w seconds).counted = w.counted + d ∧
        (tick interval w seconds).kernel.rtcsec.toNat = w.kernel.rtcsec.toNat + d ∧
        (tick interval w seconds).kernel.time = w.kernel.time + BitVec.ofNat 64 d := by
  obtain ⟨n, defined, short, counts⟩ := tick_counts seconds idle
  have waits := inv.waits n defined
  have byte := configured n defined
  have second := inv.second
  have bounds := inv.counted_span configured
  have whole : span interval = n / 10 := by rw [defined]; rfl
  obtain ⟨next, tenth⟩ := deci_next (w := w) (by omega)
  have deci : (tick interval w seconds).kernel.tod_deci.toNat = w.kernel.tod_deci.toNat + 1 := by
    rw [counts]
    split <;> exact next
  refine ⟨deci, ?_⟩
  unfold World.counted at *
  by_cases full : (w.kernel.tod_deci + 1) % 10 = 0
  · rw [if_pos full] at counts
    have turn := tenth.mp full
    have more : (w.kernel.rtcsec + 1).toNat = w.kernel.rtcsec.toNat + 1 := by
      have one : (1 : BitVec 8).toNat = 1 := rfl
      rw [BitVec.toNat_add, one]
      omega
    refine ⟨1, by omega, by rw [deci]; omega, ?_, ?_⟩
    · rw [counts]
      exact more
    · rw [counts]
      exact addtod_time 1 _ (by decide)
  · rw [if_neg full] at counts
    have between : ¬ (w.kernel.tod_deci.toNat + 1) % 10 = 0 := fun turn => full (tenth.mpr turn)
    refine ⟨0, by omega, by rw [deci]; omega, ?_, ?_⟩
    · rw [counts]
      rfl
    · rw [counts]
      exact (BitVec.add_zero _).symm

variable (seconds) in
theorem counting_inv (inv : Inv interval base w) (configured : Configured interval)
    (idle : ¬ reads interval w.kernel) : Inv interval base (tick interval w seconds) := by
  obtain ⟨deci, d, _, counted, second, moved⟩ := counting seconds inv configured idle
  obtain ⟨n, defined, short, _⟩ := tick_counts seconds idle
  have waits := inv.waits n defined
  have byte := configured n defined
  have next := (deci_next (w := w) (by omega)).1
  have last := tick_last_counts seconds idle
  constructor
  · intro m same
    have number := Option.some.inj (defined.symm.trans same)
    rw [deci]
    omega
  · intro same
    cases defined.symm.trans same
  · rw [second, counted, last, inv.second, Nat.add_assoc]
  · rw [last]
    exact Nat.le_trans inv.below (Nat.le_add_right _ _)
  · rw [moved, inv.time, time_moves, last, counted, Nat.add_assoc]

variable (seconds) in
theorem counting_right (inv : Inv interval base w) (configured : Configured interval)
    (idle : ¬ reads interval w.kernel) : Right interval base w seconds := by
  have after := counting_inv seconds inv configured idle
  have bounds := after.counted_span configured
  have below := after.below
  obtain ⟨_, d, small, _, _, moved⟩ := counting seconds inv configured idle
  constructor
  · exact ⟨d, by omega, moved⟩
  · refine ⟨_, after.time, by omega, by omega, ?_⟩
    intro due
    exact absurd due idle

/-! ## Runs -/

theorem right_iff (inv : Inv interval base w) (configured : Configured interval)
    (timely : Timely w seconds) : Right interval base w seconds ↔ Clean interval w seconds := by
  by_cases due : reads interval w.kernel
  · constructor
    · intro right _
      by_contra late
      exact reading_wrong inv configured timely due (by omega) right
    · intro clean
      exact reading_right inv configured timely due (clean due)
  · constructor
    · intro _ read
      exact absurd read due
    · intro _
      exact counting_right seconds inv configured due

theorem clean_inv (inv : Inv interval base w) (configured : Configured interval)
    (timely : Timely w seconds) (clean : Clean interval w seconds) :
    Inv interval base (tick interval w seconds) := by
  by_cases due : reads interval w.kernel
  · exact reading_inv inv configured timely due (clean due)
  · exact counting_inv seconds inv configured due

theorem boot_inv (low high : BitVec 32) (rtc : Nat) (configured : Configured interval) :
    Inv interval ((boot low high rtc).kernel.time - BitVec.ofNat 64 rtc) (boot low high rtc) := by
  have none : (boot low high rtc).counted = 0 := by
    show (0 : BitVec 8).toNat / 10 = 0
    decide
  constructor
  · intro n defined
    exact (configured n defined).1
  · intro _
    rfl
  · rw [none]
    exact secs_toNat rtc
  · exact Nat.le_refl rtc
  · rw [none]
    exact (BitVec.sub_add_cancel _ _).symm

end Clock
