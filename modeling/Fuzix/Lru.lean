import Mathlib.Algebra.Group.Nat.Defs
import Fuzix.Coherence
import Fuzix.Lib.Run

/-!
# The buffer that is given up

A history of calls of `bread` and `bfree`, with the buffers that `bread` returned and those
that `bfree` released, the latest first. A buffer is stamped when `bread` returns it, so its
age is the number of buffers that `bread` returned since.
-/

namespace Devio

open Wp Table Run

variable {B : Type} (cfg : Config)

inductive Call where
  | bread (dev blk : Nat) (rewrite : Bool)
  | bfree (i dirty : Nat)

structure History (B : Type) where
  cache : Cache B
  granted : List Nat
  released : List Nat

def call (h : History B) : Call → Except Panic (History B)
  | .bread dev blk rewrite => do
    let (answer, c) ← bread cfg dev blk rewrite h.cache
    return { h with cache := c, granted := answer.toList ++ h.granted }
  | .bfree i dirty => do
    let (_, c) ← bfree cfg i dirty h.cache
    return { h with cache := c, released := i :: h.released }

def called (h : History B) (a : Call) (h' : History B) : Prop := call cfg h a = .ok h'

/-- Nothing has been stamped yet. -/
structure Fresh (h : History B) : Prop where
  clock : h.cache.bufclock = 0
  times : ∀ i, i < cfg.nbufs → (h.cache.pool i).time = 0
  granted : h.granted = []
  released : h.released = []

/-- How many buffers `bread` has returned since it returned this one. -/
def History.since (h : History B) (i : Nat) : Nat := h.granted.idxOf i

/-- How many buffers `bfree` has released since it released this one. -/
def History.unused (h : History B) (i : Nat) : Nat := h.released.idxOf i

def unlocked (c : Cache B) (i : Nat) : Prop := i < cfg.nbufs ∧ (c.pool i).busy = .free

/-- Where `int` is wider than the clock, the clock has not passed an unlocked buffer by too
much, and it has not wrapped since one was stamped. -/
def InStep (c : Cache B) : Prop :=
  cfg.width = .int32 → ∀ j, unlocked cfg c j →
    (c.pool j).time ≤ c.bufclock ∧ c.bufclock.toNat - (c.pool j).time.toNat < 2 ^ 15

/-! ## The scan -/

section Scan
variable {cfg} {c : Cache B}

/-- The age of a buffer, modulo 2^16. -/
def span (c : Cache B) (i : Nat) : Int := (c.bufclock - (c.pool i).time).toNat

theorem age_span (steady : InStep cfg c) {j : Nat} (free : unlocked cfg c j) :
    age cfg c.bufclock (c.pool j).time = span c j ∧ oldtime cfg (span c j) = span c j := by
  unfold age oldtime span
  cases width : cfg.width with
  | int16 => exact ⟨rfl, rfl⟩
  | int32 =>
    obtain ⟨before, near⟩ := steady width j free
    have same : (c.bufclock - (c.pool j).time).toNat = c.bufclock.toNat - (c.pool j).time.toNat :=
      UInt16.toNat_sub_of_le _ _ before
    have small : (c.pool j).time.toNat ≤ c.bufclock.toNat := before
    constructor
    · dsimp only
      rw [same]
      omega
    · dsimp only
      rw [same, BitVec.toInt_ofInt]
      exact Int.bmod_eq_of_le (by omega) (by omega)

/-- The scan of the first `n` buffers has found nothing unlocked, or the oldest of them. -/
theorem scan_oldest (steady : InStep cfg c) {n : Nat} (small : n ≤ cfg.nbufs) :
    ((List.range n).foldl (victimStep cfg c) (none, 0) = (none, 0) ∧ ∀ j, j < n → ¬ unlocked cfg c j) ∨
      ∃ i, i < n ∧ unlocked cfg c i ∧ (List.range n).foldl (victimStep cfg c) (none, 0) = (some i, span c i) ∧
        ∀ j, j < n → unlocked cfg c j → span c j ≤ span c i := by
  induction n with
  | zero => exact Or.inl ⟨rfl, fun j no => absurd no (Nat.not_lt_zero j)⟩
  | succ n ih =>
    rw [List.range_succ, List.foldl_append, List.foldl_cons, List.foldl_nil]
    by_cases free : unlocked cfg c n
    · obtain ⟨aged, kept⟩ := age_span steady free
      have taken : ∀ best : Option Nat × Int, best.2 ≤ span c n →
          victimStep cfg c best n = (some n, span c n) := by
        intro best older
        unfold victimStep
        dsimp only
        rw [aged, if_pos ⟨older, free.2⟩, kept]
      rcases ih (by omega) with ⟨none, locked⟩ | ⟨i, low, unlocked, best, oldest⟩
      · right
        rw [none, taken _ (Int.natCast_nonneg _)]
        refine ⟨n, by omega, free, rfl, fun j less free' => ?_⟩
        have here : j = n := by
          by_contra other
          exact locked j (by omega) free'
        exact Int.le_of_eq (by rw [here])
      · right
        rw [best]
        by_cases older : span c i ≤ span c n
        · rw [taken _ older]
          refine ⟨n, by omega, free, rfl, fun j less free' => ?_⟩
          by_cases here : j = n
          · exact Int.le_of_eq (by rw [here])
          · exact Int.le_trans (oldest j (by omega) free') older
        · refine ⟨i, by omega, unlocked, ?_, fun j less free' => ?_⟩
          · unfold victimStep
            dsimp only
            rw [aged, if_neg fun both => older both.1]
          · by_cases here : j = n
            · rw [here]
              omega
            · exact oldest j (by omega) free'
    · have passed : ∀ best, victimStep cfg c best n = best := by
        intro best
        unfold victimStep
        dsimp only
        rw [if_neg fun both => free ⟨by omega, both.2⟩]
      rw [passed]
      rcases ih (by omega) with ⟨none, locked⟩ | ⟨i, low, unlocked, best, oldest⟩
      · left
        refine ⟨none, fun j less free' => ?_⟩
        by_cases here : j = n
        · rw [here] at free'
          exact free free'
        · exact locked j (by omega) free'
      · right
        refine ⟨i, by omega, unlocked, best, fun j less free' => ?_⟩
        by_cases here : j = n
        · rw [here] at free'
          exact absurd free' free
        · exact oldest j (by omega) free'

theorem victim_oldest (steady : InStep cfg c) {i : Nat} (found : victim cfg c = some i) :
    ∀ j, unlocked cfg c j → span c j ≤ span c i := by
  unfold victim at found
  rcases scan_oldest steady (Nat.le_refl cfg.nbufs) with ⟨none, _⟩ | ⟨k, _, _, best, oldest⟩
  · rw [none] at found
    cases found
  · rw [best] at found
    injection found with same
    rw [← same]
    exact fun j free => oldest j free.1 free

theorem victim_none (steady : InStep cfg c) (none : victim cfg c = none) : ∀ j, ¬ unlocked cfg c j := by
  unfold victim at none
  rcases scan_oldest steady (Nat.le_refl cfg.nbufs) with ⟨_, locked⟩ | ⟨k, _, _, best, _⟩
  · exact fun j free => locked j free.1 free
  · rw [best] at none
    cases none

end Scan

/-! ## The stamps -/

/-- No buffer is stamped. -/
def Unstamped (c c' : Cache B) : Prop :=
  c'.bufclock = c.bufclock ∧ ∀ i, (c'.pool i).time = (c.pool i).time

instance : Std.Refl (Unstamped (B := B)) := ⟨fun _ => ⟨rfl, fun _ => rfl⟩⟩

instance : IsTrans (Cache B) Unstamped :=
  ⟨fun _ _ _ first second => ⟨second.1.trans first.1, fun i => (second.2 i).trans (first.2 i)⟩⟩

section Stamps
variable {cfg} {c : Cache B} {stop : Panic → Prop}

theorem Unstamped.setBuf {d : Cache B} (quiet : Unstamped c d) {i : Nat} {f : Blkbuf B → Blkbuf B}
    (same : ∀ b, (f b).time = b.time) : Unstamped c (setBuf i f d) := by
  refine ⟨quiet.1, fun j => ?_⟩
  rw [setBuf_pool]
  by_cases here : j = i
  · rw [here, put_same, same]
    exact quiet.2 i
  · rw [put_ne _ _ here]
    exact quiet.2 j

theorem unstamped_transfer (dev : Nat) : Keeps (fun e => e = .invd) (Unstamped (B := B)) (transfer cfg dev) := by
  intro c
  simp only [transfer, wp_bind, wp_ite, wp_throw, wp_pure, wp_get, wp_modify]
  exact ⟨fun _ => trivial, fun _ => ⟨rfl, fun _ => rfl⟩⟩

theorem unstamped_bdread (i : Nat) : Keeps (fun e => e = .invd) (Unstamped (B := B)) (bdread cfg i) := by
  intro c
  simp only [bdread, wp_bind, wp_get, wp_ite, wp_modifyBuf, wp_pure]
  refine wp_mono (unstamped_transfer _ c) (fun ok d quiet => ⟨fun _ => ?_, fun _ => quiet⟩)
  exact quiet.setBuf fun _ => rfl

theorem unstamped_bdwrite (i : Nat) : Keeps (fun e => e = .invd) (Unstamped (B := B)) (bdwrite cfg i) := by
  intro c
  simp only [bdwrite, wp_bind, wp_get, wp_ite, wp_modify, wp_pure]
  exact wp_mono (unstamped_transfer _ c) (fun ok d quiet => ⟨fun _ => quiet, fun _ => quiet⟩)

/-- `freebuf` returns the victim, if there is one. -/
theorem wp_freebuf_victim : wp (fun e => e = .invd ∨ victim cfg c = none) (freebuf cfg)
    (fun i d => victim cfg c = some i ∧ Unstamped c d) c := by
  simp only [freebuf, wp_bind, wp_get]
  cases found : victim cfg c with
  | none => exact Or.inr rfl
  | some i =>
    simp only [wp_bind, wp_ite, wp_setError, wp_modifyBuf, wp_pure]
    refine ⟨fun _ => ?_, fun _ => ⟨trivial, refl_of _ c⟩⟩
    have written : wp (fun e => e = .invd ∨ some i = none) (bdwrite cfg i) (fun _ d => Unstamped c d) c :=
      wp_stop_mono (unstamped_bdwrite i c) fun _ => Or.inl
    refine wp_mono written (fun ok d quiet => ⟨fun _ => ?_, fun _ => ?_⟩)
    · have failed : Unstamped c { d with uError := EIO } := quiet
      exact ⟨trivial, failed.setBuf fun _ => rfl⟩
    · exact ⟨trivial, quiet.setBuf fun _ => rfl⟩

theorem unstamped_bfree (i dirty : Nat) : Keeps (fun _ => True) (Unstamped (B := B)) (bfree cfg i dirty) := by
  intro c
  simp only [bfree, wp_bind, wp_ite, wp_setError, wp_modifyBuf, wp_pure]
  have freed : Unstamped c (setBuf i (fun b => { b with
      dirty := b.dirty || decide (dirty ≠ 0)
      busy := if b.busy = .busy then .free else b.busy }) c) :=
    (refl_of Unstamped c).setBuf fun _ => rfl
  refine ⟨fun _ => ?_, fun _ => freed⟩
  refine wp_stop_mono (wp_mono (unstamped_bdwrite i _) fun ok d quiet => ⟨fun _ => ?_, fun _ => ?_⟩) fun _ _ => trivial
  · exact trans_of Unstamped freed quiet
  · exact (trans_of Unstamped freed quiet).setBuf fun _ => rfl

/-- The buffer that is returned is stamped, and no other. -/
def Stamped (c : Cache B) (answer : Option Nat) (d : Cache B) : Prop :=
  (answer = none → Unstamped c d) ∧
    ∀ i, answer = some i → d.bufclock = c.bufclock + 1 ∧
      ∀ j, (d.pool j).time = if j = i then d.bufclock else (c.pool j).time

theorem Unstamped.stamp {d : Cache B} (quiet : Unstamped c d) (i : Nat) :
    wp stop (stamp i) (fun _ e => Stamped c (some i) e) d := by
  refine ⟨fun no => (Option.some_ne_none i no).elim, fun k same => ?_⟩
  injection same with same
  rw [← same]
  refine ⟨congrArg (· + 1) quiet.1, fun j => ?_⟩
  rw [setBuf_pool]
  by_cases here : j = i
  · rw [here, put_same, if_pos rfl]
    rfl
  · rw [put_ne _ _ here, if_neg here]
    exact quiet.2 j

theorem wp_bread_stamped (dev blk : Nat) (rewrite : Bool) :
    wp (fun _ => True) (bread cfg dev blk rewrite) (fun answer d => Stamped c answer d) c := by
  simp only [bread, wp_bind, wp_get]
  cases bfind cfg c dev blk with
  | some i =>
    simp only [wp_bind, wp_ite, wp_throw, wp_modifyBuf, wp_pure]
    have grabbed : Unstamped c (Devio.setBuf i (fun b => { b with busy := .busy }) c) :=
      (refl_of Unstamped c).setBuf fun _ => rfl
    exact ⟨fun _ => trivial, fun _ => ⟨fun _ => grabbed.stamp i, fun _ => (refl_of Unstamped c).stamp i⟩⟩
  | none =>
    simp only [wp_bind, wp_ite, wp_setError, wp_modifyBuf, wp_pure]
    refine wp_stop_mono (wp_mono wp_freebuf_victim fun i d found => ?_) fun _ _ => trivial
    have named : Unstamped c (Devio.setBuf i (fun b => { b with dev := dev, blk := blk, busy := .busy }) d) :=
      found.2.setBuf fun _ => rfl
    refine ⟨fun _ => ?_, fun _ => named.stamp i⟩
    refine wp_stop_mono (wp_mono (unstamped_bdread i _) fun ok e quiet => ⟨fun _ => ?_, fun _ => ?_⟩) fun _ _ => trivial
    · have failed : Unstamped c { e with uError := EIO } := trans_of Unstamped named quiet
      exact ⟨fun _ => failed.setBuf fun _ => rfl, fun k no => by cases no⟩
    · exact (trans_of Unstamped named quiet).stamp i

end Stamps

/-! ## Histories -/

/-- The stamps tell how long each buffer has not been returned. -/
def Aged (h : History B) : Prop :=
  ∀ j, j < cfg.nbufs → h.cache.bufclock - (h.cache.pool j).time = UInt16.ofNat (h.since j)

section Histories
variable {cfg} {h h' : History B} {calls : List Call}

theorem Fresh.aged (fresh : Fresh cfg h) : Aged cfg h := by
  intro j small
  unfold History.since
  rw [fresh.clock, fresh.times j small, fresh.granted, List.idxOf_nil]
  rfl

theorem Aged.kept (aged : Aged cfg h) {d : Cache B} (quiet : Unstamped h.cache d) {released : List Nat} :
    Aged cfg ⟨d, h.granted, released⟩ := by
  intro j small
  dsimp only
  rw [quiet.1, quiet.2 j]
  exact aged j small

theorem Aged.stamped (aged : Aged cfg h) {d : Cache B} {i : Nat} (stamped : Stamped h.cache (some i) d) :
    Aged cfg { h with cache := d, granted := i :: h.granted } := by
  obtain ⟨clock, times⟩ := stamped.2 i rfl
  intro j small
  unfold History.since
  dsimp only
  rw [times j, List.idxOf_cons]
  by_cases here : j = i
  · rw [if_pos here, here, beq_self_eq_true, UInt16.sub_self]
    rfl
  · have other : (i == j) = false := beq_false_of_ne fun same => here same.symm
    have before := aged j small
    rw [if_neg here, other, clock]
    unfold History.since at before
    dsimp only [cond_false]
    rw [UInt16.ofNat_add, ← before]
    grind

theorem Aged.step (aged : Aged cfg h) {a : Call} (step : called cfg h a h') : Aged cfg h' := by
  unfold called call at step
  cases a with
  | bread dev blk rewrite =>
    dsimp only at step
    cases run : bread cfg dev blk rewrite h.cache with
    | error e =>
      rw [run] at step
      cases step
    | ok result =>
      obtain ⟨answer, d⟩ := result
      rw [run] at step
      injection step with same
      rw [← same]
      have stamped := wp_ok (wp_bread_stamped dev blk rewrite) run
      cases answer with
      | none => exact aged.kept (stamped.1 rfl)
      | some i => exact aged.stamped stamped
  | bfree i dirty =>
    dsimp only at step
    cases run : bfree cfg i dirty h.cache with
    | error e =>
      rw [run] at step
      cases step
    | ok result =>
      obtain ⟨answer, d⟩ := result
      rw [run] at step
      injection step with same
      rw [← same]
      have quiet : Unstamped h.cache d := (unstamped_bfree i dirty).of_run run
      exact aged.kept quiet

theorem Aged.span (aged : Aged cfg h) {j : Nat} (small : j < cfg.nbufs) :
    span h.cache j = (h.since j % 2 ^ 16 : Nat) := by
  unfold Devio.span
  rw [aged j small, UInt16.toNat_ofNat']

/-- `freebuf` gives up the unlocked buffer that `bread` returned longest ago, and it stops
for want of one only if all are locked. -/
theorem freebuf_oldest (fresh : Fresh cfg h) (run : Steps (called cfg) h calls h') :
    (∀ i d, freebuf cfg h'.cache = .ok (i, d) → unlocked cfg h'.cache i ∧
      (InStep cfg h'.cache → ∀ j, unlocked cfg h'.cache j → h'.since j % 2 ^ 16 ≤ h'.since i % 2 ^ 16)) ∧
      (freebuf cfg h'.cache = .error .nofreeb → InStep cfg h'.cache → ∀ j, ¬ unlocked cfg h'.cache j) := by
  have aged : Aged cfg h' := run.keeps (fun _ _ _ aged step => aged.step step) fresh.aged
  constructor
  · intro i d freed
    have found := (wp_ok wp_freebuf_victim freed).1
    refine ⟨victim_free found, fun steady j free => ?_⟩
    have older := victim_oldest steady found j free
    rw [aged.span free.1, aged.span (victim_free found).1] at older
    exact Int.ofNat_le.mp older
  · intro stopped steady
    apply victim_none steady
    rcases wp_error wp_freebuf_victim stopped with no | none
    · cases no
    · exact none

end Histories

/-- Two buffers and a 16-bit `int`. -/
def small : Config where
  nbufs := 2
  width := .int16
  validdev := fun dev => decide (dev ≠ NO_DEVICE)
  noDevice := by decide

def cold : History Unit where
  cache :=
    { pool := fun _ => { data := (), dev := NO_DEVICE, blk := 0, dirty := false, busy := .free, time := 0 }
      bufclock := 0
      disk := fun _ _ => ()
      uError := 0
      fault := fun _ => false
      xfers := 0 }
  granted := []
  released := []

/-- Two blocks are read and released in the other order. -/
def crossing : List Call := [.bread 0 0 true, .bread 0 1 true, .bfree 0 0, .bfree 1 0]

theorem cold_fresh : Fresh small cold := ⟨rfl, fun _ _ => rfl, rfl, rfl⟩

theorem crossing_run : ∃ h, Steps (called small) cold crossing h ∧ h.granted = [0, 1] ∧ h.released = [1, 0] ∧
    (∃ d, freebuf small h.cache = .ok (1, d)) ∧ unlocked small h.cache 0 := by
  have run : Steps (called small) cold crossing _ :=
    Steps.cons rfl (Steps.cons rfl (Steps.cons rfl (Steps.cons rfl (Steps.nil _))))
  refine ⟨_, run, rfl, rfl, ⟨_, rfl⟩, ⟨?_, rfl⟩⟩
  decide

/-- The buffer that was released last is given up, for the other was read after it. -/
theorem freebuf_not_released : ∃ (h h' : History Unit) (calls : List Call) (i : Nat) (d : Cache Unit),
    Fresh small h ∧ Steps (called small) h calls h' ∧ freebuf small h'.cache = .ok (i, d) ∧
      ∃ j, unlocked small h'.cache j ∧ ¬ h'.unused j % 2 ^ 16 ≤ h'.unused i % 2 ^ 16 := by
  obtain ⟨h, run, _, released, ⟨d, freed⟩, free⟩ := crossing_run
  refine ⟨cold, h, crossing, 1, d, cold_fresh, run, freed, 0, free, ?_⟩
  unfold History.unused
  rw [released]
  decide

theorem freebuf_oldest_crossing : ∃ h, Steps (called small) cold crossing h ∧
    (∃ d, freebuf small h.cache = .ok (1, d)) ∧ h.since 0 % 2 ^ 16 ≤ h.since 1 % 2 ^ 16 := by
  obtain ⟨h, run, _, _, ⟨d, freed⟩, free⟩ := crossing_run
  have oldest := ((freebuf_oldest cold_fresh run).1 1 d freed).2
  exact ⟨h, run, ⟨d, freed⟩, oldest (fun no => by cases no) 0 free⟩

end Devio
