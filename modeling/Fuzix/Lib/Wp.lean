import Mathlib.Tactic.Common

/-!
# Weakest preconditions for stateful code that may stop

A program reads and changes a state, and may stop for good with a reason of
type `ε`. `wp stop m Q s` says what is known of `m` started in `s`: if it
stops, the reason satisfies `stop`; if it returns, the answer and the new state
satisfy `Q`. With `stop` true this is partial correctness, with `stop` false
it also says that the program returns.
-/

namespace Wp

variable {σ ε α β γ : Type}

def wp (stop : ε → Prop) (m : StateT σ (Except ε) α) (Q : α → σ → Prop)
    (s : σ) : Prop :=
  match m s with
  | .error e => stop e
  | .ok (a, t) => Q a t

theorem wp_mono {stop : ε → Prop} {m : StateT σ (Except ε) α}
    {Q R : α → σ → Prop} {s : σ} (h : wp stop m Q s)
    (weaken : ∀ a t, Q a t → R a t) : wp stop m R s := by
  unfold wp at h ⊢
  split at h
  · exact h
  · exact weaken _ _ h

theorem wp_stop_mono {stop stop' : ε → Prop} {m : StateT σ (Except ε) α}
    {Q : α → σ → Prop} {s : σ} (h : wp stop m Q s)
    (weaken : ∀ e, stop e → stop' e) : wp stop' m Q s := by
  unfold wp at h ⊢
  split at h
  · exact weaken _ h
  · exact h

theorem wp_and {stop : ε → Prop} {m : StateT σ (Except ε) α}
    {Q R : α → σ → Prop} {s : σ} (hq : wp stop m Q s) (hr : wp stop m R s) :
    wp stop m (fun a t => Q a t ∧ R a t) s := by
  unfold wp at *
  cases run : m s with
  | error e => simpa only [run] using hq
  | ok p => simp only [run] at hq hr ⊢; exact ⟨hq, hr⟩

/-- Two specifications of one program that allow different stops. -/
theorem wp_and_ok {stop stop' : ε → Prop} {m : StateT σ (Except ε) α}
    {Q R : α → σ → Prop} {s : σ} (hq : wp stop m Q s) (hr : wp stop' m R s) :
    wp stop m (fun a t => Q a t ∧ R a t) s := by
  unfold wp at *
  cases run : m s with
  | error e => simpa only [run] using hq
  | ok p => simp only [run] at hq hr ⊢; exact ⟨hq, hr⟩

/-- What a specification says about one run that returned. -/
theorem wp_ok {stop : ε → Prop} {m : StateT σ (Except ε) α}
    {Q : α → σ → Prop} {s t : σ} {a : α} (h : wp stop m Q s)
    (run : m s = .ok (a, t)) : Q a t := by
  simpa only [wp, run] using h

/-- A specification that allows no stop in particular. -/
theorem wp_every {m : StateT σ (Except ε) α} {Q : α → σ → Prop} {s t : σ} {a : α}
    (h : ∀ stop : ε → Prop, wp stop m Q s) (run : m s = .ok (a, t)) : Q a t :=
  wp_ok (h fun _ => True) run

/-- What holds after a program may use that the run took place. -/
theorem wp_run {stop : ε → Prop} {m : StateT σ (Except ε) α}
    {Q : α → σ → Prop} {s : σ} (h : wp stop m Q s) :
    wp stop m (fun a t => Q a t ∧ m s = .ok (a, t)) s := by
  unfold wp at *
  cases run : m s with
  | error e => simpa only [run] using h
  | ok p =>
    simp only [run] at h
    exact ⟨h, rfl⟩

/-- Every run of `m` from `s` that returns ends in `P`. -/
def After (m : StateT σ (Except ε) α) (s : σ) (P : α → σ → Prop) : Prop :=
  ∀ a t, m s = .ok (a, t) → P a t

theorem wp_after {stop : ε → Prop} {m : StateT σ (Except ε) α}
    {P Q : α → σ → Prop} {s : σ} (h : wp stop m Q s) (after : After m s P) :
    wp stop m (fun a t => Q a t ∧ P a t) s :=
  wp_mono (wp_run h) fun a t post => ⟨post.1, after a t post.2⟩

theorem wp_error {stop : ε → Prop} {m : StateT σ (Except ε) α}
    {Q : α → σ → Prop} {s : σ} {e : ε} (h : wp stop m Q s)
    (run : m s = .error e) : stop e := by
  simpa only [wp, run] using h

/-- Nothing is asked of a program that stops, nor of where one returns. -/
theorem wp_any {m : StateT σ (Except ε) α} {Q : α → σ → Prop} {s : σ} (h : ∀ a t, Q a t) :
    wp (fun _ => True) m Q s := by
  unfold wp
  split
  · trivial
  · exact h _ _

/-- With no stop allowed, the program returns. -/
theorem wp_returns {m : StateT σ (Except ε) α} {Q : α → σ → Prop} {s : σ}
    (h : wp (fun _ => False) m Q s) : ∃ a t, m s = .ok (a, t) ∧ Q a t := by
  unfold wp at h
  split at h
  · exact h.elim
  · rename_i a t run
    exact ⟨a, t, run, h⟩

/-- A program goes on where its first part returned. -/
theorem bind_run {m : StateT σ (Except ε) α} {f : α → StateT σ (Except ε) β} {s t : σ} {a : α}
    (run : m s = .ok (a, t)) : (m >>= f) s = f a t := by
  have bind : (m >>= f) s = (m s >>= fun p => f p.1 p.2) := rfl
  rw [bind, run]
  rfl

/-- It stops where its first part stopped. -/
theorem bind_stop {m : StateT σ (Except ε) α} {f : α → StateT σ (Except ε) β} {s : σ} {e : ε}
    (run : m s = .error e) : (m >>= f) s = .error e := by
  have bind : (m >>= f) s = (m s >>= fun p => f p.1 p.2) := rfl
  rw [bind, run]
  rfl

theorem wp_returned {stop : ε → Prop} {m : StateT σ (Except ε) α} {Q : α → σ → Prop} {s t : σ} {a : α}
    (run : m s = .ok (a, t)) : wp stop m Q s ↔ Q a t := by
  unfold wp
  rw [run]

section Rules
variable (stop : ε → Prop) (s : σ)

@[simp] theorem wp_pure (a : α) (Q : α → σ → Prop) :
    wp stop (pure a) Q s ↔ Q a s := Iff.rfl

@[simp] theorem wp_bind (m : StateT σ (Except ε) α)
    (f : α → StateT σ (Except ε) β) (Q : β → σ → Prop) :
    wp stop (m >>= f) Q s ↔ wp stop m (fun a t => wp stop (f a) Q t) s := by
  have run : (m >>= f) s = (m s >>= fun p => f p.1 p.2) := rfl
  simp only [wp, run]
  cases m s <;> rfl

@[simp] theorem wp_map (f : α → β) (m : StateT σ (Except ε) α)
    (Q : β → σ → Prop) :
    wp stop (f <$> m) Q s ↔ wp stop m (fun a t => Q (f a) t) s := by
  have run : (f <$> m) s = (m s >>= fun p => pure (f p.1, p.2)) := rfl
  simp only [wp, run]
  cases m s <;> rfl

@[simp] theorem wp_discard (m : StateT σ (Except ε) α) (Q : PUnit → σ → Prop) :
    wp stop (discard m) Q s ↔ wp stop m (fun _ t => Q ⟨⟩ t) s := by
  have run : discard m s = (m s >>= fun p => pure (⟨⟩, p.2)) := rfl
  simp only [wp, run]
  cases m s <;> rfl

@[simp] theorem wp_get (Q : σ → σ → Prop) :
    wp stop (get : StateT σ (Except ε) σ) Q s ↔ Q s s := Iff.rfl

@[simp] theorem wp_set (t : σ) (Q : PUnit → σ → Prop) :
    wp stop (set t : StateT σ (Except ε) PUnit) Q s ↔ Q ⟨⟩ t := Iff.rfl

@[simp] theorem wp_modify (f : σ → σ) (Q : PUnit → σ → Prop) :
    wp stop (modify f : StateT σ (Except ε) PUnit) Q s ↔ Q ⟨⟩ (f s) := Iff.rfl

@[simp] theorem wp_throw (e : ε) (Q : α → σ → Prop) :
    wp stop (throw e : StateT σ (Except ε) α) Q s ↔ stop e := Iff.rfl

@[simp] theorem wp_ite (c : Prop) [Decidable c] (m n : StateT σ (Except ε) α)
    (Q : α → σ → Prop) :
    wp stop (if c then m else n) Q s ↔
      (c → wp stop m Q s) ∧ (¬ c → wp stop n Q s) := by
  by_cases h : c <;> simp [h]

end Rules

/-! ## Relations that every run of a program keeps -/

/-- Every run of `m` that returns relates its first state to its last one, and
every other run stops with a reason that satisfies `stop`. -/
def Keeps (stop : ε → Prop) (R : σ → σ → Prop) (m : StateT σ (Except ε) α) : Prop :=
  ∀ s, wp stop m (fun _ t => R s t) s

section Keeps
variable {stop : ε → Prop} {R : σ → σ → Prop}

theorem Keeps.of_run {m : StateT σ (Except ε) α} (h : Keeps stop R m) {s t : σ}
    {a : α} (run : m s = .ok (a, t)) : R s t := by
  have hs := h s
  simpa only [wp, run] using hs

theorem Keeps.mono {stop' : ε → Prop} {S : σ → σ → Prop} {m : StateT σ (Except ε) α}
    (h : Keeps stop R m) (stops : ∀ e, stop e → stop' e)
    (weaken : ∀ s t, R s t → S s t) : Keeps stop' S m :=
  fun s => wp_stop_mono (wp_mono (h s) (fun _ t ht => weaken s t ht)) stops

theorem Keeps.bind [IsTrans σ R] {m : StateT σ (Except ε) α}
    {f : α → StateT σ (Except ε) β} (hm : Keeps stop R m)
    (hf : ∀ a, Keeps stop R (f a)) : Keeps stop R (m >>= f) := by
  intro s
  rw [wp_bind]
  refine wp_mono (hm s) (fun a t hst => ?_)
  exact wp_mono (hf a t) (fun _ u htu => trans_of R hst htu)

theorem Keeps.map {m : StateT σ (Except ε) α} (f : α → β) (h : Keeps stop R m) :
    Keeps stop R (f <$> m) := by
  intro s
  rw [wp_map]
  exact h s

theorem Keeps.ite {c : Prop} {_ : Decidable c} {m n : StateT σ (Except ε) α}
    (hm : Keeps stop R m) (hn : Keeps stop R n) : Keeps stop R (if c then m else n) := by
  by_cases h : c
  · simpa only [if_pos h] using hm
  · simpa only [if_neg h] using hn

theorem Keeps.pure [Std.Refl R] (a : α) :
    Keeps stop R (pure a : StateT σ (Except ε) α) :=
  fun s => refl_of R s

theorem Keeps.get [Std.Refl R] :
    Keeps stop R (get : StateT σ (Except ε) σ) :=
  fun s => refl_of R s

theorem Keeps.throw {e : ε} (h : stop e) :
    Keeps stop R (throw e : StateT σ (Except ε) α) :=
  fun _ => h

theorem Keeps.modify {f : σ → σ} (h : ∀ s, R s (f s)) :
    Keeps stop R (modify f : StateT σ (Except ε) PUnit) :=
  fun s => h s

end Keeps

end Wp
