import Mathlib.Tactic.Common

/-!
# Runs of a labelled transition system

A run is a list of labels, each with a step between the states before and after
it. What every step preserves holds at the end of every run.
-/

namespace Run

variable {σ ι : Type}

inductive Steps (step : σ → ι → σ → Prop) : σ → List ι → σ → Prop where
  | nil (s : σ) : Steps step s [] s
  | snoc {s t u : σ} {as : List ι} {a : ι} (before : Steps step s as t) (last : step t a u) :
      Steps step s (as ++ [a]) u

variable {step step' : σ → ι → σ → Prop} {s t u : σ} {as bs : List ι}

/-- An invariant of the steps is an invariant of the runs. -/
theorem Steps.keeps {I : σ → Prop} (preserved : ∀ s a t, I s → step s a t → I t)
    (run : Steps step s as t) (start : I s) : I t := by
  induction run with
  | nil => exact start
  | snoc _ last ih => exact preserved _ _ _ ih last

theorem Steps.cons {a : ι} (first : step s a t) (rest : Steps step t as u) :
    Steps step s (a :: as) u := by
  induction rest with
  | nil => exact Steps.snoc (Steps.nil s) first
  | snoc _ last ih => exact Steps.snoc ih last

/-- A run of a system is a run of one with more steps. -/
theorem Steps.mono (weaken : ∀ s a t, step s a t → step' s a t) (run : Steps step s as t) :
    Steps step' s as t := by
  induction run with
  | nil => exact Steps.nil _
  | snoc _ last ih => exact Steps.snoc ih (weaken _ _ _ last)

/-- A system whose steps are computed has one run for the labels. -/
theorem Steps.computed {f : σ → ι → σ} (run : Steps (fun s a t => f s a = t) s as t) : t = as.foldl f s := by
  induction run with
  | nil => rfl
  | snoc _ last ih => rw [List.foldl_append, ← ih, ← last, List.foldl_cons, List.foldl_nil]

/-! ## Loops that count -/

/-- `for (k = 0; k < n; k++)` with the body `f`. -/
def upTo (f : σ → Nat → σ) : Nat → σ → σ
  | 0, s => s
  | n + 1, s => f (upTo f n s) n

theorem upTo_keeps {f : σ → Nat → σ} {n : Nat} {I : Nat → σ → Prop} (start : I 0 s)
    (round : ∀ k s, k < n → I k s → I (k + 1) (f s k)) : I n (upTo f n s) := by
  induction n with
  | zero => exact start
  | succ n ih => exact round n _ (Nat.lt_succ_self n) (ih (fun k s less => round k s (by omega)))

/-! ## Runs of a function -/

section Throughout
variable {f : σ → ι → σ} {good good' : σ → ι → Prop}

/-- Each label of the list is `good` in the state it comes in. -/
def Throughout (f : σ → ι → σ) (good : σ → ι → Prop) : σ → List ι → Prop
  | _, [] => True
  | s, a :: as => good s a ∧ Throughout f good (f s a) as

def Throughout.decide [∀ s a, Decidable (good s a)] :
    ∀ s as, Decidable (Throughout f good s as)
  | _, [] => isTrue trivial
  | s, a :: as =>
    have := Throughout.decide (f s a) as
    inferInstanceAs (Decidable (good s a ∧ Throughout f good (f s a) as))

instance [∀ s a, Decidable (good s a)] (s : σ) (as : List ι) : Decidable (Throughout f good s as) :=
  Throughout.decide s as

theorem Throughout.keeps {I : σ → Prop} (preserved : ∀ s a, I s → good s a → I (f s a))
    (all : Throughout f good s as) (start : I s) : I (as.foldl f s) := by
  induction as generalizing s with
  | nil => exact start
  | cons a as ih => exact ih all.2 (preserved s a start all.1)

/-- Two conditions that agree where the invariant holds, which the steps that meet
them keep, are met by the same runs. -/
theorem throughout_iff {I : σ → Prop} (preserved : ∀ s a, I s → good s a → I (f s a))
    (agree : ∀ s a, I s → (good' s a ↔ good s a)) (start : I s) (as : List ι) :
    Throughout f good' s as ↔ Throughout f good s as := by
  induction as generalizing s with
  | nil => exact Iff.rfl
  | cons a as ih =>
    constructor
    · rintro ⟨first, rest⟩
      have fine := (agree s a start).mp first
      exact ⟨fine, (ih (preserved s a start fine)).mp rest⟩
    · rintro ⟨fine, rest⟩
      exact ⟨(agree s a start).mpr fine, (ih (preserved s a start fine)).mpr rest⟩

theorem throughout_append (bs : List ι) :
    Throughout f good s (as ++ bs) ↔ Throughout f good s as ∧ Throughout f good (as.foldl f s) bs := by
  induction as generalizing s with
  | nil => simp [Throughout]
  | cons a as ih => simp [Throughout, ih, and_assoc]

end Throughout

/-! ## Runs that are executed -/

section Perform
variable {apply : σ → ι → Option σ} {good : σ → ι → Prop} [∀ s a, Decidable (good s a)]

/-- The state after the labels, if each was good where it came. -/
def perform (apply : σ → ι → Option σ) (good : σ → ι → Prop) [∀ s a, Decidable (good s a)] :
    List ι → σ → Option σ
  | [], s => some s
  | a :: as, s => if good s a then (apply s a).bind (perform apply good as) else none

theorem perform_steps (done : perform apply good as s = some t) :
    Steps (fun s a t => good s a ∧ apply s a = some t) s as t := by
  induction as generalizing s with
  | nil =>
    injection done with same
    rw [same]
    exact Steps.nil t
  | cons a as ih =>
    unfold perform at done
    split at done
    · rename_i fine
      obtain ⟨u, first, rest⟩ := Option.bind_eq_some_iff.mp done
      exact Steps.cons ⟨fine, first⟩ (ih rest)
    · cases done

end Perform

end Run
