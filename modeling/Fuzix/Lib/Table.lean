import Mathlib.Tactic.Common

/-!
# Tables

An array of a C program is a function of its index. `put` stores into one
entry, `put₂` into one entry of a two-dimensional table.
-/

namespace Table

variable {α β γ : Type} [DecidableEq α] [DecidableEq γ]

def put (f : α → β) (a : α) (b : β) : α → β := fun x => if x = a then b else f x

@[grind =] theorem put_apply (f : α → β) (a : α) (b : β) (x : α) :
    put f a b x = if x = a then b else f x := rfl

@[simp] theorem put_same (f : α → β) (a : α) (b : β) : put f a b a = b := by
  simp [put]

@[simp] theorem put_ne (f : α → β) {a x : α} (b : β) (h : x ≠ a) :
    put f a b x = f x := by
  simp [put, h]

@[simp] theorem put_put (f : α → β) (a : α) (b c : β) :
    put (put f a b) a c = put f a c := by
  funext x
  by_cases h : x = a <;> simp [put, h]

theorem put_comm (f : α → β) {a b : α} (x y : β) (h : a ≠ b) :
    put (put f a x) b y = put (put f b y) a x := by
  funext z
  by_cases ha : z = a
  · subst ha
    simp [put, h]
  · simp [put, ha]

/-- Storing what is there already changes nothing. -/
@[simp] theorem put_self (f : α → β) (a : α) : put f a (f a) = f := by
  funext x
  by_cases h : x = a
  · subst h
    simp
  · simp [h]

def put₂ (f : α → γ → β) (a : α) (c : γ) (b : β) : α → γ → β :=
  fun x y => if x = a ∧ y = c then b else f x y

@[grind =] theorem put₂_apply (f : α → γ → β) (a : α) (c : γ) (b : β) (x : α) (y : γ) :
    put₂ f a c b x y = if x = a ∧ y = c then b else f x y := rfl

@[simp] theorem put₂_same (f : α → γ → β) (a : α) (c : γ) (b : β) :
    put₂ f a c b a c = b := by
  simp [put₂]

theorem put₂_ne (f : α → γ → β) {a x : α} {c y : γ} (b : β)
    (h : ¬ (x = a ∧ y = c)) : put₂ f a c b x y = f x y := by
  simp [put₂, h]

end Table
