import Mathlib.Tactic.Common

/-!
# Runs of a step function

What holds at every step of a run: `Along step P s xs` says that `P` holds of each state with the
input met there. `along_append` takes a run apart, and `along_iff` reads it as a statement about
every prefix of the run.
-/

namespace Ployz.Trace

universe u v

variable {σ : Type u} {α : Type v} {step : σ → α → σ} {P Q : σ → α → Prop}

/-- `P` holds of every state of a run with the input that follows it. -/
def Along (step : σ → α → σ) (P : σ → α → Prop) : σ → List α → Prop
  | _, [] => True
  | s, x :: xs => P s x ∧ Along step P (step s x) xs

@[simp] theorem along_nil (s : σ) : Along step P s [] := trivial

@[simp] theorem along_cons {s : σ} {x : α} {xs : List α} :
    Along step P s (x :: xs) ↔ P s x ∧ Along step P (step s x) xs := Iff.rfl

theorem along_append {s : σ} {xs ys : List α} :
    Along step P s (xs ++ ys) ↔ Along step P s xs ∧ Along step P (xs.foldl step s) ys := by
  induction xs generalizing s with
  | nil => simp
  | cons x xs ih => simp [ih, and_assoc]

theorem along_iff {s : σ} {xs : List α} :
    Along step P s xs ↔ ∀ before x after, xs = before ++ x :: after →
      P (before.foldl step s) x := by
  constructor
  · rintro h before x after rfl
    exact (along_append.mp h).2.1
  · intro h
    induction xs generalizing s with
    | nil => trivial
    | cons x xs ih =>
      refine ⟨h [] x xs rfl, ih fun before y after hsplit => ?_⟩
      exact h (x :: before) y after (by rw [hsplit, List.cons_append])

end Ployz.Trace
