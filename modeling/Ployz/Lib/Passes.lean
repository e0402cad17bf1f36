import Mathlib.Logic.Relation
import Mathlib.Tactic.Common

/-!
# Passes until nothing changes

A step may change a state for each item of a list. `closeOver` goes through the list again and again
until a whole pass changes nothing. Where every change makes a measure smaller the passes end
(`closeOver_ends`), in a state reached by changes and without a change left to make.
-/

namespace Ployz.Passes

open Relation

variable {σ α : Type*}

/-- One pass: the state after it, and whether some step changed it. -/
def pass (step : α → σ → Option σ) : List α → σ → Bool → σ × Bool
  | [], state, changed => (state, changed)
  | item :: rest, state, changed =>
    match step item state with
    | some later => pass step rest later true
    | none => pass step rest state changed

/-- Passes until one changes nothing, unless there are more than so many. -/
def closeOver (step : α → σ → Option σ) (items : List α) : Nat → σ → Option σ
  | 0, _ => none
  | passes + 1, state =>
    let after := pass step items state false
    if after.2 then closeOver step items passes after.1 else some after.1

/-- A change made for one of the items. -/
def Changes (step : α → σ → Option σ) (items : List α) (state later : σ) : Prop :=
  ∃ item ∈ items, step item state = some later

variable {step : α → σ → Option σ} {items : List α} {measure : σ → Nat}

/-- What a pass leaves is reached by changes; it is what was there only if no step changes it. -/
structure Passed (step : α → σ → Option σ) (items rest : List α) (measure : σ → Nat) (state : σ)
    (changed : Bool) (after : σ × Bool) : Prop where
  reached : ReflTransGen (Changes step items) state after.1
  le : measure after.1 ≤ measure state
  lt : after.2 = true → changed = true ∨ measure after.1 < measure state
  stuck : after.2 = false → changed = false ∧ after.1 = state ∧
    ∀ item ∈ rest, step item state = none

theorem passed (hmeasure : ∀ state later, Changes step items state later →
      measure later < measure state) {rest : List α} (hrest : rest ⊆ items) (state : σ)
    (changed : Bool) :
    Passed step items rest measure state changed (pass step rest state changed) := by
  induction rest generalizing state changed with
  | nil => exact ⟨.refl, Nat.le_refl _, .inl, fun h => ⟨h, rfl, by simp⟩⟩
  | cons item rest ih =>
    obtain ⟨hitem, hrest⟩ := List.cons_subset.mp hrest
    rw [pass]
    cases hstep : step item state with
    | some later =>
      have hchange : Changes step items state later := ⟨item, hitem, hstep⟩
      obtain ⟨hreached, hle, -, hstuck⟩ := ih hrest later true
      have hless := Nat.lt_of_le_of_lt hle (hmeasure state later hchange)
      refine ⟨.head hchange hreached, Nat.le_of_lt hless, fun _ => .inr hless, fun h => ?_⟩
      exact absurd (hstuck h).1 (by simp)
    | none =>
      obtain ⟨hreached, hle, hlt, hstuck⟩ := ih hrest state changed
      refine ⟨hreached, hle, hlt, fun h => ?_⟩
      obtain ⟨hchanged, hsame, hnone⟩ := hstuck h
      exact ⟨hchanged, hsame, List.forall_mem_cons.mpr ⟨hstep, hnone⟩⟩

/-- Where changes make a measure smaller, passes end with nothing left to change. -/
theorem closeOver_ends (hmeasure : ∀ state later, Changes step items state later →
      measure later < measure state) (state : σ) :
    ∃ last, (∀ passes, measure state < passes → closeOver step items passes state = some last) ∧
      ReflTransGen (Changes step items) state last ∧ ∀ item ∈ items, step item last = none := by
  obtain ⟨hreached, -, hlt, hstuck⟩ := passed hmeasure (List.Subset.refl items) state false
  have hone (passes : Nat) : closeOver step items (passes + 1) state =
      if (pass step items state false).2 then
        closeOver step items passes (pass step items state false).1
      else some (pass step items state false).1 := rfl
  cases hchanged : (pass step items state false).2 with
  | true =>
    have hless := (hlt hchanged).resolve_left (by simp)
    obtain ⟨last, hlast, hmore, hnone⟩ := closeOver_ends hmeasure (pass step items state false).1
    refine ⟨last, fun passes hpasses => ?_, hreached.trans hmore, hnone⟩
    obtain ⟨fewer, rfl⟩ : ∃ fewer, passes = fewer + 1 := ⟨passes - 1, by omega⟩
    rw [hone, if_pos hchanged]
    exact hlast fewer (by omega)
  | false =>
    obtain ⟨-, hsame, hnone⟩ := hstuck hchanged
    refine ⟨state, fun passes hpasses => ?_, .refl, hnone⟩
    obtain ⟨fewer, rfl⟩ : ∃ fewer, passes = fewer + 1 := ⟨passes - 1, by omega⟩
    rw [hone, hchanged, hsame]
    rfl
termination_by measure state

end Ployz.Passes
