import Mathlib.Data.List.MinMax
import Mathlib.Data.List.Sort
import Mathlib.Data.List.Dedup
import Mathlib.Data.Prod.Lex

/-!
# Choices that do not depend on the order of a list

The greatest element of a list by a key, the least one, and a list sorted by a key. Where the key
tells the elements of a list apart, none of them depends on how the list is ordered
(`lastMax_perm`, `sortBy_perm`); without that, only the least key does not (`map_argmin_perm`).
-/

namespace Ployz.Ranked

variable {α β : Type*} [LinearOrder β] {f : α → β} {xs ys : List α}

def lastMax (f : α → β) (xs : List α) : Option α := xs.reverse.argmax f

theorem lastMax_eq_none : lastMax f xs = none ↔ xs = [] := by
  simp [lastMax, List.argmax_eq_none]

theorem lastMax_mem {x : α} (h : lastMax f xs = some x) : x ∈ xs :=
  List.mem_reverse.mp (List.argmax_mem h)

theorem le_lastMax {x y : α} (h : lastMax f xs = some x) (hy : y ∈ xs) : f y ≤ f x :=
  List.le_of_mem_argmax (List.mem_reverse.mpr hy) h

theorem lastMax_perm (hkey : ∀ x ∈ xs, ∀ y ∈ xs, f x = f y → x = y) (hperm : xs.Perm ys) :
    lastMax f xs = lastMax f ys := by
  cases hx : lastMax f xs with
  | none =>
    rw [lastMax_eq_none] at hx
    subst hx
    rw [List.nil_perm.mp hperm]
    rfl
  | some x =>
    cases hy : lastMax f ys with
    | none =>
      rw [lastMax_eq_none] at hy
      subst hy
      rw [hperm.eq_nil] at hx
      cases hx
    | some y =>
      have hxy : f y ≤ f x := le_lastMax hx (hperm.mem_iff.mpr (lastMax_mem hy))
      have hyx : f x ≤ f y := le_lastMax hy (hperm.mem_iff.mp (lastMax_mem hx))
      exact congrArg some (hkey x (lastMax_mem hx) y (hperm.mem_iff.mpr (lastMax_mem hy))
        (le_antisymm hyx hxy))

theorem map_argmin_perm (hperm : xs.Perm ys) : (xs.argmin f).map f = (ys.argmin f).map f := by
  cases hx : xs.argmin f with
  | none =>
    rw [List.argmin_eq_none] at hx
    subst hx
    rw [List.nil_perm.mp hperm]
    rfl
  | some x =>
    cases hy : ys.argmin f with
    | none =>
      rw [List.argmin_eq_none] at hy
      subst hy
      rw [hperm.eq_nil] at hx
      cases hx
    | some y =>
      have hxy : f x ≤ f y := List.le_of_mem_argmin (hperm.mem_iff.mpr (List.argmin_mem hy)) hx
      have hyx : f y ≤ f x := List.le_of_mem_argmin (hperm.mem_iff.mp (List.argmin_mem hx)) hy
      exact congrArg some (le_antisymm hxy hyx)

def sortBy (f : α → β) (xs : List α) : List α := xs.insertionSort fun x y => f x ≤ f y

theorem perm_sortBy (f : α → β) (xs : List α) : (sortBy f xs).Perm xs := List.perm_insertionSort _ _

@[simp] theorem mem_sortBy {x : α} : x ∈ sortBy f xs ↔ x ∈ xs := (perm_sortBy f xs).mem_iff

theorem pairwise_sortBy (f : α → β) (xs : List α) :
    (sortBy f xs).Pairwise fun x y => f x ≤ f y := by
  have : Std.Total fun x y : α => f x ≤ f y := ⟨fun x y => le_total (f x) (f y)⟩
  have : IsTrans α fun x y => f x ≤ f y := ⟨fun _ _ _ => le_trans⟩
  exact List.pairwise_insertionSort _ xs

theorem sortBy_perm (hkey : ∀ x ∈ xs, ∀ y ∈ xs, f x = f y → x = y) (hperm : xs.Perm ys) :
    sortBy f xs = sortBy f ys := by
  refine List.Perm.eq_of_pairwise ?_ (pairwise_sortBy f xs) (pairwise_sortBy f ys) ?_
  · intro x y hx hy hxy hyx
    have hy' : y ∈ xs := hperm.mem_iff.mpr (mem_sortBy.mp hy)
    exact hkey x (mem_sortBy.mp hx) y hy' (le_antisymm hxy hyx)
  · exact ((perm_sortBy f xs).trans hperm).trans (perm_sortBy f ys).symm

end Ployz.Ranked
