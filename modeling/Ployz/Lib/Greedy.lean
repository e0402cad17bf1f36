import Mathlib.Data.List.Sort
import Mathlib.Data.List.Induction

/-!
# Growing a set one element at a time

`grow` goes through a list and keeps an element where the set with it is accepted. What it leaves
out was refused beside what it had then: `grow_refuses` finds, in every larger set, the part up to
some element of the list that is refused.
-/

namespace Ployz.Greedy

variable {α : Type*} [Ord α] [Std.TransOrd α] [Std.LawfulEqOrd α]

/-- `set` and the elements of a list that are accepted on top of what is there. -/
def grow (accepts : Std.TreeSet α → Bool) (set : Std.TreeSet α) (list : List α) : Std.TreeSet α :=
  list.foldl (fun set x => if accepts (set.insert x) then set.insert x else set) set

variable {accepts : Std.TreeSet α → Bool}

omit [Std.TransOrd α] [Std.LawfulEqOrd α] in
theorem grow_accepts {set : Std.TreeSet α} (h : accepts set = true) (list : List α) :
    accepts (grow accepts set list) = true := by
  induction list generalizing set with
  | nil => exact h
  | cons x list ih =>
    rw [grow, List.foldl_cons]
    split
    · next hx => exact ih hx
    · exact ih h

omit [Std.LawfulEqOrd α] in
theorem subset_grow {set : Std.TreeSet α} (list : List α) {x : α} (h : x ∈ set) :
    x ∈ grow accepts set list := by
  induction list generalizing set with
  | nil => exact h
  | cons y list ih =>
    rw [grow, List.foldl_cons]
    split
    · exact ih (Std.TreeSet.mem_insert.mpr (.inr h))
    · exact ih h

theorem mem_of_mem_grow {set : Std.TreeSet α} {list : List α} {x : α}
    (h : x ∈ grow accepts set list) : x ∈ set ∨ x ∈ list := by
  induction list generalizing set with
  | nil => exact .inl h
  | cons y list ih =>
    rw [grow, List.foldl_cons] at h
    split at h
    · rcases ih h with h | h
      · rcases Std.TreeSet.mem_insert.mp h with h | h
        · exact .inr (by simp [Std.LawfulEqOrd.eq_of_compare h])
        · exact .inl h
      · exact .inr (List.mem_cons_of_mem _ h)
    · exact (ih h).imp_right (List.mem_cons_of_mem _)

/-- A set larger than what was grown has a part, up to some element, that is refused. -/
theorem grow_refuses {set larger : Std.TreeSet α} {list : List α}
    (hgrown : ∀ x ∈ grow accepts set list, x ∈ larger)
    (hwithin : ∀ x ∈ larger, x ∈ set ∨ x ∈ list)
    (hmore : ∃ x ∈ larger, x ∉ grow accepts set list) :
    ∃ before x after part, list = before ++ x :: after ∧ x ∈ larger ∧
      (∀ y, y ∈ part ↔ y ∈ set ∨ y ∈ larger ∧ y ∈ before ++ [x]) ∧ accepts part = false := by
  induction list generalizing set with
  | nil =>
    obtain ⟨x, hx, hnot⟩ := hmore
    exact absurd ((hwithin x hx).resolve_right List.not_mem_nil) hnot
  | cons y list ih =>
    have hinsert (z : α) : z ∈ set.insert y ↔ z ∈ set ∨ z = y := by
      rw [Std.TreeSet.mem_insert, Std.LawfulEqOrd.compare_eq_iff_eq]
      exact ⟨fun h => h.symm.imp_right Eq.symm, fun h => h.symm.imp_left Eq.symm⟩
    by_cases haccept : accepts (set.insert y) = true
    · have hgrow : grow accepts set (y :: list) = grow accepts (set.insert y) list := by
        rw [grow, List.foldl_cons, if_pos haccept]
        rfl
      rw [hgrow] at hgrown hmore
      have hy : y ∈ larger := hgrown y (subset_grow list ((hinsert y).mpr (.inr rfl)))
      obtain ⟨before, x, after, part, rfl, hx, hpart, hrefused⟩ := ih hgrown (fun z hz => by
        rcases hwithin z hz with h | h
        · exact .inl ((hinsert z).mpr (.inl h))
        · rcases List.mem_cons.mp h with h | h
          · exact .inl ((hinsert z).mpr (.inr h))
          · exact .inr h) hmore
      refine ⟨y :: before, x, after, part, rfl, hx, fun z => ?_, hrefused⟩
      rw [hpart, hinsert, List.cons_append, List.mem_cons]
      grind
    · have hgrow : grow accepts set (y :: list) = grow accepts set list := by
        rw [grow, List.foldl_cons, if_neg haccept]
        rfl
      rw [hgrow] at hgrown hmore
      by_cases hy : y ∈ larger
      · refine ⟨[], y, list, set.insert y, rfl, hy, fun z => ?_, by simpa using haccept⟩
        rw [hinsert, List.nil_append, List.mem_singleton]
        grind
      · obtain ⟨before, x, after, part, rfl, hx, hpart, hrefused⟩ := ih hgrown (fun z hz => by
          rcases hwithin z hz with h | h
          · exact .inl h
          · rcases List.mem_cons.mp h with rfl | h
            · exact absurd hz hy
            · exact .inr h) hmore
        refine ⟨y :: before, x, after, part, rfl, hx, fun z => ?_, hrefused⟩
        rw [hpart, List.cons_append, List.mem_cons]
        grind

end Ployz.Greedy
