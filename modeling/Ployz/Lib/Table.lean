import Mathlib.Data.List.Sort
import Mathlib.Data.List.Induction

/-!
# Ordered tables

What a table built from a list of entries holds: the last entry of each key. And what a
range of an ordered list is: the entries from a bound on, as long as a condition holds.
-/

namespace Ployz.Table

open Std (TreeMap TransCmp LawfulEqCmp ReflCmp)

variable {α β : Type*} {cmp : α → α → Ordering} [TransCmp cmp] [LawfulEqCmp cmp]

/-- A table holds the last entry of each key. -/
theorem getElem?_ofList [DecidableEq α] (l : List (α × β)) (k : α) :
    (TreeMap.ofList l cmp)[k]? = (l.reverse.find? (·.1 == k)).map (·.2) := by
  rw [TreeMap.ofList_eq_insertMany_empty]
  induction l using List.reverseRecOn with
  | nil => simp
  | append_singleton l x ih =>
    obtain ⟨k', v⟩ := x
    rw [TreeMap.insertMany_append, TreeMap.insertMany_list_singleton, TreeMap.getElem?_insert, ih,
      List.reverse_append, List.reverse_singleton, List.singleton_append, List.find?_cons]
    by_cases hk : k' = k
    · simp [hk]
    · simp [hk, LawfulEqCmp.compare_eq_iff_eq, beq_false_of_ne hk]

theorem getElem?_ofList_eq_some {l : List (α × β)} (hl : (l.map (·.1)).Nodup) {k : α} {v : β} :
    (TreeMap.ofList l cmp)[k]? = some v ↔ (k, v) ∈ l := by
  classical
  constructor
  · rw [getElem?_ofList, Option.map_eq_some_iff]
    rintro ⟨⟨k', v'⟩, hfind, rfl⟩
    have hk : k' = k := by simpa using List.find?_some hfind
    exact hk ▸ List.mem_reverse.mp (List.mem_of_find?_eq_some hfind)
  · refine TreeMap.getElem?_ofList_of_mem ReflCmp.compare_self ?_
    rw [List.Nodup, List.pairwise_map] at hl
    exact hl.imp fun h => by rwa [LawfulEqCmp.compare_eq_iff_eq]

/-- A table built from values that their keys determine. -/
theorem getElem?_ofList_map {γ : Type*} {key : γ → α} {value : γ → β} {xs : List γ}
    (hxs : ∀ x ∈ xs, ∀ y ∈ xs, key x = key y → value x = value y) {x : γ} (hx : x ∈ xs) :
    (TreeMap.ofList (xs.map fun x => (key x, value x)) cmp)[key x]? = some (value x) := by
  classical
  rw [getElem?_ofList]
  have hsome : ((xs.map fun x => (key x, value x)).reverse.find? (·.1 == key x)).isSome := by
    rw [List.find?_isSome]
    exact ⟨(key x, value x), by simpa using ⟨x, hx, rfl, rfl⟩, by simp⟩
  obtain ⟨found, hfound⟩ := Option.isSome_iff_exists.mp hsome
  obtain ⟨y, hy, rfl⟩ : ∃ y ∈ xs, (key y, value y) = found := by
    simpa using List.mem_of_find?_eq_some hfound
  have hkey : key y = key x := by simpa using List.find?_some hfound
  rw [hfound, Option.map_some, hxs y hy x hx hkey]

theorem getElem?_ofList_map_none {γ : Type*} {key : γ → α} {value : γ → β} {xs : List γ} {k : α}
    (hk : ∀ x ∈ xs, key x ≠ k) :
    (TreeMap.ofList (xs.map fun x => (key x, value x)) cmp)[k]? = none := by
  classical
  rw [getElem?_ofList, Option.map_eq_none_iff, List.find?_eq_none]
  simpa using hk

/-- Entries of `prior` that `p` holds of, put over `next`. -/
theorem getElem?_insertMany_filter (prior next : TreeMap α β cmp) (p : β → Bool) (k : α) :
    (next.insertMany (prior.toList.filter fun entry => p entry.2))[k]? =
      (prior[k]?.filter p).or next[k]? := by
  classical
  cases h : prior[k]?.filter p with
  | some v =>
    obtain ⟨hk, hv⟩ := Option.filter_eq_some_iff.mp h
    refine TreeMap.getElem?_insertMany_list_of_mem ReflCmp.compare_self ?_ (v := v) ?_
    · exact TreeMap.distinct_keys_toList.sublist List.filter_sublist
    · exact List.mem_filter.mpr ⟨TreeMap.mem_toList_iff_getElem?_eq_some.mpr hk, hv⟩
  | none =>
    refine TreeMap.getElem?_insertMany_list_of_contains_eq_false ?_
    rw [List.contains_eq_mem, decide_eq_false_iff_not, List.mem_map]
    rintro ⟨⟨k', v⟩, hmem, rfl⟩
    obtain ⟨hmem, hv⟩ := List.mem_filter.mp hmem
    have hk := TreeMap.mem_toList_iff_getElem?_eq_some.mp hmem
    have hsome : prior[k']?.filter p = some v := Option.filter_eq_some_iff.mpr ⟨hk, hv⟩
    exact Option.some_ne_none v (hsome.symm.trans h)

theorem toList_eq_of_getElem? {t t' : TreeMap α β cmp} (h : ∀ k : α, t[k]? = t'[k]?) :
    t.toList = t'.toList :=
  (TreeMap.Equiv.of_forall_constGet?_eq h).toList_eq

/-! ## Ranges of an ordered list -/

section Range

variable {γ : Type*} [LinearOrder γ] (key : β → γ)

theorem dropWhile_lt_eq_filter {l : List β} (hl : l.Pairwise fun a b => key a < key b) (a : γ) :
    l.dropWhile (key · < a) = l.filter (a ≤ key ·) := by
  induction l with
  | nil => rfl
  | cons x xs ih =>
    obtain ⟨hx, hxs⟩ := List.pairwise_cons.mp hl
    by_cases ha : key x < a
    · simp [ha, ih hxs]
    · have hall : ∀ y ∈ xs, a ≤ key y := fun y hy => (not_lt.mp ha).trans (hx y hy).le
      rw [List.dropWhile_cons_of_neg (by simpa using ha), eq_comm, List.filter_eq_self]
      rintro y (_ | ⟨_, hy⟩)
      · simpa using ha
      · simpa using hall y hy

/-- A condition that fails for good once it fails is a range. -/
theorem takeWhile_eq_filter {l : List β} (hl : l.Pairwise fun a b => key a < key b) {p : β → Bool}
    (hp : ∀ x ∈ l, ∀ y ∈ l, key x < key y → p y = true → p x = true) :
    l.takeWhile p = l.filter p := by
  induction l with
  | nil => rfl
  | cons x xs ih =>
    obtain ⟨hx, hxs⟩ := List.pairwise_cons.mp hl
    by_cases hpx : p x = true
    · have := ih hxs fun a ha b hb => hp a (by simp [ha]) b (by simp [hb])
      simp [hpx, this]
    · have hnone : ∀ y ∈ xs, ¬ p y = true := fun y hy hpy =>
        hpx (hp x (by simp) y (by simp [hy]) (hx y hy) hpy)
      simpa [hpx] using hnone

end Range

/-! ## Sorting by rank -/

section Rank

variable {γ : Type*} [LinearOrder γ] {rank : β → γ} {p : β → Bool}

theorem filter_append_filter_not {l : List β}
    (h : l.Pairwise fun a b => p b = true → p a = true) :
    l.filter p ++ l.filter (fun x => !p x) = l := by
  induction l with
  | nil => rfl
  | cons x xs ih =>
    obtain ⟨hx, hxs⟩ := List.pairwise_cons.mp h
    by_cases hp : p x = true
    · simp [hp, ih hxs]
    · have hnone : ∀ y ∈ xs, ¬p y = true := fun y hy hpy => hp (hx y hy hpy)
      have hall : xs.filter (fun x => !p x) = xs := List.filter_eq_self.mpr (by simpa using hnone)
      simp [hp, List.filter_eq_nil_iff.mpr hnone, hall]

/-- A sort by a rank that is lower where `p` holds puts what `p` holds of first. -/
theorem insertionSort_split (rank : β → γ) (p : β → Bool)
    (hp : ∀ a b, p a = true → p b = false → rank a < rank b) (l : List β) :
    ∃ firsts rests, firsts.Perm (l.filter p) ∧ rests.Perm (l.filter fun x => !p x) ∧
      (l.insertionSort fun a b => rank a ≤ rank b) = firsts ++ rests := by
  have hperm := List.perm_insertionSort (fun a b => rank a ≤ rank b) l
  refine ⟨_, _, hperm.filter p, hperm.filter fun x => !p x, (filter_append_filter_not ?_).symm⟩
  refine (List.pairwise_insertionSort (fun a b => rank a ≤ rank b) l).imp fun {a b} hab hb => ?_
  by_contra ha
  exact absurd (hp b a hb (by simpa using ha)) (not_lt.mpr hab)

/-- If the rest has one rank, it stays in the order it was in. -/
theorem insertionSort_rank (rank : β → γ) (p : β → Bool)
    (hp : ∀ a b, p a = true → p b = false → rank a < rank b)
    (hrest : ∀ a b, p a = false → p b = false → rank a ≤ rank b) (l : List β) :
    ∃ firsts, firsts.Perm (l.filter p) ∧
      (l.insertionSort fun a b => rank a ≤ rank b) = firsts ++ l.filter fun x => !p x := by
  obtain ⟨firsts, rests, hfirsts, hrests, hsort⟩ := insertionSort_split rank p hp l
  refine ⟨firsts, hfirsts, ?_⟩
  have hsub : (l.filter fun x => !p x).Sublist (firsts ++ rests) := by
    rw [← hsort]
    refine List.sublist_insertionSort ?_ List.filter_sublist
    refine List.pairwise_of_forall_mem_list fun a ha b hb => ?_
    exact hrest a b (by simpa using List.of_mem_filter ha) (by simpa using List.of_mem_filter hb)
  have hnone : firsts.filter (fun x => !p x) = [] := by
    rw [List.filter_eq_nil_iff]
    intro x hx
    simpa using List.of_mem_filter (hfirsts.mem_iff.mp hx)
  have hself : (l.filter fun x => !p x).Sublist (rests.filter fun x => !p x) := by
    simpa [List.filter_filter, List.filter_append, hnone] using hsub.filter fun x => !p x
  have heq : (l.filter fun x => !p x) = rests :=
    (hself.trans List.filter_sublist).eq_of_length hrests.length_eq.symm
  rw [hsort, heq]

end Rank

end Ployz.Table
