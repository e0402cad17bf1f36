import Mathlib.Data.List.Nodup
import Mathlib.Data.List.Basic

/-!
# Lists read by key

A table kept as a list: what is found under a key, changing the first entry under a key,
removing a key and adding an entry at the end. An update that keeps every key reads back
under its own key and leaves every other key alone.
-/

namespace Ployz.Keyed

variable {α κ β : Type*}

def modifyFirst (p : α → Bool) (f : α → α) : List α → List α
  | [] => []
  | x :: xs => if p x then f x :: xs else x :: modifyFirst p f xs

variable {p : α → Bool} {f : α → α}

theorem map_modifyFirst {g : α → β} (hg : ∀ x, g (f x) = g x) (xs : List α) :
    (modifyFirst p f xs).map g = xs.map g := by
  induction xs with
  | nil => rfl
  | cons x xs ih =>
    rw [modifyFirst]
    split <;> simp [hg, ih]

variable {xs : List α}

theorem modifyFirst_of_find_none (h : xs.find? p = none) : modifyFirst p f xs = xs := by
  induction xs with
  | nil => rfl
  | cons x xs ih =>
    rw [List.find?_eq_none, List.forall_mem_cons, ← List.find?_eq_none] at h
    simp [modifyFirst, h.1, ih h.2]

theorem mem_modifyFirst {y : α} (hy : y ∈ modifyFirst p f xs) :
    y ∈ xs ∨ ∃ x ∈ xs, p x = true ∧ y = f x := by
  induction xs with
  | nil => simp [modifyFirst] at hy
  | cons x xs ih =>
    rw [modifyFirst] at hy
    split at hy
    · next hx =>
      rcases List.mem_cons.mp hy with rfl | hy
      · exact .inr ⟨x, by simp, hx, rfl⟩
      · exact .inl (by simp [hy])
    · rcases List.mem_cons.mp hy with rfl | hy
      · exact .inl (by simp)
      · rcases ih hy with h | ⟨z, hz, hp, rfl⟩
        · exact .inl (by simp [h])
        · exact .inr ⟨z, by simp [hz], hp, rfl⟩

theorem modifyFirst_modifyFirst {f g : α → α} (hf : ∀ x, p (f x) = p x) (xs : List α) :
    modifyFirst p g (modifyFirst p f xs) = modifyFirst p (g ∘ f) xs := by
  induction xs with
  | nil => rfl
  | cons x xs ih =>
    by_cases hx : p x = true
    · simp [modifyFirst, hx, hf]
    · simp [modifyFirst, hx, ih]

section Key

variable [DecidableEq κ] {key : α → κ}

theorem find_modifyFirst_self (hf : ∀ x, key (f x) = key x) (k : κ) (xs : List α) :
    (modifyFirst (key · == k) f xs).find? (key · == k) = (xs.find? (key · == k)).map f := by
  induction xs with
  | nil => rfl
  | cons x xs ih =>
    rw [modifyFirst]
    by_cases hx : key x = k
    · simp [hx, hf]
    · simp [hx, ih]

theorem find_modifyFirst_of_ne (hf : ∀ x, key (f x) = key x) {k k' : κ} (hk : k' ≠ k)
    (xs : List α) :
    (modifyFirst (key · == k) f xs).find? (key · == k') = xs.find? (key · == k') := by
  induction xs with
  | nil => rfl
  | cons x xs ih =>
    rw [modifyFirst]
    by_cases hx : key x = k
    · simp [hx, hf, hk.symm]
    · simp [hx, ih, List.find?_cons]

theorem find_filter_self (k : κ) (xs : List α) :
    (xs.filter (key · != k)).find? (key · == k) = none := by
  simp

theorem find_filter_of_ne {k k' : κ} (hk : k' ≠ k) (xs : List α) :
    (xs.filter (key · != k)).find? (key · == k') = xs.find? (key · == k') := by
  induction xs with
  | nil => rfl
  | cons x xs ih =>
    by_cases hx : key x = k
    · simp [hx, hk.symm, ih]
    · simp [hx, ih, List.find?_cons]

/-- With no key twice, what is found under a key is what is there. -/
theorem find_eq_some_iff (hxs : (xs.map key).Nodup) {k : κ} {x : α} :
    xs.find? (key · == k) = some x ↔ x ∈ xs ∧ key x = k := by
  constructor
  · intro h
    exact ⟨List.mem_of_find?_eq_some h, by simpa using List.find?_some h⟩
  · rintro ⟨hx, rfl⟩
    induction xs with
    | nil => simp at hx
    | cons y ys ih =>
      simp only [List.map_cons, List.nodup_cons, List.mem_map, not_exists, not_and] at hxs
      rcases List.mem_cons.mp hx with rfl | hx
      · simp
      · have hne : key y ≠ key x := fun h => hxs.1 x hx h.symm
        rw [List.find?_cons, beq_false_of_ne hne]
        exact ih hxs.2 hx

theorem not_mem_of_find {k : κ} (h : xs.find? (key · == k) = none) : k ∉ xs.map key := by
  simpa [List.find?_eq_none] using h

theorem find_reverse (hxs : (xs.map key).Nodup) (k : κ) :
    xs.reverse.find? (key · == k) = xs.find? (key · == k) := by
  have hrev : (xs.reverse.map key).Nodup := by rwa [List.map_reverse, List.nodup_reverse]
  ext x
  rw [find_eq_some_iff hrev, find_eq_some_iff hxs, List.mem_reverse]

theorem nodup_filter_append (h : (xs.map key).Nodup) (x : α) :
    ((xs.filter (key · != key x) ++ [x]).map key).Nodup := by
  rw [List.map_append, List.map_singleton, List.nodup_append]
  refine ⟨h.sublist (List.filter_sublist.map key), by simp, ?_⟩
  simp only [List.mem_map, List.mem_filter, bne_iff_ne, List.mem_singleton]
  rintro _ ⟨y, ⟨-, hy⟩, rfl⟩ _ rfl
  exact hy

end Key

end Ployz.Keyed
