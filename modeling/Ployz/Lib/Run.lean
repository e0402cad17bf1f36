import Mathlib.Data.List.Forall2
import Mathlib.Tactic.Common

/-!
# Fallible computations

Rules for programs in `Except`: what a successful sequence, list or fold went through,
and normalisers, whose results are their own fixed points.

Main results:

* `bind_eq_ok`, `mapM_eq_ok`, `forM_eq_ok` take a success apart;
* `foldlM_invariant` is the invariant rule for a loop with an early exit;
* `Lockstep.bind` and `Lockstep.foldlM` carry a relation through two runs of one program;
* `Normalizes.mapM` and `Normalizes.option` carry a normaliser to lists and options.
-/

namespace Ployz.Run

universe u v w

variable {ε : Type u} {α β : Type v}

/-! ## Taking a success apart -/

variable {x : Except ε α} {f : α → Except ε β}

@[simp] theorem bind_eq_ok {b : β} : (x >>= f) = .ok b ↔ ∃ a, x = .ok a ∧ f a = .ok b := by
  cases x with
  | error e => simp [bind, Except.bind]
  | ok a => simp [bind, Except.bind]

@[simp] theorem map_eq_ok {f : α → β} {b : β} : (f <$> x) = .ok b ↔ ∃ a, x = .ok a ∧ f a = b := by
  cases x with
  | error e => simp [Functor.map, Except.map]
  | ok a => simp [Functor.map, Except.map]

@[simp] theorem pure_eq_ok {a b : α} : (pure a : Except ε α) = .ok b ↔ a = b := by
  simp [pure, Except.pure]

@[simp] theorem throw_ne_ok {e : ε} {b : α} : (throw e : Except ε α) ≠ .ok b := by
  simp [throw, throwThe, MonadExceptOf.throw]

theorem ok_bind (a : α) (f : α → Except ε β) : (Except.ok a >>= f) = f a := rfl

@[simp] theorem mapError_eq_ok {ε' : Type*} {f : ε → ε'} {a : α} :
    x.mapError f = .ok a ↔ x = .ok a := by
  cases x with
  | error e => simp [Except.mapError]
  | ok b => simp [Except.mapError]

/-- A success went past every check before it. -/
theorem guard_eq_ok {c : Prop} [Decidable c] {e : ε} {f : PUnit → Except ε α} {b : α} :
    (if c then throw e >>= f else x) = .ok b ↔ ¬ c ∧ x = .ok b := by
  by_cases hc : c <;> simp [hc]

/-- Whether a computation succeeds with what `p` holds of. -/
def succeeds (x : Except ε α) (p : α → Prop) [DecidablePred p] : Bool :=
  match x with
  | .ok a => p a
  | .error _ => false

theorem exists_ok (p : α → Prop) [DecidablePred p] (h : succeeds x p = true) :
    ∃ a, x = .ok a ∧ p a := by
  cases x with
  | error e => cases h
  | ok a => exact ⟨a, rfl, of_decide_eq_true h⟩

theorem ne_ok_of_isOk (h : x.isOk = false) (a : α) : x ≠ .ok a := by
  rintro rfl
  cases h

variable {xs : List α} {ys : List β}

theorem mapM_eq_ok : xs.mapM f = .ok ys ↔ List.Forall₂ (fun x y => f x = .ok y) xs ys := by
  induction xs generalizing ys with
  | nil => rw [List.mapM_nil, pure_eq_ok, List.forall₂_nil_left_iff, eq_comm]
  | cons x xs ih =>
    simp only [List.mapM_cons, bind_eq_ok, pure_eq_ok, ih, List.forall₂_cons_left_iff]
    constructor
    · rintro ⟨y, hy, zs, hzs, rfl⟩
      exact ⟨y, zs, hy, hzs, rfl⟩
    · rintro ⟨y, zs, hy, hzs, rfl⟩
      exact ⟨y, hy, zs, hzs, rfl⟩

theorem exists_of_mem_right {R : α → β → Prop} (h : List.Forall₂ R xs ys) {y : β} (hy : y ∈ ys) :
    ∃ x ∈ xs, R x y := by
  induction h with
  | nil => cases hy
  | cons hxy _ ih =>
    rcases List.mem_cons.mp hy with rfl | hy
    · exact ⟨_, List.mem_cons_self, hxy⟩
    · obtain ⟨x, hx, hR⟩ := ih hy
      exact ⟨x, List.mem_cons_of_mem _ hx, hR⟩

theorem exists_of_mem_mapM (h : xs.mapM f = .ok ys) {y : β} (hy : y ∈ ys) : ∃ x ∈ xs, f x = .ok y :=
  exists_of_mem_right (mapM_eq_ok.mp h) hy

theorem exists_ok_of_mem_mapM (h : xs.mapM f = .ok ys) {x : α} (hx : x ∈ xs) :
    ∃ y ∈ ys, f x = .ok y :=
  exists_of_mem_right (mapM_eq_ok.mp h).flip hx

theorem mapM_same {f f' : α → Except ε β} {xs ys : List α}
    (h : List.Forall₂ (fun x y => f x = f' y) xs ys) : xs.mapM f = ys.mapM f' := by
  induction h with
  | nil => rfl
  | cons hxy _ ih => rw [List.mapM_cons, List.mapM_cons, hxy, ih]

theorem forM_eq_ok {f : α → Except ε PUnit.{w + 1}} {u : PUnit} :
    forM xs f = .ok u ↔ ∀ x ∈ xs, f x = .ok ⟨⟩ := by
  induction xs with
  | nil => simp only [List.forM_nil, pure_eq_ok, List.not_mem_nil, false_imp_iff, implies_true]
  | cons x xs ih =>
    simp only [List.forM_cons, bind_eq_ok, ih, List.mem_cons, forall_eq_or_imp]
    exact ⟨fun ⟨_, hx, hxs⟩ => ⟨hx, hxs⟩, fun ⟨hx, hxs⟩ => ⟨_, hx, hxs⟩⟩

/-- The invariant rule for a loop that may stop early: `P` holds of what is left to do
and the state, each step of a run that ends well keeps it, so it holds when nothing is
left. -/
theorem foldlM_invariant {f : β → α → Except ε β} {P : List α → β → Prop} {final : β}
    (step : ∀ x xs b b', P (x :: xs) b → f b x = .ok b' → xs.foldlM f b' = .ok final → P xs b')
    {b : β} (hb : P xs b) (h : xs.foldlM f b = .ok final) : P [] final := by
  induction xs generalizing b with
  | nil => simp only [List.foldlM_nil, pure_eq_ok] at h; exact h ▸ hb
  | cons x xs ih =>
    simp only [List.foldlM_cons, bind_eq_ok] at h
    obtain ⟨c, hc, h⟩ := h
    exact ih (step x xs b c hb hc h) h

theorem foldlM_exists {f : β → α → Except ε β} {P : List α → β → Prop}
    (step : ∀ x xs b, P (x :: xs) b → ∃ b', f b x = .ok b' ∧ P xs b') {b : β} (hb : P xs b) :
    ∃ final, xs.foldlM f b = .ok final ∧ P [] final := by
  induction xs generalizing b with
  | nil => exact ⟨b, rfl, hb⟩
  | cons x xs ih =>
    obtain ⟨c, hc, hP⟩ := step x xs b hb
    obtain ⟨final, hfinal, hP⟩ := ih hP
    exact ⟨final, by rw [List.foldlM_cons, bind_eq_ok]; exact ⟨c, hc, hfinal⟩, hP⟩

/-! ## Two runs in step -/

/-- Two computations fail in the same way or both succeed, with results that `R` relates. -/
def Lockstep (R : α → β → Prop) : Except ε α → Except ε β → Prop
  | .ok a, .ok b => R a b
  | .error e, .error e' => e = e'
  | _, _ => False

namespace Lockstep

variable {α' β' : Type v} {R : α → α' → Prop} {S : β → β' → Prop}

theorem bind {x' : Except ε α'} {f' : α' → Except ε β'} (h : Lockstep R x x')
    (hf : ∀ a a', R a a' → Lockstep S (f a) (f' a')) : Lockstep S (x >>= f) (x' >>= f') := by
  cases x with
  | error e => cases x' with
    | error e' => exact h
    | ok a' => exact h.elim
  | ok a => cases x' with
    | error e' => exact h.elim
    | ok a' => exact hf a a' h

theorem foldlM {f : α → β → Except ε α} {f' : α' → β → Except ε α'} {xs : List β}
    (hf : ∀ x ∈ xs, ∀ a a', R a a' → Lockstep R (f a x) (f' a' x)) {a : α} {a' : α'}
    (h : R a a') : Lockstep R (xs.foldlM f a) (xs.foldlM f' a') := by
  induction xs generalizing a a' with
  | nil => exact h
  | cons x xs ih =>
    rw [List.foldlM_cons, List.foldlM_cons]
    apply bind (hf x List.mem_cons_self a a' h)
    intro b b' hb
    exact ih (fun y hy => hf y (List.mem_cons_of_mem _ hy)) hb

theorem of_ok {x' : Except ε α'} (h : Lockstep R x x') {a : α} (hx : x = .ok a) :
    ∃ a', x' = .ok a' ∧ R a a' := by
  subst hx
  cases x' with
  | error e' => exact h.elim
  | ok a' => exact ⟨a', rfl, h⟩

end Lockstep

/-! ## Normalisers -/

/-- A fallible normaliser: what it returns it takes, unchanged. -/
def Normalizes (f : α → Except ε α) : Prop := ∀ ⦃x y⦄, f x = .ok y → f y = .ok y

/-- A normaliser on an optional value. -/
def option (f : α → Except ε α) : Option α → Except ε (Option α)
  | none => pure none
  | some x => some <$> f x

theorem Normalizes.option {f : α → Except ε α} (hf : Normalizes f) : Normalizes (option f) := by
  rintro (_ | x) y h
  · simp only [Run.option, pure_eq_ok] at h
    rw [← h, Run.option]
    rfl
  · simp only [Run.option, map_eq_ok] at h
    obtain ⟨z, hz, rfl⟩ := h
    simp [Run.option, hf hz]

end Ployz.Run
