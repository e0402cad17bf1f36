import Mathlib.Data.List.Basic

/-!
# A fair semaphore

A counting semaphore that serves its waiters in the order they came: permits that come back go to
the waiters first, so a permit is free only while nobody waits (`Fair`). Each operation is given
with the waiters it serves.
-/

namespace Ployz

universe u

structure Semaphore (α : Type u) where
  available : Nat
  queue : List α

namespace Semaphore

variable {α : Type u} {s : Semaphore α}

def new (permits : Nat) : Semaphore α := ⟨permits, []⟩

/-- Take a permit, or wait for one. -/
def acquire (a : α) (s : Semaphore α) : Semaphore α × List α :=
  if 0 < s.available then (⟨s.available - 1, s.queue⟩, [a]) else (⟨s.available, s.queue ++ [a]⟩, [])

/-- Give permits to the first waiters, and keep the rest. -/
def addPermits (n : Nat) (s : Semaphore α) : Semaphore α × List α :=
  (⟨s.available + (n - s.queue.length), s.queue.drop n⟩, s.queue.take n)

/-- Take free permits away for good, up to `n`, and say how many there were. -/
def forgetPermits (n : Nat) (s : Semaphore α) : Semaphore α × Nat :=
  (⟨s.available - n, s.queue⟩, min n s.available)

def cancel [DecidableEq α] (a : α) (s : Semaphore α) : Semaphore α :=
  { s with queue := s.queue.erase a }

/-- A permit is free only while nobody waits. -/
def Fair (s : Semaphore α) : Prop := 0 < s.available → s.queue = []

theorem Fair.new (permits : Nat) : (new permits : Semaphore α).Fair := fun _ => rfl

theorem Fair.acquire (h : s.Fair) (a : α) : (s.acquire a).1.Fair := by
  unfold Semaphore.acquire
  split
  · next hpos => exact fun _ => h hpos
  · next hzero => exact fun hpos => absurd hpos hzero

theorem Fair.addPermits (h : s.Fair) (n : Nat) : (s.addPermits n).1.Fair := by
  intro hpos
  simp only [Semaphore.addPermits] at hpos ⊢
  by_cases hempty : s.queue = []
  · rw [hempty, List.drop_nil]
  · have hzero : s.available = 0 := Nat.eq_zero_of_not_pos fun hpos => hempty (h hpos)
    exact List.drop_eq_nil_iff.mpr (by omega)

theorem Fair.forgetPermits (h : s.Fair) (n : Nat) : (s.forgetPermits n).1.Fair :=
  fun hpos => h (Nat.lt_of_lt_of_le hpos (Nat.sub_le _ _))

theorem Fair.cancel [DecidableEq α] (h : s.Fair) (a : α) : (s.cancel a).Fair := by
  intro hpos
  simp only [Semaphore.cancel, h hpos, List.erase_nil]

theorem available_addPermits (n : Nat) :
    (s.addPermits n).1.available + (s.addPermits n).2.length = s.available + n := by
  simp only [addPermits, List.length_take]
  omega

theorem available_acquire (a : α) :
    (s.acquire a).1.available + (s.acquire a).2.length = s.available := by
  unfold acquire
  split
  · next hpos => simp [Nat.sub_add_cancel hpos]
  · simp

theorem available_forgetPermits (n : Nat) :
    (s.forgetPermits n).1.available + (s.forgetPermits n).2 = s.available := by
  simp only [forgetPermits]
  omega

theorem served_append_queue (n : Nat) : (s.addPermits n).2 ++ (s.addPermits n).1.queue = s.queue :=
  List.take_append_drop n s.queue

end Semaphore

end Ployz
