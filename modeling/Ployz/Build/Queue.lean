import Ployz.Lib.Semaphore
import Ployz.Lib.Trace
import Mathlib.Data.PNat.Defs

/-!
# The Build queue of a Machine

A Machine runs as many Builds at once as its build concurrency says. Builds take permits of a fair
semaphore; a lowered limit forgets free permits and records the rest as debt, which finishing Builds
pay by forgetting their permits.

A dropped slot reads the debt under a lock and returns its permit after the lock is gone, and a
waiter that was handed a permit returns it without reading the debt. Between any two of these steps
the limit may be lowered. `concurrency_respected_iff` says that this is all that can go wrong: a run
keeps the limit exactly if no permit comes back to the semaphore while debt is owed. In those runs
too no Build waits for a permit that nobody holds (`no_build_waits_alone`).
-/

namespace Ployz.Build

/-- The Builds of a Machine are numbered as they arrive. -/
abbrev Arrival := Nat

/-- The queue, and where each Build that has come stands: waiting in the semaphore, handed a permit
it has not taken up, in a slot, or dropping a slot whose permit is not back yet. -/
structure Runner where
  active : Semaphore Arrival
  size : Nat
  debt : Nat
  /-- Free places of the waiting queue. -/
  waiting : Nat
  /-- Waiters that hold a place of the waiting queue. -/
  placed : List Arrival
  handed : List Arrival
  slots : List Arrival
  returning : List Arrival
  arrivals : Nat
  /-- Builds in the order the semaphore gave them permits. -/
  admitted : List Arrival
  stopping : Bool

def Runner.new (queueCapacity : Nat) : Runner where
  active := .new 1
  size := 1
  debt := 0
  waiting := queueCapacity
  placed := []
  handed := []
  slots := []
  returning := []
  arrivals := 0
  admitted := []
  stopping := false

namespace Runner

/-- Permits go back to the semaphore; waiters it serves have them handed. -/
def addPermits (n : Nat) (runner : Runner) : Runner :=
  let (active, served) := runner.active.addPermits n
  { runner with active, handed := runner.handed ++ served, admitted := runner.admitted ++ served }

/-- The limit changes: a raise pays debt first, and a lowering takes the permits that are free and
owes the rest. -/
def resize (limit : ℕ+) (runner : Runner) : Runner :=
  if (limit : Nat) = runner.size then runner
  else if runner.size < limit then
    let grow := limit - runner.size
    let repaid := min grow runner.debt
    { runner with debt := runner.debt - repaid, size := limit }.addPermits (grow - repaid)
  else
    let shrink := runner.size - limit
    let (active, forgotten) := runner.active.forgetPermits shrink
    { runner with active, debt := runner.debt + (shrink - forgotten), size := limit }

/-- A Build asks for a slot: it has one at once, or is enrolled with the semaphore. -/
def enter (runner : Runner) : Runner :=
  if runner.stopping then runner
  else
    let (active, served) := runner.active.acquire runner.arrivals
    { runner with
      active, slots := runner.slots ++ served, admitted := runner.admitted ++ served
      arrivals := runner.arrivals + 1 }

/-- The place of a waiter that stops waiting is free again. -/
def unplace (build : Arrival) (runner : Runner) : Runner :=
  if build ∈ runner.placed then
    { runner with placed := runner.placed.erase build, waiting := runner.waiting + 1 }
  else runner

/-- A waiter is given up; a permit it was handed goes back. -/
def leave (build : Arrival) (runner : Runner) : Runner :=
  if build ∈ runner.handed then
    ({ runner with handed := runner.handed.erase build }.addPermits 1).unplace build
  else { runner with active := runner.active.cancel build }.unplace build

/-- An enrolled waiter takes a place of the waiting queue, or is refused. -/
def place (build : Arrival) (runner : Runner) : Runner :=
  if build ∈ runner.active.queue ∨ build ∈ runner.handed then
    if runner.waiting = 0 then runner.leave build
    else { runner with waiting := runner.waiting - 1, placed := runner.placed ++ [build] }
  else runner

/-- A waiter takes up the permit it was handed. -/
def admitBuild (build : Arrival) (runner : Runner) : Runner :=
  if build ∈ runner.handed then
    { runner with
      handed := runner.handed.erase build
      slots := runner.slots ++ [build] }.unplace build
  else runner

/-- A slot is dropped: under the lock it pays debt with its permit, if any is owed. -/
def drop (build : Arrival) (runner : Runner) : Runner :=
  if build ∈ runner.slots then
    if 0 < runner.debt then
      { runner with slots := runner.slots.erase build, debt := runner.debt - 1 }
    else
      { runner with
        slots := runner.slots.erase build, returning := runner.returning ++ [build] }
  else runner

/-- The permit of a dropped slot goes back, after the lock is gone. -/
def release (build : Arrival) (runner : Runner) : Runner :=
  if build ∈ runner.returning then
    { runner with returning := runner.returning.erase build }.addPermits 1
  else runner

end Runner

/-! ## Runs -/

inductive Event
  | enter
  | place (build : Arrival)
  | leave (build : Arrival)
  | admitBuild (build : Arrival)
  | drop (build : Arrival)
  | release (build : Arrival)
  | resize (limit : ℕ+)
  | shutdown

def Runner.step (runner : Runner) : Event → Runner
  | .enter => runner.enter
  | .place build => runner.place build
  | .leave build => runner.leave build
  | .admitBuild build => runner.admitBuild build
  | .drop build => runner.drop build
  | .release build => runner.release build
  | .resize limit => runner.resize limit
  | .shutdown => { runner with stopping := true }

/-- The slots that are held: permits handed to a waiter, in use, or on their way back. -/
def Runner.held (runner : Runner) : Nat :=
  runner.slots.length + runner.handed.length + runner.returning.length

/-- What the queue promises of each state. -/
structure Runner.Sound (runner : Runner) : Prop where
  balance : runner.active.available + runner.held - runner.debt = (runner.size : Int)
  debt : 0 < runner.debt → runner.active.available = 0
  order : runner.admitted.Pairwise (· < ·)

/-- What the queue promises of each step: a Build is admitted only into a slot the limit has. -/
def Runner.Bounded (runner : Runner) (event : Event) : Prop :=
  (runner.step event).admitted ≠ runner.admitted →
    (runner.step event).held ≤ (runner.step event).size

/-- A permit comes back to the semaphore: from a dropped slot that found no debt, or from a waiter
that was handed it and leaves or finds no place. -/
inductive Runner.Returns (runner : Runner) : Event → Prop
  | release (build : Arrival) (h : build ∈ runner.returning) : Returns runner (.release build)
  | leave (build : Arrival) (h : build ∈ runner.handed) : Returns runner (.leave build)
  | refused (build : Arrival) (h : build ∈ runner.handed) (hfull : runner.waiting = 0) :
      Returns runner (.place build)

/-! ## What every step keeps -/

variable {event : Event}

namespace Runner

/-- What holds in every run: permits are free, held or owed, and nobody overtakes. -/
structure Kept (runner : Runner) : Prop where
  balance : runner.active.available + runner.held = runner.size + runner.debt
  fair : runner.active.Fair
  order : (runner.admitted ++ runner.active.queue).Pairwise (· < ·)
  arrived : ∀ build ∈ runner.admitted ++ runner.active.queue, build < runner.arrivals

/-- A permit is owed only while none is free. -/
def Owing (runner : Runner) : Prop := 0 < runner.debt → runner.active.available = 0

variable {runner : Runner} {build : Arrival}

theorem kept_new (queueCapacity : Nat) : (new queueCapacity).Kept where
  balance := rfl
  fair := Semaphore.Fair.new 1
  order := .nil
  arrived := by simp [new, Semaphore.new]

/-- Permits come to a queue that is out of balance by just as many. -/
theorem Kept.addPermits {n : Nat}
    (hbalance : runner.active.available + runner.held + n = runner.size + runner.debt)
    (hfair : runner.active.Fair)
    (horder : (runner.admitted ++ runner.active.queue).Pairwise (· < ·))
    (harrived : ∀ build ∈ runner.admitted ++ runner.active.queue, build < runner.arrivals) :
    (runner.addPermits n).Kept := by
  have hserved : (runner.addPermits n).admitted ++ (runner.addPermits n).active.queue =
      runner.admitted ++ runner.active.queue := by
    simp only [Runner.addPermits, List.append_assoc, Semaphore.served_append_queue]
  refine ⟨?_, hfair.addPermits n, ?_, ?_⟩
  · have havailable := Semaphore.available_addPermits (s := runner.active) n
    simp only [Runner.addPermits, held, List.length_append] at hbalance ⊢
    omega
  · rwa [hserved]
  · rwa [hserved]

@[simp] theorem active_unplace : (runner.unplace build).active = runner.active := by
  unfold unplace
  split <;> rfl

@[simp] theorem held_unplace : (runner.unplace build).held = runner.held := by
  unfold unplace
  split <;> rfl

@[simp] theorem size_unplace : (runner.unplace build).size = runner.size := by
  unfold unplace
  split <;> rfl

@[simp] theorem debt_unplace : (runner.unplace build).debt = runner.debt := by
  unfold unplace
  split <;> rfl

@[simp] theorem admitted_unplace : (runner.unplace build).admitted = runner.admitted := by
  unfold unplace
  split <;> rfl

@[simp] theorem arrivals_unplace : (runner.unplace build).arrivals = runner.arrivals := by
  unfold unplace
  split <;> rfl

@[simp] theorem handed_unplace : (runner.unplace build).handed = runner.handed := by
  unfold unplace
  split <;> rfl

theorem Kept.unplace (h : runner.Kept) : (runner.unplace build).Kept :=
  ⟨by simpa using h.balance, by simpa using h.fair, by simpa using h.order,
    by simpa using h.arrived⟩

theorem length_erase {build : Arrival} {builds : List Arrival} (h : build ∈ builds) :
    (builds.erase build).length + 1 = builds.length := by
  rw [List.length_erase_of_mem h, Nat.sub_add_cancel (List.length_pos_of_mem h)]

theorem Kept.leave (h : runner.Kept) : (runner.leave build).Kept := by
  unfold Runner.leave
  split
  · next hmem =>
    apply Kept.unplace
    refine Kept.addPermits ?_ h.fair h.order h.arrived
    have hbalance := h.balance
    have herase := length_erase hmem
    simp only [held] at hbalance ⊢
    omega
  · have hsub : (runner.admitted ++ (runner.active.cancel build).queue).Sublist
        (runner.admitted ++ runner.active.queue) :=
      (List.Sublist.refl _).append List.erase_sublist
    refine Kept.unplace ⟨h.balance, h.fair.cancel build, h.order.sublist hsub, ?_⟩
    exact fun other hother => h.arrived other (hsub.subset hother)

theorem Kept.place (h : runner.Kept) : (runner.place build).Kept := by
  unfold Runner.place
  split
  · split
    · exact h.leave
    · exact ⟨h.balance, h.fair, h.order, h.arrived⟩
  · exact h

theorem Kept.admitBuild (h : runner.Kept) : (runner.admitBuild build).Kept := by
  unfold Runner.admitBuild
  split
  · next hmem =>
    refine Kept.unplace ⟨?_, h.fair, h.order, h.arrived⟩
    have hbalance := h.balance
    have herase := length_erase hmem
    simp only [held, List.length_append, List.length_singleton] at hbalance ⊢
    omega
  · exact h

theorem Kept.drop (h : runner.Kept) : (runner.drop build).Kept := by
  unfold Runner.drop
  split
  · next hmem =>
    have hbalance := h.balance
    have herase := length_erase hmem
    split
    · refine ⟨?_, h.fair, h.order, h.arrived⟩
      simp only [held] at hbalance ⊢
      omega
    · refine ⟨?_, h.fair, h.order, h.arrived⟩
      simp only [held, List.length_append, List.length_singleton] at hbalance ⊢
      omega
  · exact h

theorem Kept.release (h : runner.Kept) : (runner.release build).Kept := by
  unfold Runner.release
  split
  · next hmem =>
    refine Kept.addPermits ?_ h.fair h.order h.arrived
    have hbalance := h.balance
    have herase := length_erase hmem
    simp only [held] at hbalance ⊢
    omega
  · exact h

theorem Kept.enter (h : runner.Kept) : runner.enter.Kept := by
  unfold Runner.enter
  split
  · exact h
  · have hbalance := h.balance
    have havailable := Semaphore.available_acquire (s := runner.active) runner.arrivals
    have hlast : (runner.admitted ++ runner.active.queue ++ [runner.arrivals]).Pairwise (· < ·) :=
      List.pairwise_append.mpr ⟨h.order, List.pairwise_singleton _ _, by simpa using h.arrived⟩
    -- The newcomer comes last: it is served only if nobody waits.
    have hserved : runner.admitted ++ (runner.active.acquire runner.arrivals).2 ++
        (runner.active.acquire runner.arrivals).1.queue =
          runner.admitted ++ runner.active.queue ++ [runner.arrivals] := by
      unfold Semaphore.acquire
      split
      · next hpos => simp [h.fair hpos]
      · simp
    refine ⟨?_, h.fair.acquire _, ?_, ?_⟩
    · simp only [held, List.length_append] at hbalance ⊢
      omega
    · simpa only [hserved] using hlast
    · intro build hbuild
      simp only [hserved, List.mem_append, List.mem_singleton] at hbuild
      rcases hbuild with hbuild | rfl
      · exact (h.arrived build (List.mem_append.mpr hbuild)).trans (Nat.lt_succ_self _)
      · exact Nat.lt_succ_self _

theorem Kept.resize (h : runner.Kept) (limit : ℕ+) : (runner.resize limit).Kept := by
  have hbalance := h.balance
  unfold Runner.resize
  split
  · exact h
  · split
    · refine Kept.addPermits ?_ h.fair h.order h.arrived
      simp only [held] at hbalance ⊢
      omega
    · have hforgotten := Semaphore.available_forgetPermits (s := runner.active)
        (runner.size - limit)
      refine ⟨?_, h.fair.forgetPermits _, h.order, h.arrived⟩
      simp only [held, Semaphore.forgetPermits] at hbalance hforgotten ⊢
      omega

theorem Kept.step (h : runner.Kept) (event : Event) : (runner.step event).Kept := by
  cases event with
  | enter => exact h.enter
  | place build => exact h.place
  | leave build => exact h.leave
  | admitBuild build => exact h.admitBuild
  | drop build => exact h.drop
  | release build => exact h.release
  | resize limit => exact h.resize limit
  | shutdown => exact ⟨h.balance, h.fair, h.order, h.arrived⟩

theorem Kept.sound (h : runner.Kept) (howing : runner.Owing) : runner.Sound where
  balance := by
    have hbalance := h.balance
    omega
  debt := howing
  order := h.order.sublist (List.sublist_append_left _ _)

/-! ## Debt -/

/-- No permit comes back while debt is owed. -/
def Settled (runner : Runner) (event : Event) : Prop := runner.Returns event → runner.debt = 0

theorem available_leave (hmem : build ∉ runner.handed) :
    (runner.leave build).active.available = runner.active.available ∧
      (runner.leave build).admitted = runner.admitted := by
  simp [leave, hmem, Semaphore.cancel]

theorem debt_leave : (runner.leave build).debt = runner.debt := by
  unfold leave
  split
  · rw [debt_unplace]
    rfl
  · rw [debt_unplace]

/-! While debt is owed after an operation, no permit is free and no Build has been admitted. -/

theorem Owing.enter (h : runner.Owing) (hdebt : 0 < runner.enter.debt) :
    runner.enter.active.available = 0 ∧ runner.enter.admitted = runner.admitted := by
  unfold Runner.enter at hdebt ⊢
  split at hdebt
  · next hstopping =>
    rw [if_pos hstopping]
    exact ⟨h hdebt, rfl⟩
  · next hstopping =>
    rw [if_neg hstopping]
    simp [Semaphore.acquire, h hdebt]

theorem Owing.leave (h : runner.Owing) (hsettled : build ∈ runner.handed → runner.debt = 0)
    (hdebt : 0 < (runner.leave build).debt) :
    (runner.leave build).active.available = 0 ∧
      (runner.leave build).admitted = runner.admitted := by
  rw [debt_leave] at hdebt
  obtain ⟨havailable, hadmitted⟩ := available_leave fun hmem => hdebt.ne' (hsettled hmem)
  exact ⟨havailable.trans (h hdebt), hadmitted⟩

theorem Owing.place (h : runner.Owing)
    (hsettled : build ∈ runner.handed → runner.waiting = 0 → runner.debt = 0)
    (hdebt : 0 < (runner.place build).debt) :
    (runner.place build).active.available = 0 ∧
      (runner.place build).admitted = runner.admitted := by
  unfold Runner.place at hdebt ⊢
  split at hdebt
  · next hwaits =>
    rw [if_pos hwaits]
    split at hdebt
    · next hfull =>
      rw [if_pos hfull]
      exact h.leave (fun hmem => hsettled hmem hfull) hdebt
    · next hfull =>
      rw [if_neg hfull]
      exact ⟨h hdebt, rfl⟩
  · next hwaits =>
    rw [if_neg hwaits]
    exact ⟨h hdebt, rfl⟩

theorem Owing.admitBuild (h : runner.Owing) (hdebt : 0 < (runner.admitBuild build).debt) :
    (runner.admitBuild build).active.available = 0 ∧
      (runner.admitBuild build).admitted = runner.admitted := by
  unfold Runner.admitBuild at hdebt ⊢
  split at hdebt
  · next hmem =>
    rw [debt_unplace] at hdebt
    rw [if_pos hmem, active_unplace, admitted_unplace]
    exact ⟨h hdebt, rfl⟩
  · next hmem =>
    rw [if_neg hmem]
    exact ⟨h hdebt, rfl⟩

theorem Owing.drop (h : runner.Owing) (hdebt : 0 < (runner.drop build).debt) :
    (runner.drop build).active.available = 0 ∧
      (runner.drop build).admitted = runner.admitted := by
  have hactive : (runner.drop build).active = runner.active ∧
      (runner.drop build).admitted = runner.admitted ∧
      (runner.drop build).debt ≤ runner.debt := by
    unfold Runner.drop
    split
    · split
      · exact ⟨rfl, rfl, Nat.sub_le ..⟩
      · exact ⟨rfl, rfl, le_rfl⟩
    · exact ⟨rfl, rfl, le_rfl⟩
  rw [hactive.1]
  exact ⟨h (hdebt.trans_le hactive.2.2), hactive.2.1⟩

theorem Owing.release (h : runner.Owing) (hsettled : build ∈ runner.returning → runner.debt = 0)
    (hdebt : 0 < (runner.release build).debt) :
    (runner.release build).active.available = 0 ∧
      (runner.release build).admitted = runner.admitted := by
  unfold Runner.release at hdebt ⊢
  split at hdebt
  · next hmem => exact absurd (hsettled hmem) hdebt.ne'
  · next hmem =>
    rw [if_neg hmem]
    exact ⟨h hdebt, rfl⟩

theorem Owing.resize (h : runner.Owing) {limit : ℕ+} (hdebt : 0 < (runner.resize limit).debt) :
    (runner.resize limit).active.available = 0 ∧
      (runner.resize limit).admitted = runner.admitted := by
  unfold Runner.resize at hdebt ⊢
  split at hdebt
  · next hsame =>
    rw [if_pos hsame]
    exact ⟨h hdebt, rfl⟩
  · next hsame =>
    rw [if_neg hsame]
    split at hdebt
    · next hgrows =>
      -- Permits are given out only after the debt is paid.
      have hleft : 0 < runner.debt - min (limit - runner.size) runner.debt := hdebt
      have hnone : (limit : Nat) - runner.size - min (limit - runner.size) runner.debt = 0 := by
        omega
      have hzero := h (by omega)
      rw [if_pos hgrows]
      simp [Runner.addPermits, Semaphore.addPermits, hnone, hzero]
    · next hgrows =>
      rw [if_neg hgrows]
      refine ⟨?_, rfl⟩
      simp only [Semaphore.forgetPermits] at hdebt ⊢
      rcases Nat.eq_zero_or_pos runner.debt with hpaid | howed
      · omega
      · rw [h howed, Nat.zero_sub]

theorem Owing.step_owing (h : runner.Owing) {event : Event} (hsettled : runner.Settled event)
    (hdebt : 0 < (runner.step event).debt) :
    (runner.step event).active.available = 0 ∧
      (runner.step event).admitted = runner.admitted := by
  cases event with
  | enter => exact h.enter hdebt
  | place build => exact h.place (fun hmem hfull => hsettled (.refused build hmem hfull)) hdebt
  | leave build => exact h.leave (fun hmem => hsettled (.leave build hmem)) hdebt
  | admitBuild build => exact h.admitBuild hdebt
  | drop build => exact h.drop hdebt
  | release build => exact h.release (fun hmem => hsettled (.release build hmem)) hdebt
  | resize limit => exact h.resize hdebt
  | shutdown => exact ⟨h hdebt, rfl⟩

/-- A step that owes nothing it gives back leaves a permit free only where nothing is owed. -/
theorem Owing.step (h : runner.Owing) {event : Event} (hsettled : runner.Settled event) :
    (runner.step event).Owing :=
  fun hdebt => (h.step_owing hsettled hdebt).1

/-- A Build is admitted only where nothing is owed. -/
theorem debt_of_admitted (h : runner.Owing) (hsettled : runner.Settled event)
    (hadmitted : (runner.step event).admitted ≠ runner.admitted) :
    (runner.step event).debt = 0 := by
  by_contra hdebt
  exact hadmitted (h.step_owing hsettled (Nat.pos_of_ne_zero hdebt)).2

theorem Kept.bounded (h : runner.Kept) (howing : runner.Owing) (hsettled : runner.Settled event) :
    runner.Bounded event := by
  intro hadmitted
  have hbalance := (h.step event).balance
  rw [debt_of_admitted howing hsettled hadmitted] at hbalance
  omega

theorem admitted_of_addPermits (hzero : (runner.addPermits 1).active.available = 0) :
    (runner.addPermits 1).admitted ≠ runner.admitted := by
  have havailable := Semaphore.available_addPermits (s := runner.active) 1
  intro hsame
  have hserved : (runner.active.addPermits 1).2 = [] := by
    simpa [Runner.addPermits] using hsame
  rw [hserved, show (runner.active.addPermits 1).1.available = 0 from hzero] at havailable
  simp at havailable

/-- A permit that comes back while debt is owed breaks the limit at once. -/
theorem Returns.breaks (h : runner.Kept) (hreturns : runner.Returns event) (hdebt : 0 < runner.debt)
    (howing : (runner.step event).Owing) : ¬ runner.Bounded event := by
  have hback : (runner.step event).debt = runner.debt ∧
      ((runner.step event).active.available = 0 →
        (runner.step event).admitted ≠ runner.admitted) := by
    cases hreturns with
    | release build hmem =>
      simp only [Runner.step, Runner.release, if_pos hmem]
      exact ⟨rfl, admitted_of_addPermits⟩
    | leave build hmem =>
      simp only [Runner.step, Runner.leave, if_pos hmem, debt_unplace, active_unplace,
        admitted_unplace]
      exact ⟨rfl, admitted_of_addPermits⟩
    | refused build hmem hfull =>
      simp only [Runner.step, Runner.place, hmem, or_true, if_true, if_pos hfull, Runner.leave,
        debt_unplace, active_unplace, admitted_unplace]
      exact ⟨rfl, admitted_of_addPermits⟩
  intro hbounded
  have hzero := howing (hback.1 ▸ hdebt)
  have hheld := hbounded (hback.2 hzero)
  have hbalance := (h.step event).balance
  omega

end Runner

/-- A run in which every state is as the queue promises, and every step. -/
def Respected (runner : Runner) (events : List Event) : Prop :=
  (∀ before after, events = before ++ after → (before.foldl Runner.step runner).Sound) ∧
    Trace.Along Runner.step Runner.Bounded runner events

theorem respected_cons {runner : Runner} {events : List Event} :
    Respected runner (event :: events) ↔
      runner.Sound ∧ runner.Bounded event ∧ Respected (runner.step event) events := by
  constructor
  · rintro ⟨hsound, hbounded, hlater⟩
    refine ⟨hsound [] _ rfl, hbounded, fun before after hsplit => ?_, hlater⟩
    exact hsound (event :: before) after (by rw [hsplit, List.cons_append])
  · rintro ⟨hsound, hbounded, hstates, hlater⟩
    refine ⟨fun before after hsplit => ?_, hbounded, hlater⟩
    cases before with
    | nil => exact hsound
    | cons first before =>
      obtain ⟨rfl, rfl⟩ := List.cons.inj hsplit
      exact hstates before after rfl

theorem respected_iff_settled {runner : Runner} (h : runner.Kept) (howing : runner.Owing)
    (events : List Event) :
    Respected runner events ↔ Trace.Along Runner.step Runner.Settled runner events := by
  induction events generalizing runner with
  | nil =>
    refine ⟨fun _ => trivial, fun _ => ⟨fun before after hsplit => ?_, trivial⟩⟩
    obtain ⟨rfl, rfl⟩ := List.append_eq_nil_iff.mp hsplit.symm
    exact h.sound howing
  | cons event events ih =>
    rw [respected_cons, Trace.along_cons]
    constructor
    · rintro ⟨_, hbounded, hlater⟩
      have howing' : (runner.step event).Owing := (hlater.1 [] events rfl).debt
      refine ⟨fun hreturns => ?_, (ih (h.step event) howing').mp hlater⟩
      by_contra hdebt
      exact hreturns.breaks h (Nat.pos_of_ne_zero hdebt) howing' hbounded
    · rintro ⟨hsettled, hlater⟩
      exact ⟨h.sound howing, h.bounded howing hsettled,
        (ih (h.step event) (howing.step hsettled)).mpr hlater⟩

/-- For every run of the queue from its start: in every state free permits and held slots less debt
are the limit, debt is owed only while no permit is free and Builds were admitted in the order they
came, and no step admits a Build beyond the limit, exactly if no permit comes back to the semaphore
while debt is owed. -/
theorem concurrency_respected_iff (queueCapacity : Nat) (events : List Event) :
    Respected (.new queueCapacity) events ↔
      Trace.Along Runner.step (fun runner event => runner.Returns event → runner.debt = 0)
        (.new queueCapacity) events :=
  respected_iff_settled (Runner.kept_new queueCapacity) (fun hpos => absurd hpos (lt_irrefl 0))
    events

/-! ## Every run -/

namespace Runner

variable {runner : Runner} {build : Arrival}

theorem size_leave : (runner.leave build).size = runner.size := by
  unfold leave
  split <;> exact size_unplace

theorem size_pos_step (h : 0 < runner.size) (event : Event) : 0 < (runner.step event).size := by
  cases event with
  | enter | drop build | release build =>
    simp only [step, enter, drop, release]
    split_ifs <;> exact h
  | place build =>
    simp only [step, place]
    split_ifs
    · rwa [size_leave]
    · exact h
    · exact h
  | leave build => rwa [step, size_leave]
  | admitBuild build =>
    simp only [step, admitBuild]
    split_ifs
    · rwa [size_unplace]
    · exact h
  | resize limit =>
    simp only [step, resize]
    split_ifs
    · exact h
    · exact limit.pos
    · exact limit.pos
  | shutdown => exact h

theorem kept_run (h : runner.Kept) (hsize : 0 < runner.size) (events : List Event) :
    (events.foldl step runner).Kept ∧ 0 < (events.foldl step runner).size := by
  induction events generalizing runner with
  | nil => exact ⟨h, hsize⟩
  | cons event events ih => exact ih (h.step event) (size_pos_step hsize event)

end Runner

/-- In every run, those too in which permits come back while debt is owed: permits are neither lost
nor made, a Build waits only while no permit is free and some Build holds one, a permit that comes
back, from a slot or from a waiter, goes to the Build that has waited longest, and no Build is
admitted twice, or admitted and waiting. -/
theorem no_build_waits_alone (queueCapacity : Nat) (events : List Event) :
    let runner := events.foldl Runner.step (.new queueCapacity)
    runner.active.available + runner.held = runner.size + runner.debt ∧
      (runner.active.queue ≠ [] → runner.active.available = 0 ∧ 0 < runner.held) ∧
      (∀ event first rest, runner.Returns event → runner.active.queue = first :: rest →
        (runner.step event).admitted = runner.admitted ++ [first] ∧
          first ∈ (runner.step event).handed) ∧
      (runner.admitted ++ runner.active.queue).Nodup := by
  intro runner
  obtain ⟨hkept, hsize⟩ : runner.Kept ∧ 0 < runner.size :=
    Runner.kept_run (Runner.kept_new queueCapacity) Nat.one_pos events
  have hbalance := hkept.balance
  refine ⟨hbalance, fun hwaits => ?_, fun event first rest hreturns hqueue => ?_, ?_⟩
  · have hnone : runner.active.available = 0 :=
      Nat.eq_zero_of_not_pos fun hfree => hwaits (hkept.fair hfree)
    exact ⟨hnone, by omega⟩
  · cases hreturns with
    | release build hmem =>
      simp [Runner.step, Runner.release, hmem, Runner.addPermits, Semaphore.addPermits, hqueue]
    | leave build hmem =>
      simp [Runner.step, Runner.leave, hmem, Runner.addPermits, Semaphore.addPermits, hqueue]
    | refused build hmem hfull =>
      simp [Runner.step, Runner.place, hmem, hfull, Runner.leave, Runner.addPermits,
        Semaphore.addPermits, hqueue]
  · exact hkept.order.imp fun hlt => hlt.ne

namespace Sample

/-- Two Builds run and a third waits. The first ends and its permit is handed to the waiter; the
limit is lowered to one, and the waiter expires. A fourth Build comes. -/
def expiredWaiter : List Event :=
  [.resize 2, .enter, .enter, .enter, .place 2, .drop 0, .release 0, .resize 1, .leave 2, .enter]

/-- The permit of the waiter is free though one is owed, and the fourth Build runs beside the
second, over the limit of one. -/
theorem expired_waiter_admits_over_limit :
    let runner := expiredWaiter.foldl Runner.step (.new 100)
    runner.size = 1 ∧ runner.slots = [1, 3] ∧ ¬ Respected (.new 100) expiredWaiter := by
  refine ⟨by decide, by decide, fun hrespected => ?_⟩
  have hdebt := (hrespected.1 (expiredWaiter.take 9) (expiredWaiter.drop 9) rfl).debt
  exact absurd (hdebt (by decide)) (by decide)

end Sample

end Ployz.Build
