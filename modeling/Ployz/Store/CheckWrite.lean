import Ployz.Store.Rules

/-!
# Checking a write against the rules

`checkWrite` refuses a write for a problem that neither the state it replaces nor the one it copies
from has. `checkWrite_eq_ok` says exactly when. Coverage is an order, so over a run of accepted
writes nothing is let in: `problems_of_run`.
-/

namespace Ployz

open Run

/-- Whether the first problem, already there, accounts for the second: the same problem, a Volume
with no fewer writers, or a cycle at least as wide. -/
def Problem.covers : Problem → Problem → Bool
  | .writers volume replicas, .writers other more => volume == other && more ≤ replicas
  | .cycle wide, .cycle narrow => narrow.all wide.contains
  | a, b => a == b

/-- Refuse a write that turns `before` into `after` if `after` breaks a rule that neither `before`
nor `inherited` already broke; `refusal` words the problems it adds. -/
def checkWrite (refusal : List Problem → RpcError) (before : Facts)
    (inherited : Option SavedEnvironmentIntent) (after : Facts) : Except RpcError Unit :=
  let known := problems before ++
    inherited.elim [] fun working => problems { after with working }
  let added := (problems after).filter fun problem => !known.any (·.covers problem)
  if added = [] then pure () else throw (refusal added)

/-! ## Coverage is an order -/

namespace Problem

theorem covers_refl (a : Problem) : a.covers a = true := by
  cases a with
  | writers => simp [covers]
  | cycle => simp [covers]
  | broken => simp [covers]
  | noSetupService => simp [covers]

/-- What a problem covers is of its kind. -/
theorem covers_iff {a b : Problem} : a.covers b = true ↔
    a = b ∨ (∃ volume replicas more, a = .writers volume replicas ∧ b = .writers volume more ∧
      more ≤ replicas) ∨ ∃ wide narrow, a = .cycle wide ∧ b = .cycle narrow ∧ narrow ⊆ wide := by
  constructor
  · intro h
    unfold covers at h
    split at h
    · obtain ⟨rfl, hle⟩ : _ ∧ _ := by simpa using h
      exact .inr (.inl ⟨_, _, _, rfl, rfl, hle⟩)
    · exact .inr (.inr ⟨_, _, rfl, rfl, fun x hx => by simpa using List.all_eq_true.mp h x hx⟩)
    · exact .inl (by simpa using h)
  · rintro (rfl | ⟨volume, replicas, more, rfl, rfl, hle⟩ | ⟨wide, narrow, rfl, rfl, hsub⟩)
    · exact covers_refl a
    · simpa [covers] using hle
    · rw [covers, List.all_eq_true]
      exact fun x hx => List.contains_iff_mem.mpr (hsub hx)

theorem covers_trans {a b c : Problem} (hab : a.covers b = true) (hbc : b.covers c = true) :
    a.covers c = true := by
  rw [covers_iff] at hab
  rcases hab with rfl | ⟨volume, replicas, more, rfl, rfl, hle⟩ | ⟨wide, narrow, rfl, rfl, hsub⟩
  · exact hbc
  · rcases covers_iff.mp hbc with rfl | ⟨_, _, least, heq, rfl, hle'⟩ | ⟨_, _, heq, -, -⟩
    · exact covers_iff.mpr (.inr (.inl ⟨_, _, _, rfl, rfl, hle⟩))
    · obtain ⟨rfl, rfl⟩ := Problem.writers.inj heq
      exact covers_iff.mpr (.inr (.inl ⟨_, _, _, rfl, rfl, hle'.trans hle⟩))
    · cases heq
  · rcases covers_iff.mp hbc with rfl | ⟨_, _, _, heq, -, -⟩ | ⟨_, least, heq, rfl, hsub'⟩
    · exact covers_iff.mpr (.inr (.inr ⟨_, _, rfl, rfl, hsub⟩))
    · cases heq
    · obtain rfl := Problem.cycle.inj heq
      exact covers_iff.mpr (.inr (.inr ⟨_, _, rfl, rfl, List.Subset.trans hsub' hsub⟩))

end Problem

/-! ## Runs of writes -/

/-- One write: what it copies or restores, if anything, and the Working State it makes. -/
structure Write where
  inherited : Option SavedEnvironmentIntent
  after : SavedEnvironmentIntent

section

variable (refusal : List Problem → RpcError) (live : List (String × String))
  (setup : List SetupCommand)

/-- A problem of the state accounts for this one. -/
def Covered (working : SavedEnvironmentIntent) (problem : Problem) : Prop :=
  ∃ old ∈ problems ⟨working, live, setup⟩, old.covers problem = true

/-- Each write is accepted where the one before left the Environment. -/
def Accepted : SavedEnvironmentIntent → List Write → Prop
  | _, [] => True
  | before, write :: writes =>
    checkWrite refusal ⟨before, live, setup⟩ write.inherited ⟨write.after, live, setup⟩ = .ok () ∧
      Accepted write.after writes

def afterWrites (first : SavedEnvironmentIntent) (writes : List Write) : SavedEnvironmentIntent :=
  writes.foldl (fun _ write => write.after) first

variable {refusal live setup}

/-- A write is accepted exactly if each of its problems is covered by one of the state it replaces
or of the state it inherits from. -/
theorem checkWrite_eq_ok {before after : SavedEnvironmentIntent}
    {inherited : Option SavedEnvironmentIntent} :
    checkWrite refusal ⟨before, live, setup⟩ inherited ⟨after, live, setup⟩ = .ok () ↔
      ∀ problem ∈ problems ⟨after, live, setup⟩, Covered live setup before problem ∨
        ∃ working, inherited = some working ∧ Covered live setup working problem := by
  unfold checkWrite
  dsimp only
  have hthrow : ∀ added,
    (if added = [] then pure () else throw (refusal added) : Except RpcError Unit) =
      .ok () ↔ added = [] := by
    intro added
    split_ifs with h <;> simp [h]
  rw [hthrow, List.filter_eq_nil_iff]
  refine forall_congr' fun problem => imp_congr_right fun _ => ?_
  rw [Bool.not_eq_true, Bool.not_eq_false', List.any_append, Bool.or_eq_true, List.any_eq_true]
  refine or_congr Iff.rfl ?_
  cases inherited with
  | none => simp
  | some working =>
    simp only [Option.elim_some, List.any_eq_true, Option.some.injEq, exists_eq_left']
    rfl

theorem Covered.of_covers {working : SavedEnvironmentIntent} {a b : Problem}
    (h : Covered live setup working a) (hab : a.covers b = true) :
    Covered live setup working b := by
  obtain ⟨old, hold, hcovers⟩ := h
  exact ⟨old, hold, Problem.covers_trans hcovers hab⟩

/-- Over a run of accepted writes each problem is covered by one of the first state or of a state
some write inherited from. A write is refused exactly if one of its problems is covered neither by
the state it replaces nor by the one it inherits from. -/
theorem problems_of_run (refusal : List Problem → RpcError) (live : List (String × String))
    (setup : List SetupCommand) :
    (∀ first writes, Accepted refusal live setup first writes →
      ∀ problem ∈ problems ⟨afterWrites first writes, live, setup⟩,
        Covered live setup first problem ∨ ∃ write ∈ writes, ∃ working,
          write.inherited = some working ∧ Covered live setup working problem) ∧
    ∀ before inherited after,
      checkWrite refusal ⟨before, live, setup⟩ inherited ⟨after, live, setup⟩ = .ok () ↔
        ∀ problem ∈ problems ⟨after, live, setup⟩, Covered live setup before problem ∨
          ∃ working, inherited = some working ∧ Covered live setup working problem := by
  refine ⟨fun first writes => ?_, fun before inherited after => checkWrite_eq_ok⟩
  induction writes generalizing first with
  | nil => exact fun _ problem hproblem => .inl ⟨problem, hproblem, problem.covers_refl⟩
  | cons write writes ih =>
    rintro ⟨hwrite, hrest⟩ problem hproblem
    rcases ih write.after hrest problem hproblem with ⟨old, hold, hcovers⟩ | ⟨later, hlater, h⟩
    · rcases checkWrite_eq_ok.mp hwrite old hold with h | ⟨working, hworking, h⟩
      · exact .inl (h.of_covers hcovers)
      · exact .inr ⟨write, List.mem_cons_self, working, hworking, h.of_covers hcovers⟩
    · exact .inr ⟨later, List.mem_cons_of_mem _ hlater, h⟩

end

/-! ## A problem repaired and made again -/

/-- An Environment with one Service, whose variables these are. -/
def lone (vars : List SavedVariableIntent) : SavedEnvironmentIntent :=
  .holding [{ SavedServiceIntent.unset "api-id" "api-lineage" ⟨"api", Eq.refl true⟩ with vars }] []

/-- A variable that references one its Service does not have. -/
def dangling : SavedVariableIntent :=
  ⟨"var-id", "URL", none, false, "", .template [.ref .self "HOST"]⟩

/-- A refusal that only counts the problems. -/
def refused (added : List Problem) : RpcError := .invalid s!"{added.length} problems"

/-- The variable is dropped and set again: the second write is refused, though the first state has
its only problem. -/
theorem repaired_problem_is_new :
    Accepted refused [] [] (lone [dangling]) [⟨none, lone []⟩] ∧
      (∀ problem ∈ problems ⟨lone [dangling], [], []⟩, Covered [] [] (lone [dangling]) problem) ∧
      checkWrite refused ⟨lone [], [], []⟩ none ⟨lone [dangling], [], []⟩ ≠ .ok () := by
  have hnone : problems ⟨lone [], [], []⟩ = [] := by decide +kernel
  have hone : problems ⟨lone [dangling], [], []⟩ =
      [.broken "api-lineage" "URL" (.variableOf "api-lineage" "HOST")] := by decide +kernel
  refine ⟨⟨?_, trivial⟩, fun problem hproblem => ⟨problem, hproblem, problem.covers_refl⟩, fun h =>
    ?_⟩
  · rw [checkWrite_eq_ok, hnone]
    simp
  · rcases checkWrite_eq_ok.mp h _ (by rw [hone]; exact List.mem_singleton_self _) with
      ⟨old, hold, -⟩ | ⟨working, hworking, -⟩
    · rw [hnone] at hold
      cases hold
    · cases hworking

end Ployz
