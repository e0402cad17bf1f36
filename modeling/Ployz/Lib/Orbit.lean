import Mathlib.Data.List.Chain

/-!
# Orbits of a partial step

The values that a partial function steps through from a start. The orbit is determined by the start
(`take_eq`), and stays in a set that the step keeps (`mem_of_closed`).
-/

namespace Orbit

variable {α : Type*} {step : α → Option α} {start : α} {visited longer : List α}

/-- Each value is the step of the one before, the first that of the start. -/
def Visits (step : α → Option α) (start : α) (visited : List α) : Prop :=
  (start :: visited).IsChain fun value next => step value = some next

theorem visits_nil : Visits step start [] :=
  List.isChain_singleton start

theorem visits_cons {next : α} :
    Visits step start (next :: visited) ↔ step start = some next ∧ Visits step next visited :=
  List.isChain_cons_cons

theorem take_eq (h : Visits step start visited) (hlonger : Visits step start longer)
    (hle : visited.length ≤ longer.length) : longer.take visited.length = visited := by
  induction visited generalizing start longer with
  | nil => rfl
  | cons next visited ih =>
    cases longer with
    | nil => simp at hle
    | cons other longer =>
      obtain ⟨hnext, hvisited⟩ := visits_cons.mp h
      obtain ⟨hother, hlonger⟩ := visits_cons.mp hlonger
      obtain rfl := Option.some.inj (hnext.symm.trans hother)
      rw [List.length_cons, List.take_succ_cons, ih hvisited hlonger (by simpa using hle)]

theorem mem_of_closed {kept : α → Prop} (h : Visits step start visited) (hstart : kept start)
    (hstep : ∀ value next, kept value → step value = some next → kept next) :
    ∀ value ∈ visited, kept value := by
  induction visited generalizing start with
  | nil => simp
  | cons next visited ih =>
    obtain ⟨hnext, hvisited⟩ := visits_cons.mp h
    have hkept := hstep start next hstart hnext
    rw [List.forall_mem_cons]
    exact ⟨hkept, ih hvisited hkept⟩

end Orbit
