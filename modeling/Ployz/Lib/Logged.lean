import Mathlib.Tactic.Common

/-!
# Calls that keep a log

Calls that may fail and change a state, and what they append to a log kept beside it. `Emits call R`
says that from any state and log `call` ends with a result and new entries that `R` relates; it is
kept by sequencing (`Emits.bind`), by renaming errors and by catching them.
-/

namespace Ployz.Logged

abbrev Call (σ ε : Type) := ExceptT ε (StateM σ)

variable {σ ε ε' α β ω : Type}

/-! ## Running calls -/

theorem run_bind (x : Call σ ε α) (f : α → Call σ ε β) (s : σ) : (x >>= f).run s =
    match x.run s with
    | (.ok a, s) => (f a).run s
    | (.error e, s) => (.error e, s) := by
  change ExceptT.bindCont f (x.run s).1 (x.run s).2 = _
  rcases x.run s with ⟨_ | _, _⟩ <;> rfl

theorem run_tryCatch (x : Call σ ε α) (f : ε → Call σ ε α) (s : σ) : (tryCatch x f).run s =
    match x.run s with
    | (.ok a, s) => (.ok a, s)
    | (.error e, s) => (f e).run s := by
  change (match (x.run s).1 with
    | .ok a => pure (.ok a)
    | .error e => f e : StateM σ _) (x.run s).2 = _
  rcases x.run s with ⟨_ | _, _⟩ <;> rfl

theorem run_map (x : Call σ ε α) (f : α → β) (s : σ) :
    (f <$> x).run s = ((x.run s).1.map f, (x.run s).2) := by
  rw [← bind_pure_comp, run_bind]
  rcases x.run s with ⟨_ | _, _⟩ <;> rfl

theorem run_adapt (x : Call σ ε α) (f : ε → ε') (s : σ) :
    (x.adapt f).run s = ((x.run s).1.mapError f, (x.run s).2) := rfl

theorem run_pure (a : α) (s : σ) : (pure a : Call σ ε α).run s = (.ok a, s) := rfl

theorem run_throw (e : ε) (s : σ) : (throw e : Call σ ε α).run s = (.error e, s) := rfl

theorem run_get (s : σ) : (get : Call σ ε σ).run s = (.ok s, s) := (rfl)

theorem run_lift (x : Call σ ε α) (s : σ) :
    (ExceptT.lift x.run : Call σ ε' (Except ε α)).run s = (.ok (x.run s).1, (x.run s).2) := rfl

/-! ## Logs -/

def logged (event : Except ε α → ω) (call : Call σ ε α) : Call (σ × List ω) ε α :=
  fun state =>
    let answered := call.run state.1
    (answered.1, answered.2, state.2 ++ [event answered.1])

theorem run_logged (event : Except ε α → ω) (call : Call σ ε α) (state : σ) (log : List ω) :
    (logged event call).run (state, log) =
      ((call.run state).1, (call.run state).2, log ++ [event (call.run state).1]) := (rfl)

/-- From any state and log, a call ends with a result and entries that are related so. -/
def Emits (call : Call (σ × List ω) ε α) (R : Except ε α → List ω → Prop) : Prop :=
  ∀ state log, ∃ result later events,
    call.run (state, log) = (result, later, log ++ events) ∧ R result events

variable {call : Call (σ × List ω) ε α} {next : α → Call (σ × List ω) ε β}
  {R : Except ε α → List ω → Prop}

theorem Emits.mono {S : Except ε α → List ω → Prop} (h : Emits call R)
    (himp : ∀ result events, R result events → S result events) : Emits call S := by
  intro state log
  obtain ⟨result, later, events, hrun, hR⟩ := h state log
  exact ⟨result, later, events, hrun, himp _ _ hR⟩

theorem Emits.bind {S : α → Except ε β → List ω → Prop} (h : Emits call R)
    (hnext : ∀ a, Emits (next a) (S a)) :
    Emits (call >>= next) fun result events =>
      (∃ error, result = .error error ∧ R (.error error) events) ∨
        ∃ a before after, events = before ++ after ∧ R (.ok a) before ∧ S a result after := by
  intro state log
  obtain ⟨first | a, later, before, hrun, hR⟩ := h state log
  · exact ⟨_, _, before, by rw [run_bind, hrun], .inl ⟨first, rfl, hR⟩⟩
  · obtain ⟨result, last, after, hafter, hS⟩ := hnext a later (log ++ before)
    refine ⟨result, last, before ++ after, ?_, .inr ⟨a, before, after, rfl, hR, hS⟩⟩
    rw [run_bind, hrun]
    simp only [hafter, List.append_assoc]

theorem Emits.bind_all {P : ω → Prop}
    (h : Emits call fun _ events => ∀ event ∈ events, P event)
    (hnext : ∀ a, Emits (next a) fun _ events => ∀ event ∈ events, P event) :
    Emits (call >>= next) fun _ events => ∀ event ∈ events, P event := by
  refine (h.bind hnext).mono ?_
  rintro _ _ (⟨_, -, hall⟩ | ⟨_, before, after, rfl, hbefore, hafter⟩)
  · exact hall
  · exact fun event hevent => (List.mem_append.mp hevent).elim (hbefore event) (hafter event)

theorem Emits.adapt (h : Emits call R) (f : ε → ε') :
    Emits (call.adapt f) fun result events => ∃ inner, result = inner.mapError f ∧
      R inner events := by
  intro state log
  obtain ⟨inner, later, events, hrun, hR⟩ := h state log
  exact ⟨_, _, _, by rw [run_adapt, hrun], inner, rfl, hR⟩

theorem Emits.lift (h : Emits call R) :
    Emits (ExceptT.lift call.run : Call (σ × List ω) ε' (Except ε α)) fun result events =>
      ∃ inner, result = .ok inner ∧ R inner events := by
  intro state log
  obtain ⟨inner, later, events, hrun, hR⟩ := h state log
  exact ⟨_, _, _, by rw [run_lift, hrun], inner, rfl, hR⟩

theorem emits_logged (event : Except ε α → ω) (call : Call σ ε α) :
    Emits (logged event call) fun result events => events = [event result] :=
  fun _ _ => ⟨_, _, _, rfl, rfl⟩

theorem emits_throw (error : ε) : Emits (throw error : Call (σ × List ω) ε α)
    fun result events => result = .error error ∧ events = [] :=
  fun _ log => ⟨_, _, [], by rw [run_throw, List.append_nil], rfl, rfl⟩

end Ployz.Logged
