import Ployz.Config.Variables

/-!
# Secret taint

Two resolutions of one template, over producers that differ only in the texts of their secrets,
run in step: they find the same producers, meet the same cycle and warn of the same references, and
what they read so far is marked secret in both or is the same text in both (`Tainted`). So a text
that is not marked secret does not depend on a secret (`resolveVariables_untainted`). No assumption
on the producers is needed: the memo of one run mirrors that of the other.
-/

namespace Ployz

open Run

/-- The same producer, up to the text of a secret. -/
structure SameButSecret (p q : VariableProducer) : Prop where
  ownerId : p.ownerId = q.ownerId
  owner : p.owner = q.owner
  key : p.key = q.key
  value : p.value = q.value ∨ ∃ a b, p.value = .secret a ∧ q.value = .secret b

/-- Two texts that are both marked secret, or the same and neither is. -/
def Tainted (a b : Resolved) : Prop := a.2 = b.2 ∧ (a.2 = false → a.1 = b.1)

/-- The same warnings, and memos with the same entries up to secrets. -/
structure SameRun (s t : Resolving) : Prop where
  warnings : s.warnings = t.warnings
  memo : List.Forall₂ (fun a b => a.1 = b.1 ∧ Tainted a.2 b.2) s.memo t.memo

def SameSoFar (a b : Resolved × Resolving) : Prop := Tainted a.1 b.1 ∧ SameRun a.2 b.2

theorem Tainted.refl (a : Resolved) : Tainted a a := ⟨rfl, fun _ => rfl⟩

theorem Tainted.append {a b a' b' : Resolved} (h : Tainted a b) (h' : Tainted a' b') :
    Tainted (a.append a') (b.append b') := by
  refine ⟨by simp only [Resolved.append, h.1, h'.1], fun hplain => ?_⟩
  obtain ⟨hfirst, hsecond⟩ := Bool.or_eq_false_iff.mp hplain
  simp only [Resolved.append, h.2 hfirst, h'.2 hsecond]

section

variable {producers producers' : List VariableProducer}

theorem SameButSecret.answers {p q : VariableProducer} (h : SameButSecret p q) (self : String)
    (owner : ValuePartOwner) (key : String) :
    p.answers self owner key = q.answers self owner key := by
  unfold VariableProducer.answers
  rw [h.ownerId, h.owner, h.key]

theorem SameButSecret.id {p q : VariableProducer} (h : SameButSecret p q) : p.id = q.id :=
  Prod.ext h.ownerId h.key

/-- A reference reads the same producer in both lists. -/
theorem found_same (h : List.Forall₂ SameButSecret producers producers') (self : String)
    (owner : ValuePartOwner) (key : String) :
    Option.Rel SameButSecret (found producers self owner key)
      (found producers' self owner key) := by
  unfold found
  generalize hps : producers.reverse = ps, hqs : producers'.reverse = qs
  have hreverse : List.Forall₂ SameButSecret ps qs := hps ▸ hqs ▸ List.rel_reverse h
  clear hps hqs
  induction hreverse with
  | nil => exact .none
  | @cons p q ps qs hpq _ ih =>
    rw [List.find?_cons, List.find?_cons, hpq.answers]
    cases q.answers self owner key with
    | true => exact .some hpq
    | false => exact ih

theorem lookup_same {memo memo' : List (VariableId × Resolved)}
    (h : List.Forall₂ (fun a b => a.1 = b.1 ∧ Tainted a.2 b.2) memo memo') (id : VariableId) :
    Option.Rel Tainted (memo.lookup id) (memo'.lookup id) := by
  induction h with
  | nil => exact .none
  | @cons a b as bs hab _ ih =>
    rw [List.lookup_cons, List.lookup_cons, hab.1]
    cases id == b.1 with
    | true => exact .some hab.2
    | false => exact ih

/-- Two resolvers of nested templates run in step. -/
def InStep (deeper deeper' : Resolver) : Prop :=
  ∀ stack self parts state state', SameRun state state' →
    Lockstep SameSoFar (deeper stack self parts state) (deeper' stack self parts state')

variable {deeper deeper' : Resolver}

theorem resolveFound_same (hdeeper : InStep deeper deeper') {p q : VariableProducer}
    (hpq : SameButSecret p q) (stack : List VariableId) {state state' : Resolving}
    (hstate : SameRun state state') :
    Lockstep SameSoFar (resolveFound deeper stack p state)
      (resolveFound deeper' stack q state') := by
  have hvalue : Lockstep SameSoFar (resolveValue deeper stack p state)
      (resolveValue deeper' stack q state') := by
    rw [resolveValue, resolveValue, hpq.id, hpq.ownerId]
    rcases hpq.value with heq | ⟨a, b, hp, hq⟩
    · rw [heq]
      cases q.value with
      | literal text => exact ⟨Tainted.refl _, hstate⟩
      | secret text => exact ⟨Tainted.refl _, hstate⟩
      | template parts => exact hdeeper _ _ _ _ _ hstate
    · rw [hp, hq]
      exact ⟨⟨rfl, fun h => by cases h⟩, hstate⟩
  have hlookup := lookup_same hstate.memo q.id
  rw [resolveFound, resolveFound, hpq.id]
  cases hp : state.memo.lookup q.id with
  | none => cases hq : state'.memo.lookup q.id with
    | none =>
      apply hvalue.bind
      rintro ⟨resolved, next⟩ ⟨resolved', next'⟩ ⟨htaint, hnext⟩
      exact ⟨htaint, hnext.warnings, .cons ⟨rfl, htaint⟩ hnext.memo⟩
    | some cached =>
      rw [hp, hq] at hlookup
      cases hlookup
  | some cached => cases hq : state'.memo.lookup q.id with
    | none =>
      rw [hp, hq] at hlookup
      cases hlookup
    | some cached' =>
      rw [hp, hq] at hlookup
      cases hlookup with
      | some htaint => exact ⟨htaint, hstate⟩

theorem resolvePart_same (h : List.Forall₂ SameButSecret producers producers')
    (hdeeper : InStep deeper deeper') (stack : List VariableId) (self : String) (part : ValuePart)
    {before before' : Resolved × Resolving} (hbefore : SameSoFar before before') :
    Lockstep SameSoFar (resolvePart producers deeper stack self before part)
      (resolvePart producers' deeper' stack self before' part) := by
  obtain ⟨htaint, hstate⟩ := hbefore
  cases part with
  | text text =>
    have happend := htaint.append (Tainted.refl (text, false))
    simp only [Resolved.append, Bool.or_false] at happend
    exact ⟨happend, hstate⟩
  | ref owner key =>
    have hfound := found_same h self owner key
    rw [resolvePart, resolvePart]
    cases hp : found producers self owner key with
    | none => cases hq : found producers' self owner key with
      | none => exact ⟨htaint, by rw [hstate.warnings], hstate.memo⟩
      | some q =>
        rw [hp, hq] at hfound
        cases hfound
    | some p => cases hq : found producers' self owner key with
      | none =>
        rw [hp, hq] at hfound
        cases hfound
      | some q =>
        rw [hp, hq] at hfound
        cases hfound with
        | some hpq =>
          dsimp only
          rw [hpq.id]
          split_ifs with hstack
          · rfl
          · apply (resolveFound_same hdeeper hpq stack hstate).bind
            rintro ⟨resolved, next⟩ ⟨resolved', next'⟩ ⟨hresolved, hnext⟩
            exact ⟨htaint.append hresolved, hnext⟩

/-- The resolvers of two lists that differ only in secrets run in step. -/
theorem resolveParts_same (h : List.Forall₂ SameButSecret producers producers') (depth : Nat) :
    InStep (resolveParts producers depth) (resolveParts producers' depth) := by
  induction depth with
  | zero =>
    intro stack self parts state state' _
    exact rfl
  | succ depth ih =>
    intro stack self parts state state' hstate
    apply Lockstep.foldlM
    · intro part _ before before' hbefore
      exact resolvePart_same h ih stack self part hbefore
    · exact ⟨Tainted.refl _, hstate⟩

/-- Over producers that differ only in secrets, what is not marked secret in one resolution is what
the other returns. -/
theorem resolveVariables_untainted (h : List.Forall₂ SameButSecret producers producers')
    {parts : List ValuePart} {self value : String} {warnings : List TemplateWarning}
    (hplain : resolveVariables ⟨parts, self, producers⟩ = .resolved value false warnings) :
    resolveVariables ⟨parts, self, producers'⟩ = .resolved value false warnings := by
  rw [resolveVariables] at hplain ⊢
  rw [← h.length_eq]
  have hsame := resolveParts_same h (producers.length + 1) [] self parts ⟨[], []⟩ ⟨[], []⟩
    ⟨rfl, .nil⟩
  dsimp only at hplain ⊢
  split at hplain
  · next value' secret state hok =>
    obtain ⟨rfl, rfl, rfl⟩ := ResolveVariablesResult.resolved.inj hplain
    obtain ⟨⟨⟨value, secret⟩, state'⟩, hok', ⟨hsecret, hvalue⟩, hstate⟩ := hsame.of_ok hok
    obtain rfl : value' = value := hvalue rfl
    obtain rfl : false = secret := hsecret
    rw [hok', hstate.warnings]
  · cases hplain

end

end Ployz
