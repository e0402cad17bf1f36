import Mathlib.Data.List.Find
import Ployz.Config.Variables
import Ployz.Lib.Reach

/-!
# Cycles and plain substitution

A resolution ends whatever its producers refer to: no call nests deeper than there are producers
(`resolveWithin_eq`). Where owners and lineages correspond one to one, what the resolver knows by
an owner and a key is one producer (`OneToOne.eq_of_id`). It then reports a cycle exactly if some
chain of references leads from the template into one (`cycle_iff_reachable`), and otherwise returns
the template with each reference replaced by what its last producer says. Main theorem:
`resolveVariables_substitutes`.
-/

namespace Ployz

open Run Relation

/-! ## No call is deeper than the producers are many -/

/-- The parts in turn, to a depth of nested templates past which `beyond` resolves. -/
def resolveWithin (producers : List VariableProducer) (beyond : Resolver) : Nat → Resolver
  | 0 => beyond
  | depth + 1 => fun stack self parts state =>
    parts.foldlM (resolvePart producers (resolveWithin producers beyond depth) stack self)
      (("", false), state)

section Depth

variable {producers : List VariableProducer}

theorem resolveParts_eq_within (producers : List VariableProducer) (depth : Nat) :
    resolveParts producers depth =
      resolveWithin producers (fun stack _ _ _ => throw (pathOf stack)) depth := by
  induction depth with
  | zero => rfl
  | succ depth ih => rw [resolveParts, resolveWithin, ih]

/-- A part calls only into the stack with one more producer on it. -/
theorem resolvePart_congr {deeper deeper' : Resolver} {stack : List VariableId}
    (h : ∀ p ∈ producers, p.id ∉ stack → deeper (stack ++ [p.id]) = deeper' (stack ++ [p.id]))
    (self : String) (before : Resolved × Resolving) (part : ValuePart) :
    resolvePart producers deeper stack self before part =
      resolvePart producers deeper' stack self before part := by
  cases part with
  | text text => rfl
  | ref owner key =>
    rw [resolvePart, resolvePart]
    cases hfound : found producers self owner key with
    | none => rfl
    | some p =>
      have hp : p ∈ producers := Findable.mem ⟨_, _, _, hfound⟩
      dsimp only
      split_ifs with hstack
      · rfl
      · have hfresh : p.id ∉ stack := by simpa using hstack
        rw [resolveFound, resolveFound, resolveValue, resolveValue, h p hp hfresh]

/-- Past the number of producers nothing is called, so nothing depends on what stands there. -/
theorem resolveWithin_congr (beyond beyond' : Resolver) {depth : Nat} {stack : List VariableId}
    (hnodup : stack.Nodup) (hstack : stack ⊆ producers.map (·.id))
    (hroom : producers.length < stack.length + depth) :
    resolveWithin producers beyond depth stack = resolveWithin producers beyond' depth stack := by
  induction depth generalizing stack with
  | zero =>
    have hlength := (List.subperm_of_subset hnodup hstack).length_le
    rw [List.length_map] at hlength
    omega
  | succ depth ih =>
    have hdeeper : ∀ p ∈ producers, p.id ∉ stack →
        resolveWithin producers beyond depth (stack ++ [p.id]) =
          resolveWithin producers beyond' depth (stack ++ [p.id]) := by
      intro p hp hfresh
      apply ih
      · exact List.nodup_append.mpr ⟨hnodup, List.nodup_singleton _, by
          rintro a ha b hb rfl
          exact hfresh (List.mem_singleton.mp hb ▸ ha)⟩
      · exact List.append_subset.mpr ⟨hstack, by simpa using ⟨p, hp, rfl⟩⟩
      · rw [List.length_append, List.length_singleton]
        omega
    funext self parts state
    show parts.foldlM _ _ = parts.foldlM _ _
    congr 1
    funext before part
    exact resolvePart_congr hdeeper self before part

theorem resolveWithin_eq (producers : List VariableProducer) (beyond : Resolver) (self : String)
    (parts : List ValuePart) (state : Resolving) :
    resolveWithin producers beyond (producers.length + 1) [] self parts state =
      resolveParts producers (producers.length + 1) [] self parts state := by
  have hempty : ([] : List VariableId) ⊆ producers.map (·.id) := List.nil_subset _
  rw [resolveParts_eq_within]
  rw [resolveWithin_congr beyond _ List.nodup_nil hempty (by simp)]

end Depth

/-! ## One owner, one lineage -/

/-- Owner IDs and lineages correspond one to one. -/
def OneToOne (producers : List VariableProducer) : Prop :=
  ∀ p ∈ producers, ∀ q ∈ producers, p.ownerId = q.ownerId ↔ p.owner = q.owner

section Owners

variable {producers : List VariableProducer}

/-- What a reference reads is the last producer of its own owner and key. -/
theorem OneToOne.found_self (hone : OneToOne producers) {self key : String} {owner : ValuePartOwner}
    {p : VariableProducer} (h : found producers self owner key = some p) :
    found producers p.ownerId .self p.key = some p := by
  have hmem : p ∈ producers := Findable.mem ⟨_, _, _, h⟩
  have hanswers : p.answers self owner key = true := List.find?_some h
  have hkey : p.key = key := VariableProducer.key_of_answers hanswers
  rw [← h]
  apply List.find?_congr
  intro q hq
  have hq : q ∈ producers := List.mem_reverse.mp hq
  rw [Bool.eq_iff_iff, VariableProducer.answers_self]
  cases owner with
  | self =>
    rw [VariableProducer.answers_self] at hanswers ⊢
    rw [hkey, hanswers.2]
  | service lineage =>
    rw [VariableProducer.answers_service] at hanswers ⊢
    rw [hkey, ← hanswers.2, hone q hq p hmem]

theorem OneToOne.eq_of_id (hone : OneToOne producers) {p q : VariableProducer}
    (hp : Findable producers p) (hq : Findable producers q) (hid : p.id = q.id) : p = q := by
  obtain ⟨_, _, _, hp⟩ := hp
  obtain ⟨_, _, _, hq⟩ := hq
  have hp := hone.found_self hp
  have hq := hone.found_self hq
  obtain ⟨howner, hkey⟩ := Prod.mk.inj hid
  rw [howner, hkey, hq] at hp
  exact (Option.some.inj hp).symm

theorem OneToOne.agree (hone : OneToOne producers) : Agree producers := by
  intro p q hp hq hid depth
  rw [hone.eq_of_id hp hq hid]

end Owners

/-! ## Reference cycles -/

/-- A template of `self` has a reference that reads `p`. -/
def Refers (producers : List VariableProducer) (self : String) (parts : List ValuePart)
    (p : VariableProducer) : Prop :=
  ∃ owner key, .ref owner key ∈ parts ∧ found producers self owner key = some p

/-- The template `p` has a reference that reads `q`. -/
def Reads (producers : List VariableProducer) (p q : VariableProducer) : Prop :=
  ∃ parts, p.value = .template parts ∧ Refers producers p.ownerId parts q

/-- Some chain of references leads from a template of `self` into a cycle. -/
def CycleReachable (producers : List VariableProducer) (self : String) (parts : List ValuePart) :
    Prop :=
  ∃ p q, Refers producers self parts p ∧ ReflTransGen (Reads producers) p q ∧
    TransGen (Reads producers) q q

section Cycles

variable {producers : List VariableProducer} {self : String} {parts : List ValuePart}
  {p : VariableProducer}

theorem Refers.mem (h : Refers producers self parts p) : p ∈ producers := by
  obtain ⟨owner, key, -, hfound⟩ := h
  exact Findable.mem ⟨_, _, _, hfound⟩

theorem said_of_readParts {depth : Nat} {v : Resolved}
    (h : readParts producers (readAt producers depth) self parts = some v)
    (hp : Refers producers self parts p) : ∃ w, producerAt producers depth p = some w := by
  obtain ⟨owner, key, hmem, hfound⟩ := hp
  induction parts generalizing v with
  | nil => cases hmem
  | cons part rest ih =>
    obtain ⟨a, ha, h⟩ := Option.bind_eq_some_iff.mp h
    obtain ⟨b, hb, -⟩ := Option.bind_eq_some_iff.mp h
    rcases List.mem_cons.mp hmem with rfl | hmem
    · rw [readPart, hfound] at ha
      exact ⟨a, ha⟩
    · exact ih hb hmem

/-- A template is read at some depth if everything it refers to is. -/
theorem exists_readParts (h : ∀ p, Refers producers self parts p →
    ∃ depth w, producerAt producers depth p = some w) :
    ∃ depth v, readParts producers (readAt producers depth) self parts = some v := by
  induction parts with
  | nil => exact ⟨0, ("", false), rfl⟩
  | cons part rest ih =>
    have hpart : ∃ depth a, readPart producers (readAt producers depth) self part = some a := by
      cases part with
      | text text => exact ⟨0, (text, false), rfl⟩
      | ref owner key =>
        cases hfound : found producers self owner key with
        | none => exact ⟨0, ("", false), by rw [readPart, hfound]⟩
        | some p =>
          obtain ⟨depth, w, hw⟩ := h p ⟨owner, key, List.mem_cons_self, hfound⟩
          exact ⟨depth, w, by rw [readPart, hfound]; exact hw⟩
    have hrest : ∀ p, Refers producers self rest p →
        ∃ depth w, producerAt producers depth p = some w := by
      rintro p ⟨owner, key, hmem, hfound⟩
      exact h p ⟨owner, key, List.mem_cons_of_mem _ hmem, hfound⟩
    obtain ⟨d, a, ha⟩ := hpart
    obtain ⟨d', b, hb⟩ := ih hrest
    have ha' := readPart_mono (fun _ _ _ => readAt_mono (Nat.le_max_left d d')) ha
    have hb' := readParts_mono (fun _ _ _ => readAt_mono (Nat.le_max_right d d')) hb
    refine ⟨max d d', a.append b, ?_⟩
    rw [readParts, ha', hb']
    rfl

theorem acc_of_said {depth : Nat} {w : Resolved} (h : producerAt producers depth p = some w) :
    Acc (fun q p => Reads producers p q) p := by
  induction depth generalizing p w with
  | zero =>
    constructor
    rintro q ⟨parts, htemplate, -⟩
    rw [producerAt, htemplate] at h
    cases h
  | succ depth ih =>
    constructor
    rintro q ⟨parts, htemplate, hq⟩
    rw [producerAt, htemplate] at h
    obtain ⟨w', hw'⟩ := said_of_readParts h hq
    exact ih hw'

theorem exists_said_of_acc (h : Acc (fun q p => Reads producers p q) p) :
    ∃ depth w, producerAt producers depth p = some w := by
  induction h with
  | intro p _ ih =>
    cases hvalue : p.value with
    | literal text => exact ⟨0, (text, false), by rw [producerAt, hvalue]; rfl⟩
    | secret text => exact ⟨0, (text, true), by rw [producerAt, hvalue]; rfl⟩
    | template parts =>
      obtain ⟨depth, v, hv⟩ := exists_readParts fun q hq => ih q ⟨parts, hvalue, hq⟩
      exact ⟨depth + 1, v, by rw [producerAt, hvalue]; exact hv⟩

/-- A template says something exactly if no chain of references leads from it into a cycle. -/
theorem exists_readAt_iff :
    (∃ depth v, readAt producers depth self parts = some v) ↔
      ¬ CycleReachable producers self parts := by
  constructor
  · rintro ⟨depth, v, h⟩ ⟨p, q, hp, hpath, hcycle⟩
    cases depth with
    | zero => cases h
    | succ depth =>
      obtain ⟨w, hw⟩ := said_of_readParts h hp
      exact Reach.not_transGen_of_acc (acc_of_said hw) hpath hcycle
  · intro h
    have hsaid : ∀ p, Refers producers self parts p →
        ∃ depth w, producerAt producers depth p = some w := by
      intro p hp
      apply exists_said_of_acc
      apply Reach.acc_of_no_cycle producers
      · rintro p q ⟨parts, -, hq⟩
        exact hq.mem
      · intro q hpath hcycle
        exact h ⟨p, q, hp, hpath, hcycle⟩
    obtain ⟨depth, v, hv⟩ := exists_readParts hsaid
    exact ⟨depth + 1, v, hv⟩

end Cycles

/-! ## The resolver -/

section Resolver

variable {input : ResolveVariablesInput}

/-- The resolver reports a cycle exactly if some chain of references leads into one. -/
theorem cycle_iff_reachable (hone : OneToOne input.producers) :
    (∃ path, resolveVariables input = .cycle path) ↔
      CycleReachable input.producers input.selfOwnerId input.parts := by
  rw [← not_iff_not, ← exists_readAt_iff]
  have hread := @resolveVariables_resolved_iff input hone.agree
  constructor
  · intro h
    cases hresult : resolveVariables input with
    | cycle path => exact absurd ⟨path, hresult⟩ h
    | resolved value secret warnings =>
      obtain ⟨depth, hdepth⟩ := hread.mp ⟨warnings, hresult⟩
      exact ⟨depth, _, hdepth⟩
  · rintro ⟨depth, ⟨value, secret⟩, hdepth⟩ ⟨path, hpath⟩
    obtain ⟨warnings, hresult⟩ := hread.mpr ⟨depth, hdepth⟩
    rw [hpath] at hresult
    cases hresult

/-- A resolution ends without a call deeper than the producers are many. With owners and lineages
one to one, it reports a cycle exactly if one can be reached from the template, and returns a text
exactly if it is what the template says at every depth from some on. -/
theorem resolveVariables_substitutes (input : ResolveVariablesInput) :
    (∀ beyond, resolveWithin input.producers beyond (input.producers.length + 1) []
        input.selfOwnerId input.parts ⟨[], []⟩ =
      resolveParts input.producers (input.producers.length + 1) [] input.selfOwnerId input.parts
        ⟨[], []⟩) ∧
    (OneToOne input.producers →
      ((∃ path, resolveVariables input = .cycle path) ↔
        CycleReachable input.producers input.selfOwnerId input.parts) ∧
      ∀ value secret, (∃ warnings, resolveVariables input = .resolved value secret warnings) ↔
        ∃ depth, ∀ deeper ≥ depth,
          readAt input.producers deeper input.selfOwnerId input.parts = some (value, secret)) := by
  refine ⟨fun beyond => resolveWithin_eq _ beyond _ _ _, fun hone => ⟨cycle_iff_reachable hone, ?_⟩⟩
  intro value secret
  rw [resolveVariables_resolved_iff hone.agree]
  constructor
  · rintro ⟨depth, h⟩
    exact ⟨depth, fun deeper hle => readAt_mono hle h⟩
  · rintro ⟨depth, h⟩
    exact ⟨depth, h depth le_rfl⟩

/-- A URL of one Service that refers to a secret of another. -/
def linkedUrl : ResolveVariablesInput where
  parts := [.ref .self "URL"]
  selfOwnerId := "api"
  producers := [
    ⟨"api", .service "api-lineage", "URL",
      .template [.text "db:", .ref (.service "db-lineage") "PASSWORD"]⟩,
    ⟨"db", .service "db-lineage", "PASSWORD", .secret "hunter2"⟩]

theorem linkedUrl_substitutes : OneToOne linkedUrl.producers ∧
    ∃ warnings, resolveVariables linkedUrl = .resolved "db:hunter2" true warnings := by
  have hone : OneToOne linkedUrl.producers := by
    unfold OneToOne
    decide
  have hread : readAt linkedUrl.producers 3 linkedUrl.selfOwnerId linkedUrl.parts =
      some ("db:hunter2", true) := by decide
  exact ⟨hone, (((resolveVariables_substitutes linkedUrl).2 hone).2 _ _).mpr
    ⟨3, fun deeper hle => readAt_mono hle hread⟩⟩

end Resolver

end Ployz
