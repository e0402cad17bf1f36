import Ployz.Config.Environment
import Mathlib.Data.List.Nodup

/-!
# Resolving variable templates

`resolveVariables` follows the references of a template through the producers it is given, last
producer first, with a memo and the stack of what it is inside of; a reference back into the
stack is a cycle, one that finds nothing a warning.

`readAt` is what a template says, without memo or stack: the text read to a depth of nested
templates. `resolveVariables_resolved_iff` says that the resolver finds exactly that text, and a
cycle exactly if there is none at any depth, for producers that `Agree`: those the resolver
takes for one read the same. `resolveVariables_quiet` says when it warns of nothing.
-/

namespace Ployz

open Run

/-- Plaintext inputs of one resolution. -/
inductive ResolverValue
  | literal (value : String)
  | secret (value : String)
  | template (parts : List ValuePart)
deriving DecidableEq, Repr

/-- A supplied variable value keyed by its owner and stable reference scope. -/
structure VariableProducer where
  ownerId : String
  owner : ValuePartOwner
  key : String
  value : ResolverValue
deriving DecidableEq, Repr

/-- A template and the producer facts available to resolve it. -/
structure ResolveVariablesInput where
  parts : List ValuePart
  selfOwnerId : String
  producers : List VariableProducer

/-- A missing producer reference encountered during template resolution. -/
structure TemplateWarning where
  kind : String
  ownerId : Option String
  key : String
deriving DecidableEq, Repr

/-- Resolved text with secret provenance, or the cycle that prevents resolution. -/
inductive ResolveVariablesResult
  | resolved (value : String) (secret : Bool) (warnings : List TemplateWarning)
  | cycle (path : List String)
deriving DecidableEq, Repr

/-- Text and whether it holds a secret. -/
abbrev Resolved := String × Bool

/-- What the resolver knows a producer by: its owner and key. -/
abbrev VariableId := String × String

namespace VariableProducer

def id (producer : VariableProducer) : VariableId := (producer.ownerId, producer.key)

/-- Whether a reference to `key` of `owner` in a template of `self` reads the producer. -/
def answers (self : String) (owner : ValuePartOwner) (key : String) (producer : VariableProducer) :
    Bool :=
  producer.key == key && match owner with
    | .self => producer.ownerId == self
    | .service _ => producer.owner == owner

variable {self key : String} {producer : VariableProducer}

theorem answers_self :
    producer.answers self .self key = true ↔ producer.key = key ∧ producer.ownerId = self := by
  simp [answers]

theorem answers_service {lineage : String} : producer.answers self (.service lineage) key = true ↔
    producer.key = key ∧ producer.owner = .service lineage := by
  simp [answers]

theorem key_of_answers {owner : ValuePartOwner} (h : producer.answers self owner key = true) :
    producer.key = key := by
  cases owner with
  | self => exact (answers_self.mp h).1
  | service => exact (answers_service.mp h).1

end VariableProducer

/-- The producer a reference reads: the last one that answers. -/
def found (producers : List VariableProducer) (self : String) (owner : ValuePartOwner)
    (key : String) : Option VariableProducer :=
  producers.reverse.find? (·.answers self owner key)

/-! ## The resolver -/

/-- What a resolution keeps: its warnings and what it resolved so far. -/
structure Resolving where
  warnings : List TemplateWarning
  memo : List (VariableId × Resolved)

/-- The resolution of a template's parts inside a stack, for its owner. -/
abbrev Resolver := List VariableId → String → List ValuePart → Resolving →
  Except (List String) (Resolved × Resolving)

/-- A path through producers, as it is shown. -/
def pathOf (ids : List VariableId) : List String := ids.map fun (owner, key) => owner ++ "::" ++ key

/-- What a producer's value resolves to; `deeper` resolves a template's parts. -/
def resolveValue (deeper : Resolver) (stack : List VariableId) (producer : VariableProducer)
    (state : Resolving) : Except (List String) (Resolved × Resolving) :=
  match producer.value with
  | .literal value => pure ((value, false), state)
  | .secret value => pure ((value, true), state)
  | .template parts => deeper (stack ++ [producer.id]) producer.ownerId parts state

/-- A producer resolved, from the memo if it was before. -/
def resolveFound (deeper : Resolver) (stack : List VariableId) (producer : VariableProducer)
    (state : Resolving) : Except (List String) (Resolved × Resolving) :=
  match state.memo.lookup producer.id with
  | some cached => pure (cached, state)
  | none => do
    let (resolved, state) ← resolveValue deeper stack producer state
    return (resolved, { state with memo := (producer.id, resolved) :: state.memo })

/-- One part of a template, after those before it. -/
def resolvePart (producers : List VariableProducer) (deeper : Resolver) (stack : List VariableId)
    (self : String) (before : Resolved × Resolving) (part : ValuePart) :
    Except (List String) (Resolved × Resolving) :=
  match part with
  | .text text => pure ((before.1.1 ++ text, before.1.2), before.2)
  | .ref owner key => match found producers self owner key with
    | none => pure (before.1, { before.2 with
        warnings := before.2.warnings ++
          [⟨"missing", if owner = .self then some self else none, key⟩] })
    | some producer =>
      if stack.contains producer.id then throw (pathOf (stack ++ [producer.id]))
      else do
        let (resolved, state) ← resolveFound deeper stack producer before.2
        return ((before.1.1 ++ resolved.1, before.1.2 || resolved.2), state)

/-- The parts in turn. Templates nest no deeper than there are producers, since none is inside
itself: the first case is never met from `resolveVariables`. -/
def resolveParts (producers : List VariableProducer) : Nat → Resolver
  | 0 => fun stack _ _ _ => throw (pathOf stack)
  | depth + 1 => fun stack self parts state =>
    parts.foldlM (resolvePart producers (resolveParts producers depth) stack self)
      (("", false), state)

/-- Resolve supplied templates transitively, retaining secret provenance and reporting missing
producers or cycles. -/
def resolveVariables (input : ResolveVariablesInput) : ResolveVariablesResult :=
  match resolveParts input.producers (input.producers.length + 1) [] input.selfOwnerId input.parts
    ⟨[], []⟩ with
  | .ok ((value, secret), state) => .resolved value secret state.warnings
  | .error path => .cycle path

/-! ## What a template says -/

def Resolved.append (a b : Resolved) : Resolved := (a.1 ++ b.1, a.2 || b.2)

def ResolverValue.read (deeper : List ValuePart → Option Resolved) : ResolverValue → Option Resolved
  | .literal value => some (value, false)
  | .secret value => some (value, true)
  | .template parts => deeper parts

def readPart (producers : List VariableProducer)
    (deeper : String → List ValuePart → Option Resolved) (self : String) :
    ValuePart → Option Resolved
  | .text text => some (text, false)
  | .ref owner key => match found producers self owner key with
    | none => some ("", false)
    | some producer => producer.value.read (deeper producer.ownerId)

def readParts (producers : List VariableProducer)
    (deeper : String → List ValuePart → Option Resolved) (self : String) :
    List ValuePart → Option Resolved
  | [] => some ("", false)
  | part :: rest => do
    let a ← readPart producers deeper self part
    let b ← readParts producers deeper self rest
    return a.append b

/-- What a template of `self` says, read to a depth of nested templates; none if it goes on. -/
def readAt (producers : List VariableProducer) : Nat → String → List ValuePart → Option Resolved
  | 0 => fun _ _ => none
  | depth + 1 => readParts producers (readAt producers depth)

def producerAt (producers : List VariableProducer) (depth : Nat) (producer : VariableProducer) :
    Option Resolved :=
  producer.value.read (readAt producers depth producer.ownerId)

theorem Resolved.append_empty (a : Resolved) : a.append ("", false) = a := by
  simp [Resolved.append]

theorem Resolved.empty_append (a : Resolved) : Resolved.append ("", false) a = a := by
  simp [Resolved.append]

theorem Resolved.append_assoc (a b c : Resolved) :
    (a.append b).append c = a.append (b.append c) := by
  simp [Resolved.append, String.append_assoc, Bool.or_assoc]

variable {part : ValuePart} {depth : Nat} {v : Resolved}

section

variable {producers : List VariableProducer}

theorem readPart_mono {deeper deeper' : String → List ValuePart → Option Resolved}
    (h : ∀ self parts v, deeper self parts = some v → deeper' self parts = some v) {self : String}
    (hv : readPart producers deeper self part = some v) :
    readPart producers deeper' self part = some v := by
  cases part with
  | text text => exact hv
  | ref owner key =>
    rw [readPart] at hv ⊢
    split at hv
    · exact hv
    · next producer hfound =>
      cases hvalue : producer.value with
      | literal | secret =>
        rw [hvalue] at hv
        exact hv
      | template parts =>
        rw [hvalue] at hv
        exact h _ _ _ hv

variable {parts : List ValuePart} {depth' : Nat}

theorem readParts_mono {deeper deeper' : String → List ValuePart → Option Resolved}
    (h : ∀ self parts v, deeper self parts = some v → deeper' self parts = some v) {self : String}
    (hv : readParts producers deeper self parts = some v) :
    readParts producers deeper' self parts = some v := by
  induction parts generalizing v with
  | nil => exact hv
  | cons part rest ih =>
    obtain ⟨a, ha, hv⟩ := Option.bind_eq_some_iff.mp hv
    obtain ⟨b, hb, hv⟩ := Option.bind_eq_some_iff.mp hv
    rw [readParts, readPart_mono h ha]
    simp only [Option.bind_eq_bind, Option.bind_some, ih hb]
    exact hv

theorem readAt_succ {self : String} (h : readAt producers depth self parts = some v) :
    readAt producers (depth + 1) self parts = some v := by
  induction depth generalizing self parts v with
  | zero => cases h
  | succ depth ih => exact readParts_mono (fun _ _ _ hv => ih hv) h

theorem readAt_mono (hle : depth ≤ depth') {self : String}
    (h : readAt producers depth self parts = some v) :
    readAt producers depth' self parts = some v := by
  induction hle with
  | refl => exact h
  | step _ ih => exact readAt_succ ih

theorem producerAt_mono (hle : depth ≤ depth') {producer : VariableProducer}
    (h : producerAt producers depth producer = some v) :
    producerAt producers depth' producer = some v := by
  unfold producerAt at h ⊢
  cases hvalue : producer.value with
  | literal | secret =>
    rw [hvalue] at h
    exact h
  | template parts =>
    rw [hvalue] at h
    exact readAt_mono hle h

theorem producerAt_unique {producer : VariableProducer} {v' : Resolved}
    (h : producerAt producers depth producer = some v)
    (h' : producerAt producers depth' producer = some v') : v = v' := by
  have hmax := producerAt_mono (Nat.le_max_left depth depth') h
  exact Option.some.inj (hmax.symm.trans (producerAt_mono (Nat.le_max_right depth depth') h'))

end

/-! ## The resolver finds what a template says -/

/-- A producer some reference reads. -/
def Findable (producers : List VariableProducer) (producer : VariableProducer) : Prop :=
  ∃ self owner key, found producers self owner key = some producer

/-- The producers the resolver takes for one say the same. -/
def Agree (producers : List VariableProducer) : Prop :=
  ∀ p q, Findable producers p → Findable producers q → p.id = q.id →
    ∀ depth, producerAt producers depth p = producerAt producers depth q

/-- Each entry of the memo is what its producers say. -/
def MemoSays (producers : List VariableProducer) (memo : List (VariableId × Resolved)) : Prop :=
  ∀ p, Findable producers p → ∀ v, memo.lookup p.id = some v →
    ∃ depth, producerAt producers depth p = some v

variable {p : VariableProducer} {deeper : Resolver} {stack : List VariableId}
  {before : Resolved × Resolving}

section

variable {producers : List VariableProducer}

theorem Findable.mem (h : Findable producers p) : p ∈ producers := by
  obtain ⟨self, owner, key, hfound⟩ := h
  exact List.mem_reverse.mp (List.mem_of_find?_eq_some hfound)

theorem MemoSays.nil : MemoSays producers [] := fun _ _ _ h => by cases h

theorem MemoSays.cons (hagree : Agree producers) {memo : List (VariableId × Resolved)}
    (hmemo : MemoSays producers memo) {p : VariableProducer} (hp : Findable producers p)
    {depth : Nat} {v : Resolved} (hv : producerAt producers depth p = some v) :
    MemoSays producers ((p.id, v) :: memo) := by
  intro q hq w hw
  by_cases hid : q.id = p.id
  · rw [hid, List.lookup_cons_self] at hw
    obtain rfl := Option.some.inj hw
    exact ⟨depth, (hagree q p hq hp hid depth).trans hv⟩
  · rw [List.lookup_cons, beq_false_of_ne hid] at hw
    exact hmemo q hq w hw

/-- What a resolver of nested templates returns is what they say. -/
def Resolver.Sound (producers : List VariableProducer) (resolver : Resolver) : Prop :=
  ∀ stack self parts state result state', resolver stack self parts state = .ok (result, state') →
    MemoSays producers state.memo →
      (∃ depth, readAt producers depth self parts = some result) ∧ MemoSays producers state'.memo

theorem resolveFound_sound (hagree : Agree producers) (hdeeper : Resolver.Sound producers deeper)
    (hp : Findable producers p) {state state' : Resolving} {result : Resolved}
    (h : resolveFound deeper stack p state = .ok (result, state'))
    (hmemo : MemoSays producers state.memo) :
    (∃ depth, producerAt producers depth p = some result) ∧ MemoSays producers state'.memo := by
  rw [resolveFound] at h
  split at h
  · next cached hcached =>
    obtain ⟨rfl, rfl⟩ := Prod.mk.inj (pure_eq_ok.mp h)
    exact ⟨hmemo p hp _ hcached, hmemo⟩
  · obtain ⟨⟨resolved, next⟩, hvalue, h⟩ := bind_eq_ok.mp h
    obtain ⟨rfl, rfl⟩ := Prod.mk.inj (pure_eq_ok.mp h)
    have hsaid : (∃ depth, producerAt producers depth p = some resolved) ∧
        MemoSays producers next.memo := by
      rw [resolveValue] at hvalue
      unfold producerAt
      split at hvalue
      · next hliteral =>
        obtain ⟨rfl, rfl⟩ := Prod.mk.inj (pure_eq_ok.mp hvalue)
        exact ⟨⟨0, by rw [hliteral]; rfl⟩, hmemo⟩
      · next hsecret =>
        obtain ⟨rfl, rfl⟩ := Prod.mk.inj (pure_eq_ok.mp hvalue)
        exact ⟨⟨0, by rw [hsecret]; rfl⟩, hmemo⟩
      · next parts htemplate =>
        rw [htemplate]
        exact hdeeper _ _ _ _ _ _ hvalue hmemo
    obtain ⟨⟨depth, hdepth⟩, hnext⟩ := hsaid
    exact ⟨⟨depth, hdepth⟩, hnext.cons hagree hp hdepth⟩

/-- One part appends what it says. -/
theorem resolvePart_sound (hagree : Agree producers) (hdeeper : Resolver.Sound producers deeper)
    {self : String} {after : Resolved × Resolving}
    (h : resolvePart producers deeper stack self before part = .ok after)
    (hmemo : MemoSays producers before.2.memo) :
    (∃ depth v, readPart producers (readAt producers depth) self part = some v ∧
      after.1 = before.1.append v) ∧ MemoSays producers after.2.memo := by
  cases part with
  | text text =>
    obtain rfl := pure_eq_ok.mp h
    exact ⟨⟨0, (text, false), rfl, by simp [Resolved.append]⟩, hmemo⟩
  | ref owner key =>
    rw [resolvePart] at h
    simp only [readPart]
    split at h
    · next hnone =>
      obtain rfl := pure_eq_ok.mp h
      exact ⟨⟨0, ("", false), rfl, (Resolved.append_empty _).symm⟩, hmemo⟩
    · next producer hfound =>
      split_ifs at h with hstack
      obtain ⟨⟨resolved, state⟩, hresolved, h⟩ := bind_eq_ok.mp h
      obtain rfl := pure_eq_ok.mp h
      obtain ⟨⟨depth, hdepth⟩, hstate⟩ :=
        resolveFound_sound hagree hdeeper ⟨_, _, _, hfound⟩ hresolved hmemo
      exact ⟨⟨depth, resolved, hdepth, rfl⟩, hstate⟩

theorem resolveParts_sound (hagree : Agree producers) (depth : Nat) :
    Resolver.Sound producers (resolveParts producers depth) := by
  induction depth with
  | zero =>
    intro stack self parts state result state' h
    cases h
  | succ depth ih =>
    intro stack self parts state result state' h hmemo
    rw [resolveParts] at h
    -- The text so far and what the rest says make up the result.
    suffices hfold : ∀ (parts : List ValuePart) (before : Resolved × Resolving)
        (after : Resolved × Resolving),
        parts.foldlM (resolvePart producers (resolveParts producers depth) stack self) before =
          .ok after → MemoSays producers before.2.memo →
        (∃ depth v, readParts producers (readAt producers depth) self parts = some v ∧
          after.1 = before.1.append v) ∧ MemoSays producers after.2.memo by
      obtain ⟨⟨deep, v, hv, heq⟩, hstate⟩ := hfold parts _ _ h hmemo
      refine ⟨⟨deep + 1, ?_⟩, hstate⟩
      rw [show result = v from heq.trans (Resolved.empty_append v)]
      exact hv
    intro parts
    induction parts with
    | nil =>
      intro before after h hbefore
      obtain rfl := pure_eq_ok.mp h
      exact ⟨⟨0, ("", false), rfl, (Resolved.append_empty _).symm⟩, hbefore⟩
    | cons part rest ihrest =>
      intro before after h hbefore
      rw [List.foldlM_cons] at h
      obtain ⟨middle, hpart, hrest⟩ := bind_eq_ok.mp h
      obtain ⟨⟨d, v, hv, hmiddle⟩, hmid⟩ := resolvePart_sound hagree ih hpart hbefore
      obtain ⟨⟨d', w, hw, hafter⟩, hend⟩ := ihrest middle after hrest hmid
      refine ⟨⟨max d d', v.append w, ?_, ?_⟩, hend⟩
      · rw [readParts, readPart_mono (fun _ _ _ => readAt_mono (Nat.le_max_left d d')) hv,
          readParts_mono (fun _ _ _ => readAt_mono (Nat.le_max_right d d')) hw]
        rfl
      · rw [hafter, hmiddle, Resolved.append_assoc]

end

/-! ## The resolver succeeds on what a template says -/

section

variable {producers : List VariableProducer}

/-- A resolver succeeds on what is read to a depth no producer of its stack is said at. The stack
holds producers, none twice, and leaves the resolver `room`. -/
def Resolver.Succeeds (producers : List VariableProducer) (room : Nat) (resolver : Resolver) :
    Prop :=
  ∀ stack self parts state deep v,
    stack.Nodup → stack ⊆ producers.map (·.id) → producers.length < stack.length + room →
    (∀ p, Findable producers p → p.id ∈ stack → producerAt producers deep p = none) →
    readParts producers (readAt producers deep) self parts = some v →
    MemoSays producers state.memo →
      ∃ state', resolver stack self parts state = .ok (v, state')

theorem resolveFound_succeeds (hagree : Agree producers) {room : Nat}
    (hdeeper : Resolver.Succeeds producers room deeper) (hp : Findable producers p)
    (hnodup : stack.Nodup) (hstack : stack ⊆ producers.map (·.id))
    (hroom : producers.length < stack.length + (room + 1)) {deep : Nat}
    (hnone : ∀ q, Findable producers q → q.id ∈ stack → producerAt producers deep q = none)
    (hv : producerAt producers deep p = some v) (hfresh : p.id ∉ stack) {state : Resolving}
    (hmemo : MemoSays producers state.memo) :
    ∃ state', resolveFound deeper stack p state = .ok (v, state') := by
  rw [resolveFound]
  cases hcached : state.memo.lookup p.id with
  | some cached =>
    obtain ⟨depth, hdepth⟩ := hmemo p hp _ hcached
    exact ⟨state, by rw [producerAt_unique hdepth hv]; rfl⟩
  | none =>
    suffices hvalue : ∃ state', resolveValue deeper stack p state = .ok (v, state') by
      obtain ⟨state', hvalue⟩ := hvalue
      exact ⟨_, bind_eq_ok.mpr ⟨_, hvalue, rfl⟩⟩
    rw [resolveValue]
    cases hkind : p.value with
    | literal text | secret text =>
      rw [producerAt, hkind] at hv
      obtain rfl := Option.some.inj hv
      exact ⟨state, rfl⟩
    | template parts =>
      -- The least depth it is said at leaves it unsaid one level below, as the stack is.
      have hex : ∃ depth, (producerAt producers depth p).isSome := ⟨deep, by rw [hv]; rfl⟩
      classical
      have hle : Nat.find hex ≤ deep := Nat.find_min' hex (by rw [hv]; rfl)
      obtain ⟨w, hw⟩ := Option.isSome_iff_exists.mp (Nat.find_spec hex)
      obtain rfl := producerAt_unique hw hv
      cases hleast : Nat.find hex with
      | zero =>
        rw [hleast, producerAt, hkind] at hw
        cases hw
      | succ least =>
        rw [hleast] at hle
        rw [hleast, producerAt, hkind] at hw
        have hunsaid : producerAt producers least p = none := by
          have hmin := Nat.find_min hex (m := least) (by omega)
          simpa using hmin
        obtain ⟨state', hstate'⟩ := hdeeper (stack ++ [p.id]) p.ownerId parts state least w
          (List.nodup_append.mpr ⟨hnodup, List.nodup_singleton _, by
            rintro a ha b hb rfl
            exact hfresh (List.mem_singleton.mp hb ▸ ha)⟩)
          (List.append_subset.mpr ⟨hstack, by
            simpa using ⟨p, hp.mem, rfl⟩⟩)
          (by rw [List.length_append, List.length_singleton]; omega)
          (by
            intro q hq hmem
            rcases List.mem_append.mp hmem with hin | hin
            · cases hsome : producerAt producers least q with
              | none => rfl
              | some u =>
                have hsaid := producerAt_mono (Nat.le_of_succ_le hle) hsome
                rw [hnone q hq hin] at hsaid
                cases hsaid
            · rw [hagree q p hq hp (List.mem_singleton.mp hin)]
              exact hunsaid)
          hw hmemo
        exact ⟨state', hstate'⟩

/-- One part succeeds, with what it says. -/
theorem resolvePart_succeeds (hagree : Agree producers) {room : Nat}
    (hdeeper : Resolver.Succeeds producers room deeper) {self : String} (hnodup : stack.Nodup)
    (hstack : stack ⊆ producers.map (·.id)) (hroom : producers.length < stack.length + (room + 1))
    {deep : Nat}
    (hnone : ∀ q, Findable producers q → q.id ∈ stack → producerAt producers deep q = none)
    (hv : readPart producers (readAt producers deep) self part = some v)
    (hmemo : MemoSays producers before.2.memo) :
    ∃ state', resolvePart producers deeper stack self before part =
      .ok (before.1.append v, state') := by
  cases part with
  | text text =>
    obtain rfl := Option.some.inj hv
    exact ⟨before.2, by simp [resolvePart, Resolved.append]⟩
  | ref owner key =>
    rw [readPart] at hv
    rw [resolvePart]
    split at hv
    · obtain rfl := Option.some.inj hv
      exact ⟨_, by rw [Resolved.append_empty]; rfl⟩
    · next producer hfound =>
      have hp : Findable producers producer := ⟨_, _, _, hfound⟩
      have hfresh : producer.id ∉ stack := by
        intro hin
        have hunsaid := hnone producer hp hin
        rw [producerAt, hv] at hunsaid
        cases hunsaid
      obtain ⟨state', hstate'⟩ :=
        resolveFound_succeeds hagree hdeeper hp hnodup hstack hroom hnone hv
        hfresh hmemo
      rw [if_neg (by simpa using hfresh), hstate']
      exact ⟨state', rfl⟩

theorem resolveParts_succeeds (hagree : Agree producers) (room : Nat) :
    Resolver.Succeeds producers room (resolveParts producers room) := by
  induction room with
  | zero =>
    intro stack self parts state deep v hnodup hstack hroom
    have hlength := (List.subperm_of_subset hnodup hstack).length_le
    rw [List.length_map] at hlength
    omega
  | succ room ih =>
    intro stack self parts state deep v hnodup hstack hroom hnone hv hmemo
    rw [resolveParts]
    suffices hfold : ∀ (parts : List ValuePart) (v : Resolved) (before : Resolved × Resolving),
        readParts producers (readAt producers deep) self parts = some v →
        MemoSays producers before.2.memo →
        ∃ state', parts.foldlM (resolvePart producers (resolveParts producers room) stack self)
          before = .ok (before.1.append v, state') by
      obtain ⟨state', hstate'⟩ := hfold parts v (("", false), state) hv hmemo
      exact ⟨state', hstate'.trans (by rw [Resolved.empty_append])⟩
    intro parts
    induction parts with
    | nil =>
      intro v before hv _
      obtain rfl := Option.some.inj hv
      exact ⟨before.2, by rw [Resolved.append_empty]; rfl⟩
    | cons part rest ihrest =>
      intro v before hv hbefore
      obtain ⟨a, ha, hv⟩ := Option.bind_eq_some_iff.mp hv
      obtain ⟨b, hb, hv⟩ := Option.bind_eq_some_iff.mp hv
      obtain rfl := Option.some.inj hv
      obtain ⟨middle, hpart⟩ :=
        resolvePart_succeeds hagree ih hnodup hstack hroom hnone ha hbefore
      have hmiddle := (resolvePart_sound hagree (resolveParts_sound hagree room) hpart hbefore).2
      obtain ⟨state', hstate'⟩ := ihrest b (before.1.append a, middle) hb hmiddle
      refine ⟨state', ?_⟩
      rw [List.foldlM_cons, hpart]
      exact hstate'.trans (by rw [Resolved.append_assoc])

/-- The resolver returns what the template says, and a cycle exactly if it goes on at every
depth. -/
theorem resolveVariables_resolved_iff {input : ResolveVariablesInput}
    (hagree : Agree input.producers) {value : String} {secret : Bool} :
    (∃ warnings, resolveVariables input = .resolved value secret warnings) ↔
      ∃ depth, readAt input.producers depth input.selfOwnerId input.parts =
        some (value, secret) := by
  rw [resolveVariables]
  constructor
  · rintro ⟨warnings, h⟩
    split at h
    · next hok =>
      obtain ⟨rfl, rfl, -⟩ := ResolveVariablesResult.resolved.inj h
      exact (resolveParts_sound hagree _ _ _ _ _ _ _ hok MemoSays.nil).1
    · cases h
  · rintro ⟨depth, h⟩
    cases depth with
    | zero => cases h
    | succ depth =>
      obtain ⟨state, hok⟩ := resolveParts_succeeds hagree (input.producers.length + 1) []
        input.selfOwnerId input.parts ⟨[], []⟩ depth (value, secret) List.nodup_nil (by simp)
        (by simp) (by simp) h MemoSays.nil
      rw [hok]
      exact ⟨state.warnings, rfl⟩

/-! ## Warnings -/

/-- Every reference of a template of `self` finds a producer. -/
def Provided (producers : List VariableProducer) (self : String) (parts : List ValuePart) : Prop :=
  ∀ owner key, ValuePart.ref owner key ∈ parts → (found producers self owner key).isSome = true

/-- A resolver warns of nothing in templates whose references find their producers. -/
def Quiet (producers : List VariableProducer) (resolver : Resolver) : Prop :=
  ∀ stack self parts state result state', resolver stack self parts state = .ok (result, state') →
    Provided producers self parts → state'.warnings = state.warnings

theorem resolvePart_quiet
    (hprovided : ∀ p ∈ producers, ∀ parts, p.value = .template parts →
      Provided producers p.ownerId parts)
    (hdeeper : Quiet producers deeper) {self : String} {after : Resolved × Resolving}
    (h : resolvePart producers deeper stack self before part = .ok after)
    (hpart : Provided producers self [part]) : after.2.warnings = before.2.warnings := by
  cases part with
  | text text =>
    obtain rfl := pure_eq_ok.mp h
    rfl
  | ref owner key =>
    obtain ⟨producer, hfound⟩ := Option.isSome_iff_exists.mp (hpart owner key (by simp))
    rw [resolvePart, hfound] at h
    dsimp only at h
    split_ifs at h with hstack
    obtain ⟨⟨resolved, state⟩, hresolved, h⟩ := bind_eq_ok.mp h
    obtain rfl := pure_eq_ok.mp h
    rw [resolveFound] at hresolved
    split at hresolved
    · obtain ⟨-, rfl⟩ := Prod.mk.inj (pure_eq_ok.mp hresolved)
      rfl
    · obtain ⟨⟨value, next⟩, hvalue, hresolved⟩ := bind_eq_ok.mp hresolved
      obtain ⟨-, rfl⟩ := Prod.mk.inj (pure_eq_ok.mp hresolved)
      rw [resolveValue] at hvalue
      split at hvalue
      · obtain ⟨-, rfl⟩ := Prod.mk.inj (pure_eq_ok.mp hvalue)
        rfl
      · obtain ⟨-, rfl⟩ := Prod.mk.inj (pure_eq_ok.mp hvalue)
        rfl
      · next parts htemplate =>
        have hmem : producer ∈ producers := Findable.mem ⟨_, _, _, hfound⟩
        have hquiet := hdeeper _ _ _ _ _ _ hvalue (hprovided producer hmem parts htemplate)
        exact hquiet

/-- A resolution in which every reference finds a producer warns of nothing. -/
theorem resolveParts_quiet (hprovided : ∀ p ∈ producers, ∀ parts, p.value = .template parts →
      Provided producers p.ownerId parts) (depth : Nat) :
    Quiet producers (resolveParts producers depth) := by
  induction depth with
  | zero =>
    intro stack self parts state result state' h
    cases h
  | succ depth ih =>
    intro stack self parts state result state' h hparts
    rw [resolveParts] at h
    have hend := foldlM_invariant
      (P := fun (rest : List ValuePart) (before : Resolved × Resolving) =>
        Provided producers self rest ∧ before.2.warnings = state.warnings)
      (fun part rest before after hbefore hstep _ => ?_) ⟨hparts, rfl⟩ h
    · exact hend.2
    · obtain ⟨hrest, hwarnings⟩ := hbefore
      refine ⟨fun owner key hmem => hrest owner key (List.mem_cons_of_mem _ hmem), ?_⟩
      rw [resolvePart_quiet hprovided ih hstep fun owner key hmem => hrest owner key (by
        rw [List.mem_singleton.mp hmem]; exact List.mem_cons_self)]
      exact hwarnings

/-- A template that is said is resolved without a warning, if every reference finds a
producer. -/
theorem resolveVariables_quiet {input : ResolveVariablesInput} (hagree : Agree input.producers)
    (hprovided : ∀ p ∈ input.producers, ∀ parts, p.value = .template parts →
      Provided input.producers p.ownerId parts)
    (hparts : Provided input.producers input.selfOwnerId input.parts)
    (h : readAt input.producers depth input.selfOwnerId input.parts = some v) :
    resolveVariables input = .resolved v.1 v.2 [] := by
  obtain ⟨warnings, hresolved⟩ := (resolveVariables_resolved_iff hagree).mpr ⟨depth, h⟩
  rw [hresolved]
  rw [resolveVariables] at hresolved
  split at hresolved
  · next hok =>
    obtain ⟨rfl, rfl, rfl⟩ := ResolveVariablesResult.resolved.inj hresolved
    rw [resolveParts_quiet hprovided _ _ _ _ _ _ _ hok hparts]
  · cases hresolved

end

end Ployz
