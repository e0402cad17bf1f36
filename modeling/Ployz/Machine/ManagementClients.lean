import Ployz.Lib.Table
import Ployz.Lib.Trace
import Mathlib.Data.String.Basic

/-!
# Management Client keys

A Machine admits the keys of its Management Clients, one slot for each label. Setting a label stages
a fresh key beside the accepted one, the first operational call of the staged key accepts it in
place of the other, and clearing a label leaves a tombstone.

A step admits no key but the one it stages (`admits_of_attempt`), and no key is in two places
(`Apart`). So a key that was cleared or replaced stays out, whatever comes after:
`revoked_key_stays_revoked`.
-/

namespace Ployz.Machine

open Std (TreeMap)

abbrev PublicKey := Vector UInt8 32

/-- A lowercase letter, then up to 31 lowercase letters, digits or hyphens. -/
def isLabel (value : String) : Bool :=
  match value.toList with
  | [] => false
  | first :: rest => first.isLower && value.utf8ByteSize ≤ 32 &&
      rest.all fun char => char.isLower || char.isDigit || char == '-'

/-- Names one Management Client slot on a Machine. -/
structure ManagementClientLabel where
  value : String
  valid : isLabel value = true
deriving DecidableEq

namespace ManagementClientLabel

theorem value_injective : Function.Injective value := by
  rintro ⟨a, _⟩ ⟨b, _⟩ h
  simpa using h

instance : LinearOrder ManagementClientLabel := LinearOrder.lift' value value_injective

instance : Std.LawfulEqOrd ManagementClientLabel where
  eq_of_compare := compare_eq_iff_eq.mp

end ManagementClientLabel

/-! ## Slots -/

/-- A slot whose keys the management transport admits. -/
inductive LiveSlot
  | pending (pending : PublicKey)
  | active (accepted : PublicKey)
  | rotating (accepted pending : PublicKey)
deriving DecidableEq

namespace LiveSlot

def accepted? : LiveSlot → Option PublicKey
  | .active key | .rotating key _ => some key
  | .pending _ => none

def pending? : LiveSlot → Option PublicKey
  | .pending key | .rotating _ key => some key
  | .active _ => none

end LiveSlot

/-- Public keys held by one Management Client slot. A tombstone keeps the keys of the slot that was
cleared. -/
inductive ManagementClientSlot
  | cleared (was : LiveSlot)
  | live (slot : LiveSlot)
deriving DecidableEq

namespace ManagementClientSlot

def live? : ManagementClientSlot → Option LiveSlot
  | .live slot => some slot
  | .cleared _ => none

def accepted? (slot : ManagementClientSlot) : Option PublicKey := slot.live?.bind LiveSlot.accepted?

def pending? (slot : ManagementClientSlot) : Option PublicKey := slot.live?.bind LiveSlot.pending?

end ManagementClientSlot

/-! ## The record -/

/-- The part of a Machine's record that management keys are in. -/
structure LocalMachineRecord where
  managementClients : TreeMap ManagementClientLabel ManagementClientSlot

namespace LocalMachineRecord

/-- Public key `label` currently has accepted by the management transport. -/
def acceptedClient (record : LocalMachineRecord) (label : ManagementClientLabel) :
    Option PublicKey :=
  record.managementClients[label]?.bind (·.accepted?)

/-- Public key `label` has awaiting an authenticated handover. -/
def pendingClient (record : LocalMachineRecord) (label : ManagementClientLabel) :
    Option PublicKey :=
  record.managementClients[label]?.bind (·.pending?)

/-- Whether `remote` is any slot's accepted key, so it may run operational calls. -/
def acceptsManagementClient (record : LocalMachineRecord) (remote : PublicKey) : Bool :=
  record.managementClients.toList.any (·.2.accepted? == some remote)

/-- Label of the slot holding `remote` as its pending key. -/
def pendingLabel (record : LocalMachineRecord) (remote : PublicKey) :
    Option ManagementClientLabel :=
  (record.managementClients.toList.find? (·.2.pending? == some remote)).map (·.1)

/-- Whether `remote` is any slot's accepted or pending key, so it may connect. -/
def admitsManagementClient (record : LocalMachineRecord) (remote : PublicKey) : Bool :=
  record.acceptsManagementClient remote || (record.pendingLabel remote).isSome

end LocalMachineRecord

/-! ## The store -/

inductive StoreError
  | io
  | json
deriving DecidableEq

/-- Write a changed record; only a record that was saved replaces the one in use. -/
def persistManagementClients (saved : Except StoreError Unit)
    (change : TreeMap ManagementClientLabel ManagementClientSlot →
      TreeMap ManagementClientLabel ManagementClientSlot)
    (record : LocalMachineRecord) : LocalMachineRecord × Except StoreError Unit :=
  match saved with
  | .error error => (record, .error error)
  | .ok () => ({ record with managementClients := change record.managementClients }, .ok ())

/-- Stage a fresh client key in a slot, beside any key it has accepted. A tombstone is replaced. -/
def stageManagementClient (saved : Except StoreError Unit) (label : ManagementClientLabel)
    (pending : PublicKey) (record : LocalMachineRecord) :
    LocalMachineRecord × Except StoreError Unit :=
  let slot := match record.acceptedClient label with
    | some accepted => LiveSlot.rotating accepted pending
    | none => LiveSlot.pending pending
  persistManagementClients saved (·.insert label (.live slot)) record

/-- Turn a slot into a tombstone of its public keys. An absent label stays absent and a tombstone
stays unchanged, without a write. -/
def clearManagementClient (saved : Except StoreError Unit) (label : ManagementClientLabel)
    (record : LocalMachineRecord) : LocalMachineRecord × Except StoreError Unit :=
  match record.managementClients[label]?.bind (·.live?) with
  | none => (record, .ok ())
  | some was => persistManagementClients saved (·.insert label (.cleared was)) record

/-- Commit a pending key for its holder's first operational call. -/
def activateManagementClient (saved : Except StoreError Unit) (remote : PublicKey)
    (record : LocalMachineRecord) : LocalMachineRecord × Except StoreError Unit :=
  match record.pendingLabel remote with
  | none => (record, .ok ())
  | some label => persistManagementClients saved (·.insert label (.live (.active remote))) record

inductive Request
  | set (label : ManagementClientLabel) (pending : PublicKey)
  | clear (label : ManagementClientLabel)
  | activate (remote : PublicKey)

/-- A request with what becomes of its write. -/
structure Attempt where
  request : Request
  saved : Except StoreError Unit

/-- The record a request leaves. -/
def attempt (record : LocalMachineRecord) (tried : Attempt) : LocalMachineRecord :=
  match tried.request with
  | .set label pending => (stageManagementClient tried.saved label pending record).1
  | .clear label => (clearManagementClient tried.saved label record).1
  | .activate remote => (activateManagementClient tried.saved remote record).1

/-- A Machine's record before any management key. -/
def LocalMachineRecord.new : LocalMachineRecord := ⟨∅⟩

def run (attempts : List Attempt) : LocalMachineRecord := attempts.foldl attempt .new

theorem run_append (earlier later : List Attempt) :
    run (earlier ++ later) = later.foldl attempt (run earlier) :=
  List.foldl_append

theorem run_concat (earlier : List Attempt) (tried : Attempt) :
    run (earlier ++ [tried]) = attempt (run earlier) tried := by
  rw [run_append, List.foldl_cons, List.foldl_nil]

/-! ## Reading the record -/

variable {record : LocalMachineRecord} {tried : Attempt} {label other : ManagementClientLabel}
  {key remote : PublicKey}

namespace LocalMachineRecord

/-- `label`'s slot admits `key`. -/
def Holds (record : LocalMachineRecord) (label : ManagementClientLabel) (key : PublicKey) : Prop :=
  record.acceptedClient label = some key ∨ record.pendingClient label = some key

theorem accepts_iff :
    record.acceptsManagementClient remote = true ↔
      ∃ label, record.acceptedClient label = some remote := by
  simp only [acceptsManagementClient, acceptedClient, List.any_eq_true, Prod.exists, beq_iff_eq,
    TreeMap.mem_toList_iff_getElem?_eq_some, Option.bind_eq_some_iff]

theorem pendingClient_of_pendingLabel (h : record.pendingLabel remote = some label) :
    record.pendingClient label = some remote := by
  obtain ⟨⟨found, slot⟩, hfind, rfl⟩ := Option.map_eq_some_iff.mp h
  have hmem := TreeMap.mem_toList_iff_getElem?_eq_some.mp (List.mem_of_find?_eq_some hfind)
  have hpending := List.find?_some hfind
  rw [pendingClient, hmem]
  simpa using hpending

theorem pendingLabel_isSome_iff :
    (record.pendingLabel remote).isSome = true ↔
      ∃ label, record.pendingClient label = some remote := by
  simp only [pendingLabel, pendingClient, Option.isSome_map, List.find?_isSome, Prod.exists,
    beq_iff_eq, TreeMap.mem_toList_iff_getElem?_eq_some, Option.bind_eq_some_iff]

theorem admits_iff :
    record.admitsManagementClient remote = true ↔ ∃ label, record.Holds label remote := by
  rw [admitsManagementClient, Bool.or_eq_true, accepts_iff, pendingLabel_isSome_iff, ← exists_or]
  rfl

def put (record : LocalMachineRecord) (label : ManagementClientLabel)
    (slot : ManagementClientSlot) : LocalMachineRecord :=
  ⟨record.managementClients.insert label slot⟩

variable {slot : ManagementClientSlot}

theorem getElem?_put :
    (record.put label slot).managementClients[other]? =
      if label = other then some slot else record.managementClients[other]? := by
  simp [put, TreeMap.getElem?_insert]

theorem acceptedClient_put :
    (record.put label slot).acceptedClient other =
      if label = other then slot.accepted? else record.acceptedClient other := by
  rw [acceptedClient, getElem?_put]
  split <;> rfl

theorem pendingClient_put :
    (record.put label slot).pendingClient other =
      if label = other then slot.pending? else record.pendingClient other := by
  rw [pendingClient, getElem?_put]
  split <;> rfl

end LocalMachineRecord

/-! ## What one request does -/

/-- The slot a request writes, if its write goes through. -/
inductive Writes (record : LocalMachineRecord) :
    Request → ManagementClientLabel → ManagementClientSlot → Prop
  | rotating (label : ManagementClientLabel) (accepted pending : PublicKey)
      (h : record.acceptedClient label = some accepted) :
      Writes record (.set label pending) label (.live (.rotating accepted pending))
  | pending (label : ManagementClientLabel) (pending : PublicKey)
      (h : record.acceptedClient label = none) :
      Writes record (.set label pending) label (.live (.pending pending))
  | cleared (label : ManagementClientLabel) (was : LiveSlot)
      (h : record.managementClients[label]?.bind (·.live?) = some was) :
      Writes record (.clear label) label (.cleared was)
  | activated (label : ManagementClientLabel) (remote : PublicKey)
      (h : record.pendingLabel remote = some label) :
      Writes record (.activate remote) label (.live (.active remote))

theorem attempt_of_writes {slot : ManagementClientSlot}
    (h : Writes record tried.request label slot) (hsaved : tried.saved = .ok ()) :
    attempt record tried = record.put label slot := by
  obtain ⟨request, saved⟩ := tried
  obtain rfl : saved = .ok () := hsaved
  cases h with
  | rotating _ accepted pending h =>
    simp only [attempt, stageManagementClient, h]
    rfl
  | pending _ pending h =>
    simp only [attempt, stageManagementClient, h]
    rfl
  | cleared _ was h =>
    simp only [attempt, clearManagementClient, h]
    rfl
  | activated _ remote h =>
    simp only [attempt, activateManagementClient, h]
    rfl

theorem attempt_of_error {error : StoreError} (hsaved : tried.saved = .error error) :
    attempt record tried = record := by
  obtain ⟨request, saved⟩ := tried
  obtain rfl : saved = .error error := hsaved
  cases request with
  | set label pending => rfl
  | clear label =>
    simp only [attempt, clearManagementClient]
    split <;> rfl
  | activate remote =>
    simp only [attempt, activateManagementClient]
    split <;> rfl

/-- A request writes one slot, or leaves the record as it was. -/
theorem attempt_cases (record : LocalMachineRecord) (tried : Attempt) :
    attempt record tried = record ∨
      ∃ label slot, Writes record tried.request label slot ∧
        attempt record tried = record.put label slot := by
  cases hsaved : tried.saved with
  | error error => exact .inl (attempt_of_error hsaved)
  | ok _ =>
    have hwrites : ∀ label slot, Writes record tried.request label slot →
        ∃ label slot, Writes record tried.request label slot ∧
          attempt record tried = record.put label slot :=
      fun label slot h => ⟨label, slot, h, attempt_of_writes h hsaved⟩
    obtain ⟨request, saved⟩ := tried
    cases request with
    | set label pending =>
      cases h : record.acceptedClient label with
      | none => exact .inr (hwrites _ _ (.pending _ _ h))
      | some accepted => exact .inr (hwrites _ _ (.rotating _ _ _ h))
    | clear label =>
      cases h : record.managementClients[label]?.bind (·.live?) with
      | none => exact .inl (by simp only [attempt, clearManagementClient, h])
      | some was => exact .inr (hwrites _ _ (.cleared _ _ h))
    | activate remote =>
      cases h : record.pendingLabel remote with
      | none => exact .inl (by simp only [attempt, activateManagementClient, h])
      | some label => exact .inr (hwrites _ _ (.activated _ _ h))

def Request.label? (record : LocalMachineRecord) : Request → Option ManagementClientLabel
  | .set label _ | .clear label => some label
  | .activate remote => record.pendingLabel remote

def Attempt.staged? (tried : Attempt) : Option PublicKey :=
  match tried.request with
  | .set _ pending => some pending
  | .clear _ | .activate _ => none

theorem Writes.label? {request : Request} {slot : ManagementClientSlot}
    (h : Writes record request label slot) : request.label? record = some label := by
  cases h with
  | activated _ remote h => exact h
  | _ => rfl

theorem slot_of_attempt (h : tried.request.label? record ≠ some other) :
    (attempt record tried).managementClients[other]? = record.managementClients[other]? := by
  rcases attempt_cases record tried with hsame | ⟨label, slot, hwrites, hput⟩
  · rw [hsame]
  · have hne : label ≠ other := by
      rintro rfl
      exact h hwrites.label?
    rw [hput, LocalMachineRecord.getElem?_put, if_neg hne]

/-- What a slot admits after a request it admitted before, unless the request staged it there. -/
theorem holds_of_attempt (h : (attempt record tried).Holds label key) :
    record.Holds label key ∨ tried.request = .set label key := by
  rcases attempt_cases record tried with hsame | ⟨written, slot, hwrites, hput⟩
  · exact .inl (hsame ▸ h)
  · rw [hput, LocalMachineRecord.Holds, LocalMachineRecord.acceptedClient_put,
      LocalMachineRecord.pendingClient_put] at h
    by_cases hlabel : written = label
    · subst hlabel
      rw [if_pos rfl, if_pos rfl] at h
      obtain ⟨request, saved⟩ := tried
      cases hwrites with
      | rotating _ accepted pending hold =>
        rcases h with h | h
        · exact .inl (.inl (hold.trans h))
        · exact .inr (congrArg _ (Option.some.inj h))
      | pending _ pending hnone =>
        rcases h with h | h
        · cases h
        · exact .inr (congrArg _ (Option.some.inj h))
      | cleared _ was hold => rcases h with h | h <;> cases h
      | activated _ remote hold =>
        rcases h with h | h
        · obtain rfl := Option.some.inj h
          exact .inl (.inr (LocalMachineRecord.pendingClient_of_pendingLabel hold))
        · cases h
    · rw [if_neg hlabel, if_neg hlabel] at h
      exact .inl h

theorem staged?_of_set (h : tried.request = .set label key) : tried.staged? = some key := by
  rw [Attempt.staged?, h]

theorem admits_of_attempt (h : (attempt record tried).admitsManagementClient key = true) :
    record.admitsManagementClient key = true ∨ tried.staged? = some key := by
  obtain ⟨label, hlabel⟩ := LocalMachineRecord.admits_iff.mp h
  rcases holds_of_attempt hlabel with hold | hset
  · exact .inl (LocalMachineRecord.admits_iff.mpr ⟨label, hold⟩)
  · exact .inr (staged?_of_set hset)

/-! ## No key in two places -/

/-- Every admitted key was staged, and is in one place. -/
structure Apart (staged : List PublicKey) (record : LocalMachineRecord) : Prop where
  known : ∀ label key, record.Holds label key → key ∈ staged
  oneLabel : ∀ label other key, record.Holds label key → record.Holds other key → label = other
  oneKey : ∀ label key,
    record.acceptedClient label = some key → record.pendingClient label ≠ some key

variable {staged : List PublicKey}

theorem Apart.new : Apart [] .new := by
  have hnone : ∀ label : ManagementClientLabel,
      LocalMachineRecord.new.managementClients[label]? = none := fun label => by
    simp [LocalMachineRecord.new]
  refine ⟨?_, ?_, ?_⟩ <;>
    simp [LocalMachineRecord.Holds, LocalMachineRecord.acceptedClient,
      LocalMachineRecord.pendingClient, hnone]

theorem Apart.attempt (h : Apart staged record)
    (hfresh : ∀ key, tried.staged? = some key → key ∉ staged) :
    Apart (staged ++ tried.staged?.toList) (attempt record tried) := by
  have hnew : ∀ label other key, tried.request = .set label key → ¬ record.Holds other key :=
    fun label other key hset hold => hfresh key (staged?_of_set hset) (h.known _ _ hold)
  constructor
  · intro label key hholds
    rcases holds_of_attempt hholds with hold | hset
    · exact List.mem_append_left _ (h.known _ _ hold)
    · simp [staged?_of_set hset]
  · intro label other key hlabel hother
    rcases holds_of_attempt hlabel with hlabel | hlabel <;>
      rcases holds_of_attempt hother with hother | hother
    · exact h.oneLabel _ _ _ hlabel hother
    · exact absurd hlabel (hnew _ _ _ hother)
    · exact absurd hother (hnew _ _ _ hlabel)
    · cases hlabel.symm.trans hother
      rfl
  · intro label key haccepted hpending
    rcases attempt_cases record tried with hsame | ⟨written, slot, hwrites, hput⟩
    · rw [hsame] at haccepted hpending
      exact h.oneKey _ _ haccepted hpending
    · rw [hput, LocalMachineRecord.acceptedClient_put] at haccepted
      rw [hput, LocalMachineRecord.pendingClient_put] at hpending
      by_cases hlabel : written = label
      · subst hlabel
        rw [if_pos rfl] at haccepted hpending
        obtain ⟨request, saved⟩ := tried
        -- Only a rotation has both keys, and the staged one is fresh.
        cases hwrites with
        | rotating _ accepted pending hold =>
          obtain rfl := Option.some.inj hpending
          exact hnew _ _ _ rfl (.inl (hold.trans haccepted))
        | pending _ pending hnone => cases haccepted
        | cleared _ was hold => cases haccepted
        | activated _ remote hold => cases hpending
      · rw [if_neg hlabel] at haccepted hpending
        exact h.oneKey _ _ haccepted hpending

def stagedIn (history : List Attempt) : List PublicKey := history.filterMap (·.staged?)

theorem Apart.run {history : List Attempt} (hfresh : (stagedIn history).Nodup) :
    Apart (stagedIn history) (run history) := by
  induction history using List.reverseRecOn with
  | nil => exact .new
  | append_singleton history tried ih =>
    have hsplit : stagedIn (history ++ [tried]) = stagedIn history ++ tried.staged?.toList := by
      cases h : tried.staged? <;> simp [stagedIn, h]
    rw [hsplit] at hfresh ⊢
    rw [run_concat]
    refine (ih hfresh.of_append_left).attempt fun key hkey hmem => ?_
    exact List.disjoint_of_nodup_append hfresh hmem (by simp [hkey])

/-! ## Revocation -/

/-- A request whose write goes through revokes `key`: it clears the slot that admits it, stages
another key over it, or accepts another key in its place. -/
inductive Revokes (record : LocalMachineRecord) (key : PublicKey) : Request → Prop
  | cleared (label : ManagementClientLabel) (h : record.Holds label key) :
      Revokes record key (.clear label)
  | restaged (label : ManagementClientLabel) (pending : PublicKey)
      (h : record.pendingClient label = some key) : Revokes record key (.set label pending)
  | replaced (label : ManagementClientLabel) (remote : PublicKey)
      (hlabel : record.pendingLabel remote = some label)
      (h : record.acceptedClient label = some key) : Revokes record key (.activate remote)

/-- `key` was revoked in the course of a history. -/
def Revoked (history : List Attempt) (key : PublicKey) : Prop :=
  ∃ before tried after, history = before ++ tried :: after ∧
    Revokes (run before) key tried.request ∧ tried.saved = .ok ()

theorem Revokes.holds {request : Request} (h : Revokes record key request) :
    ∃ label, record.Holds label key := by
  cases h with
  | cleared label h => exact ⟨label, h⟩
  | restaged label pending h => exact ⟨label, .inr h⟩
  | replaced label remote hlabel h => exact ⟨label, .inl h⟩

theorem live_of_holds (h : record.Holds label key) :
    ∃ was, record.managementClients[label]?.bind (·.live?) = some was := by
  rcases h with h | h
  · obtain ⟨slot, hslot, haccepted⟩ := Option.bind_eq_some_iff.mp h
    obtain ⟨was, hwas, _⟩ := Option.bind_eq_some_iff.mp haccepted
    exact ⟨was, by rw [hslot, Option.bind_some, hwas]⟩
  · obtain ⟨slot, hslot, hpending⟩ := Option.bind_eq_some_iff.mp h
    obtain ⟨was, hwas, _⟩ := Option.bind_eq_some_iff.mp hpending
    exact ⟨was, by rw [hslot, Option.bind_some, hwas]⟩

theorem holds_put_self {slot : ManagementClientSlot} :
    (record.put label slot).Holds label key ↔
      slot.accepted? = some key ∨ slot.pending? = some key := by
  rw [LocalMachineRecord.Holds, LocalMachineRecord.acceptedClient_put,
    LocalMachineRecord.pendingClient_put, if_pos rfl, if_pos rfl]

/-- A revoked key is admitted nowhere. -/
theorem not_holds_of_revokes (h : Apart staged record) (hrevokes : Revokes record key tried.request)
    (hsaved : tried.saved = .ok ()) (hfresh : ∀ key, tried.staged? = some key → key ∉ staged)
    (other : ManagementClientLabel) : ¬ (attempt record tried).Holds other key := by
  intro hafter
  have hset : ∀ label, tried.request ≠ .set label key := by
    intro label hset
    obtain ⟨held, hheld⟩ := hrevokes.holds
    exact hfresh key (staged?_of_set hset) (h.known held key hheld)
  have hold : record.Holds other key := (holds_of_attempt hafter).resolve_right (hset other)
  obtain ⟨request, saved⟩ := tried
  cases hrevokes with
  | cleared label hheld =>
    obtain rfl := h.oneLabel _ _ _ hheld hold
    obtain ⟨was, hwas⟩ := live_of_holds hheld
    rw [attempt_of_writes (.cleared _ _ hwas) hsaved, holds_put_self] at hafter
    rcases hafter with hafter | hafter <;> cases hafter
  | restaged label pending hheld =>
    obtain rfl := h.oneLabel _ _ _ (.inr hheld) hold
    cases haccepted : record.acceptedClient label with
    | none =>
      rw [attempt_of_writes (.pending _ _ haccepted) hsaved, holds_put_self] at hafter
      rcases hafter with hafter | hafter
      · cases hafter
      · exact hset label (congrArg _ (Option.some.inj hafter))
    | some accepted =>
      rw [attempt_of_writes (.rotating _ _ _ haccepted) hsaved, holds_put_self] at hafter
      rcases hafter with hafter | hafter
      · exact h.oneKey _ _ (haccepted.trans hafter) hheld
      · exact hset label (congrArg _ (Option.some.inj hafter))
  | replaced label remote hlabel hheld =>
    obtain rfl := h.oneLabel _ _ _ (.inl hheld) hold
    rw [attempt_of_writes (.activated _ _ hlabel) hsaved, holds_put_self] at hafter
    rcases hafter with hafter | hafter
    · obtain rfl := Option.some.inj hafter
      exact h.oneKey _ _ hheld (LocalMachineRecord.pendingClient_of_pendingLabel hlabel)
    · cases hafter

/-- A key that is not admitted, and is not staged, is never admitted. -/
theorem not_admits_foldl {later : List Attempt} (h : record.admitsManagementClient key = false)
    (hlater : key ∉ stagedIn later) :
    (later.foldl attempt record).admitsManagementClient key = false := by
  induction later generalizing record with
  | nil => exact h
  | cons tried later ih =>
    have hstaged : tried.staged? ≠ some key := by
      intro hstaged
      exact hlater (by simp [stagedIn, hstaged])
    refine ih ?_ fun hmem => hlater ?_
    · rw [Bool.eq_false_iff] at h ⊢
      exact fun hafter => (admits_of_attempt hafter).elim h hstaged
    · cases htried : tried.staged? <;> simp_all [stagedIn]

theorem not_admits_of_revoked {history : List Attempt} (hfresh : (stagedIn history).Nodup)
    (h : Revoked history key) : (run history).admitsManagementClient key = false := by
  obtain ⟨before, tried, after, rfl, hrevokes, hsaved⟩ := h
  have hsplit : stagedIn (before ++ tried :: after) =
      stagedIn before ++ (tried.staged?.toList ++ stagedIn after) := by
    cases h : tried.staged? <;> simp [stagedIn, h]
  rw [hsplit, List.nodup_append'] at hfresh
  obtain ⟨hbefore, _, hdisjoint⟩ := hfresh
  have hapart := Apart.run hbefore
  obtain ⟨label, hheld⟩ := hrevokes.holds
  have hknown := hapart.known _ _ hheld
  rw [run_append, List.foldl_cons]
  refine not_admits_foldl ?_ fun hmem => hdisjoint hknown (List.mem_append_right _ hmem)
  rw [Bool.eq_false_iff, ne_eq, LocalMachineRecord.admits_iff]
  rintro ⟨other, hother⟩
  refine not_holds_of_revokes hapart hrevokes hsaved ?_ other hother
  intro key hkey hmem
  exact hdisjoint hmem (by simp [hkey])

/-- A request retires what `label` has accepted: it clears the label, or accepts its pending key. -/
inductive Retires (record : LocalMachineRecord) (label : ManagementClientLabel) : Request → Prop
  | cleared : Retires record label (.clear label)
  | replaced (remote : PublicKey) (h : record.pendingLabel remote = some label) :
      Retires record label (.activate remote)

theorem accepted_of_attempt (h : record.acceptedClient label = some key)
    (hretires : ¬ Retires record label tried.request) :
    (attempt record tried).acceptedClient label = some key := by
  rcases attempt_cases record tried with hsame | ⟨written, slot, hwrites, hput⟩
  · rw [hsame, h]
  · rw [hput, LocalMachineRecord.acceptedClient_put]
    by_cases hlabel : written = label
    · subst hlabel
      rw [if_pos rfl]
      obtain ⟨request, saved⟩ := tried
      cases hwrites with
      | rotating _ accepted pending hold => exact hold.symm.trans h
      | pending _ pending hnone => exact absurd (hnone.symm.trans h) (Option.some_ne_none _).symm
      | cleared _ was hold => exact absurd .cleared hretires
      | activated _ remote hold => exact absurd (.replaced remote hold) hretires
    · rw [if_neg hlabel, h]

theorem accepted_of_foldl {later : List Attempt} (h : record.acceptedClient label = some key)
    (hlater : Trace.Along attempt (fun record tried => ¬ Retires record label tried.request)
      record later) :
    (later.foldl attempt record).acceptedClient label = some key := by
  induction later generalizing record with
  | nil => exact h
  | cons tried later ih =>
    obtain ⟨hretires, hlater⟩ := Trace.along_cons.mp hlater
    exact ih (accepted_of_attempt h hretires) hlater

/-! ## Histories -/

/-- Over any history of requests, each staging a key of its own: a key that was revoked is admitted
in no later state; a label accepts at most one key, and an accepted key is some label's; an accepted
key stays accepted until its label is cleared or accepts its pending key; and a request changes no
label but its own. -/
theorem revoked_key_stays_revoked (earlier later : List Attempt)
    (hfresh : (stagedIn (earlier ++ later)).Nodup) :
    (∀ key, Revoked earlier key → (run (earlier ++ later)).admitsManagementClient key = false) ∧
    (∀ label, {key | (run earlier).acceptedClient label = some key}.Subsingleton) ∧
    (∀ key, (run earlier).acceptsManagementClient key = true ↔
      ∃ label, (run earlier).acceptedClient label = some key) ∧
    (∀ label key, (run earlier).acceptedClient label = some key →
      Trace.Along attempt (fun record tried => ¬ Retires record label tried.request)
        (run earlier) later →
      (run (earlier ++ later)).acceptedClient label = some key) ∧
    ∀ tried other, tried.request.label? (run earlier) ≠ some other →
      (attempt (run earlier) tried).managementClients[other]? =
        (run earlier).managementClients[other]? := by
  refine ⟨?_, ?_, ?_, ?_, ?_⟩
  · rintro key ⟨before, tried, after, rfl, hrevokes, hsaved⟩
    exact not_admits_of_revoked hfresh
      ⟨before, tried, after ++ later, by simp, hrevokes, hsaved⟩
  · intro label key hkey key' hkey'
    exact Option.some.inj (hkey.symm.trans hkey')
  · exact fun key => LocalMachineRecord.accepts_iff
  · intro label key haccepted hlater
    rw [run_append]
    exact accepted_of_foldl haccepted hlater
  · exact fun tried other => slot_of_attempt

namespace Sample

def cloud : ManagementClientLabel := ⟨"cloud", by decide⟩

def publicKey (value : UInt8) : PublicKey := .replicate 32 value

/-- A key is set and used, and another takes its place. -/
def rotation : List Attempt :=
  [⟨.set cloud (publicKey 1), .ok ()⟩, ⟨.activate (publicKey 1), .ok ()⟩,
    ⟨.set cloud (publicKey 2), .ok ()⟩, ⟨.activate (publicKey 2), .ok ()⟩]

theorem rotated_key_stays_out :
    (stagedIn (rotation ++ [⟨.clear cloud, .ok ()⟩])).Nodup ∧ Revoked rotation (publicKey 1) ∧
      (run (rotation ++ [⟨.clear cloud, .ok ()⟩])).admitsManagementClient (publicKey 1) =
      false := by
  have hfresh : (stagedIn (rotation ++ [⟨.clear cloud, .ok ()⟩])).Nodup := by decide +kernel
  have hrevoked : Revoked rotation (publicKey 1) :=
    ⟨rotation.take 3, _, [], rfl, .replaced cloud _ (by decide +kernel) (by decide +kernel), rfl⟩
  exact ⟨hfresh, hrevoked, (revoked_key_stays_revoked _ _ hfresh).1 _ hrevoked⟩

end Sample

end Ployz.Machine
