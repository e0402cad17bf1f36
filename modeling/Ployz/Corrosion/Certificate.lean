import Mathlib.Data.List.Induction
import Mathlib.Logic.Function.Basic

/-!
# Certificate rows

The row of one hostname in the replicated store. Certificate material is published by an operator or
issued by ACME, which leaves a row with published material alone. Each writer reads the row in one
statement and writes it in another, and the statements of several writers interleave.

A writer of ACME that reads published material returns (`Store.Held.read_returns`), but one that
read the row before the publish still has its write to come, and so has a clear asked for before it.
`published_row_kept_iff` says that nothing else overwrites a published row.
-/

namespace Ployz.Corrosion

/-! ## Rows -/

structure CertificateMaterial where
  certificate : String
  privateKey : String
deriving DecidableEq

structure CertificateChallenge where
  token : String
  response : String
deriving DecidableEq

/-- How a hostname that reaches this Cluster gets here. -/
inductive ClusterRoute
  | direct
  | viaProxy
deriving DecidableEq

inductive Refusal
  | doesNotResolve
  | unreachable
  | redirectsToHttps
  | reachesElsewhere
deriving DecidableEq

inductive IssuanceFailure
  | refused (refusal : Refusal)
  | authority
deriving DecidableEq

/-- Shared backoff clock after a refusal or an authority failure. -/
structure IssuanceClock where
  failures : Nat
  nextAttemptAt : Nat
  lastFailure : IssuanceFailure
deriving DecidableEq

structure RecordedRefusal where
  reason : String
  clock : Option IssuanceClock
deriving DecidableEq

inductive CertificateRow
  /-- Material, pending challenge and refusal that ACME owns. -/
  | acme (material : Option (CertificateMaterial × ClusterRoute))
      (challenge : Option CertificateChallenge) (refusal : Option RecordedRefusal)
  /-- Supplied material that ACME never orders, renews, or overwrites. -/
  | published (material : CertificateMaterial)
deriving DecidableEq

namespace CertificateRow

def fromParts (material : Option (CertificateMaterial × ClusterRoute))
    (challenge : Option CertificateChallenge) : CertificateRow :=
  .acme material challenge none

def default : CertificateRow := fromParts none none

/-- A row that holds material newly issued along `route`, and no challenge. -/
def issued (material : CertificateMaterial) (route : ClusterRoute) : CertificateRow :=
  fromParts (some (material, route)) none

def published? : CertificateRow → Option CertificateMaterial
  | .published material => some material
  | .acme .. => none

def material? : CertificateRow → Option CertificateMaterial
  | .acme material _ _ => material.map (·.1)
  | .published material => some material

def challenge? : CertificateRow → Option CertificateChallenge
  | .acme _ challenge _ => challenge
  | .published _ => none

def lastError? : CertificateRow → Option String
  | .acme _ _ refusal => refusal.map (·.reason)
  | .published _ => none

/-- Keep existing material and set the pending challenge. -/
def withChallenge (challenge : CertificateChallenge) : CertificateRow → CertificateRow
  | .acme material _ refusal => .acme material (some challenge) refusal
  | .published material => .published material

def withRefusal (refusal : RecordedRefusal) : CertificateRow → CertificateRow
  | .acme material challenge _ => .acme material challenge (some refusal)
  | .published material => .published material

/-- Keep existing material and challenge and record a refusal reason. -/
def withError (reason : String) (row : CertificateRow) : CertificateRow :=
  row.withRefusal ⟨reason, none⟩

/-- Attach a complete refusal clock, or leave the row unchanged if the text is empty. -/
def withBackoff (lastError : String) (clock : IssuanceClock) (row : CertificateRow) :
    CertificateRow :=
  if lastError.isEmpty then row else row.withRefusal ⟨lastError, some clock⟩

end CertificateRow

/-! ## Writers -/

inductive Statement
  | upsert (row : CertificateRow)
  | delete
deriving DecidableEq

/-- What the row is after a statement; an absent row is `none`. -/
def Statement.row? : Statement → Option CertificateRow
  | .upsert row => some row
  | .delete => none

inductive Writer
  | publishCertificate (material : CertificateMaterial) (route : ClusterRoute)
  | publishCertificateChallenge (challenge : CertificateChallenge)
  | recordCertificateFailure (lastError : String) (clock : IssuanceClock)
  | recordCertificateError (reason : String)
  | publishCertificateMaterial (material : CertificateMaterial)
  | clearPublishedCertificate
deriving DecidableEq

namespace Writer

/-- What a writer of ACME does with a row it owns; it leaves published material alone. -/
def acmeRow (latest : CertificateRow) (write : CertificateRow → Option Statement) :
    Option Statement :=
  if latest.published?.isNone then write latest else none

def upsertUnless (unchanged : Bool) (row : CertificateRow) : Option Statement :=
  if unchanged then none else some (.upsert row)

/-- The statement a writer goes on with after reading the row; with `none` it returns. -/
def second (latest : CertificateRow) : Writer → Option Statement
  | .publishCertificate material route => acmeRow latest fun latest =>
    let issued := CertificateRow.issued material route
    upsertUnless (latest == issued) issued
  | .publishCertificateChallenge challenge => acmeRow latest fun latest =>
    upsertUnless (latest.challenge? == some challenge) (latest.withChallenge challenge)
  | .recordCertificateFailure lastError clock => acmeRow latest fun latest =>
    upsertUnless latest.material?.isSome (latest.withBackoff lastError clock)
  | .recordCertificateError reason => acmeRow latest fun latest =>
    upsertUnless (latest.lastError? == some reason) (latest.withError reason)
  | .publishCertificateMaterial material =>
    upsertUnless (latest.published? == some material) (.published material)
  | .clearPublishedCertificate => if latest.published?.isNone then none else some .delete

def publishes : Writer → Bool
  | .publishCertificateMaterial _ => true
  | _ => false

end Writer

/-! ## Interleavings -/

abbrev OperationId := Nat

/-- Where an operation stands: before its read, or between its read and its write. -/
inductive Phase
  | idle
  | asked (writer : Writer)
  | writing (writer : Writer) (statement : Statement)
deriving DecidableEq

structure Store where
  /-- The row of the hostname. -/
  row : Option CertificateRow
  phase : OperationId → Phase
  /-- A publish has returned, and no clear was asked for since. -/
  guarded : Bool

inductive Event
  | ask (operation : OperationId) (writer : Writer)
  | read (operation : OperationId)
  | write (operation : OperationId)
deriving DecidableEq

namespace Store

def start (row : Option CertificateRow) : Store := ⟨row, fun _ => .idle, false⟩

def returns (operation : OperationId) (writer : Writer) (store : Store) : Store :=
  { store with
    phase := Function.update store.phase operation .idle
    guarded := store.guarded || writer.publishes }

def step (store : Store) : Event → Store
  | .ask operation writer =>
    if store.phase operation = .idle then
      { store with
        phase := Function.update store.phase operation (.asked writer)
        guarded := store.guarded && writer != .clearPublishedCertificate }
    else store
  | .read operation =>
    match store.phase operation with
    | .asked writer =>
      match writer.second (store.row.getD .default) with
      | none => store.returns operation writer
      | some statement =>
        { store with phase := Function.update store.phase operation (.writing writer statement) }
    | _ => store
  | .write operation =>
    match store.phase operation with
    | .writing writer statement =>
      { store with row := statement.row? }.returns operation writer
    | _ => store

/-- The row holds published material as long as it is promised to. -/
def Held (store : Store) : Prop :=
  store.guarded = true → ∃ material, store.row = some (.published material)

/-- An operation other than a publish has its write to come. -/
def Pending (store : Store) (operation : OperationId) : Prop :=
  ∃ writer statement, store.phase operation = .writing writer statement ∧ writer.publishes = false

/-- A writer of ACME has read the row and not written it, or a clear has not returned. -/
def UnderWay (store : Store) (operation : OperationId) : Prop :=
  store.phase operation = .asked .clearPublishedCertificate ∨ store.Pending operation

/-- The store after a run on one hostname. -/
def run (row : Option CertificateRow) (events : List Event) : Store :=
  events.foldl step (.start row)

/-- A publish overtakes an operation: it returns at `returned`, with the promise not given before,
while the operation is under way, and the write to come is next while the promise holds. -/
structure Overtakes (row : Option CertificateRow) (earlier : List Event) (returned : Event)
    (between : List Event) (operation : OperationId) : Prop where
  before : (run row earlier).guarded = false
  underWay : (run row earlier).UnderWay operation
  promised : ∀ first rest, between = first ++ rest →
    (run row (earlier ++ returned :: first)).guarded = true
  pending : (run row (earlier ++ returned :: between)).Pending operation

end Store

/-! ## What a writer writes -/

variable {row : CertificateRow}

namespace CertificateRow

def IsAcme (row : CertificateRow) : Prop := row.published? = none

theorem IsAcme.withRefusal (h : row.IsAcme) (refusal : RecordedRefusal) :
    (row.withRefusal refusal).IsAcme := by
  cases row with
  | acme material challenge refusal => rfl
  | published material => cases h

theorem IsAcme.withChallenge (h : row.IsAcme) (challenge : CertificateChallenge) :
    (row.withChallenge challenge).IsAcme := by
  cases row with
  | acme material challenge refusal => rfl
  | published material => cases h

theorem IsAcme.withBackoff {row : CertificateRow} (h : row.IsAcme) (lastError : String)
    (clock : IssuanceClock) : (row.withBackoff lastError clock).IsAcme := by
  unfold CertificateRow.withBackoff
  split
  · exact h
  · exact h.withRefusal _

theorem eq_published_of_published? {material : CertificateMaterial}
    (h : row.published? = some material) : row = .published material := by
  cases row with
  | acme material challenge refusal => cases h
  | published found => exact congrArg _ (Option.some.inj h)

end CertificateRow

namespace Writer

variable {latest : CertificateRow} {statement : Statement} {writer : Writer}

theorem upsertUnless_eq_some {unchanged : Bool} (h : upsertUnless unchanged row = some statement) :
    statement = .upsert row := by
  unfold upsertUnless at h
  split at h
  · cases h
  · exact (Option.some.inj h).symm

theorem acmeRow_eq_some {write : CertificateRow → Option Statement}
    (h : acmeRow latest write = some statement) :
    latest.IsAcme ∧ write latest = some statement := by
  unfold acmeRow at h
  split at h
  · next hnone => exact ⟨Option.isNone_iff_eq_none.mp hnone, h⟩
  · cases h

/-- Only a publish writes published material. -/
theorem published_of_second (h : writer.second latest = some statement) :
    (∃ material, statement.row? = some (.published material)) ↔ writer.publishes = true := by
  have hacme : ∀ {row : CertificateRow}, row.IsAcme →
      ((∃ material, (Statement.upsert row).row? = some (.published material)) ↔ false = true) := by
    intro row hrow
    refine ⟨?_, fun h => by cases h⟩
    rintro ⟨material, hmaterial⟩
    obtain rfl : row = .published material := Option.some.inj hmaterial
    cases hrow
  cases writer with
  | publishCertificate material route =>
    rw [second] at h
    obtain ⟨_, hwrite⟩ := acmeRow_eq_some h
    obtain rfl := upsertUnless_eq_some hwrite
    exact hacme rfl
  | publishCertificateChallenge challenge =>
    rw [second] at h
    obtain ⟨hlatest, hwrite⟩ := acmeRow_eq_some h
    obtain rfl := upsertUnless_eq_some hwrite
    exact hacme (hlatest.withChallenge challenge)
  | recordCertificateFailure lastError clock =>
    rw [second] at h
    obtain ⟨hlatest, hwrite⟩ := acmeRow_eq_some h
    obtain rfl := upsertUnless_eq_some hwrite
    exact hacme (hlatest.withBackoff lastError clock)
  | recordCertificateError reason =>
    rw [second] at h
    obtain ⟨hlatest, hwrite⟩ := acmeRow_eq_some h
    obtain rfl := upsertUnless_eq_some hwrite
    exact hacme (hlatest.withRefusal _)
  | publishCertificateMaterial material =>
    rw [second] at h
    obtain rfl := upsertUnless_eq_some h
    exact ⟨fun _ => rfl, fun _ => ⟨material, rfl⟩⟩
  | clearPublishedCertificate =>
    simp only [second] at h
    split at h
    · cases h
    · obtain rfl := Option.some.inj h
      simp [Statement.row?, publishes]

/-- A publish that returns after its read found its material published. -/
theorem published_of_second_none (h : writer.second latest = none)
    (hwriter : writer.publishes = true) : ∃ material, latest = .published material := by
  cases writer with
  | publishCertificateMaterial material =>
    simp only [second, upsertUnless] at h
    split at h
    · next hsame => exact ⟨material,
        CertificateRow.eq_published_of_published? (by simpa using hsame)⟩
    · cases h
  | _ => cases hwriter

/-- A writer of ACME leaves published material alone. -/
theorem second_published (material : CertificateMaterial) (hpublish : writer.publishes = false)
    (hclear : writer ≠ .clearPublishedCertificate) : writer.second (.published material) =
    none := by
  cases writer with
  | publishCertificateMaterial => cases hpublish
  | clearPublishedCertificate => exact absurd rfl hclear
  | _ => rfl

end Writer

/-! ## What a step keeps -/

namespace Store

variable {store : Store}

/-- Every write to come is one its writer decided on. -/
def Decided (store : Store) : Prop :=
  ∀ operation writer statement, store.phase operation = .writing writer statement →
    ((∃ material, statement.row? = some (.published material)) ↔ writer.publishes = true)

theorem decided_start (row : Option CertificateRow) : (start row).Decided := by
  intro operation writer statement h
  cases h

variable {operation : OperationId}

theorem Decided.update (h : store.Decided) {phase : Phase}
    (hphase : ∀ writer statement, phase = .writing writer statement →
      ((∃ material, statement.row? = some (.published material)) ↔ writer.publishes = true)) :
    ∀ other writer statement,
      Function.update store.phase operation phase other = .writing writer statement →
      ((∃ material, statement.row? = some (.published material)) ↔ writer.publishes = true) := by
  intro other writer statement hother
  by_cases hsame : other = operation
  · subst hsame
    rw [Function.update_self] at hother
    exact hphase writer statement hother
  · rw [Function.update_of_ne hsame] at hother
    exact h other writer statement hother

theorem Decided.step (h : store.Decided) (event : Event) : (store.step event).Decided := by
  cases event with
  | ask operation writer =>
    simp only [Store.step]
    split
    · exact h.update fun _ _ h => by cases h
    · exact h
  | read operation =>
    simp only [Store.step]
    split
    · next writer hphase =>
      split
      · exact h.update fun _ _ h => by cases h
      · next statement hsecond =>
        refine h.update fun _ _ heq => ?_
        cases heq
        exact Writer.published_of_second hsecond
    · exact h
  | write operation =>
    simp only [Store.step]
    split
    · exact h.update fun _ _ h => by cases h
    · exact h

/-- A writer of ACME that reads the row while it is held returns without a write. -/
theorem Held.read_returns (h : store.Held) (hguarded : store.guarded = true) {writer : Writer}
    (hphase : store.phase operation = .asked writer) (hpublish : writer.publishes = false)
    (hclear : writer ≠ .clearPublishedCertificate) :
    store.step (.read operation) = store.returns operation writer := by
  obtain ⟨material, hrow⟩ := h hguarded
  simp only [Store.step, hphase, hrow, Option.getD_some,
    Writer.second_published material hpublish hclear]

/-- A step that overwrites nothing keeps the row as promised. -/
theorem Held.step (h : store.Held) (hdecided : store.Decided) {event : Event}
    (hevent : ∀ operation, event = .write operation → store.guarded = true →
      ¬ store.Pending operation) : (store.step event).Held := by
  cases event with
  | ask operation writer =>
    simp only [Store.step]
    split
    · exact fun hguarded => h (Bool.and_eq_true_iff.mp hguarded).1
    · exact h
  | read operation =>
    simp only [Store.step]
    split
    · next writer hphase =>
      split
      · next hsecond =>
        intro hguarded
        rcases Bool.or_eq_true_iff.mp hguarded with hguarded | hpublishes
        · exact h hguarded
        · obtain ⟨material, hmaterial⟩ := Writer.published_of_second_none hsecond hpublishes
          cases hrow : store.row with
          | none =>
            rw [hrow] at hmaterial
            cases hmaterial
          | some row =>
            rw [hrow] at hmaterial
            exact ⟨material, by rw [← hmaterial]; exact hrow⟩
      · exact h
    · exact h
  | write operation =>
    simp only [Store.step]
    split
    · next writer statement hphase =>
      intro hguarded
      rcases Bool.or_eq_true_iff.mp hguarded with hguarded | hpublishes
      · cases hwriter : writer.publishes with
        | false => exact absurd ⟨writer, statement, hphase, hwriter⟩ (hevent _ rfl hguarded)
        | true => exact (hdecided _ _ _ hphase).mpr hwriter
      · exact (hdecided _ _ _ hphase).mpr hpublishes
    · exact h

theorem Pending.not_held (hdecided : store.Decided) (h : store.Pending operation)
    (hguarded : store.guarded = true) : ¬ (store.step (.write operation)).Held := by
  obtain ⟨writer, statement, hphase, hwriter⟩ := h
  intro hheld
  simp only [Store.step, hphase] at hheld
  have hpublished := hheld (by simp [returns, hguarded])
  have := (hdecided _ _ _ hphase).mp hpublished
  exact Bool.false_ne_true (hwriter.symm.trans this)

/-! ## What is under way -/

theorem UnderWay.of_update {operation other : OperationId} {phase : Phase}
    {row : Option CertificateRow}
    {guarded : Bool}
    (h : UnderWay ⟨row, Function.update store.phase operation phase, guarded⟩ other)
    (hphase : other = operation → ¬ (phase = .asked .clearPublishedCertificate ∨
      ∃ writer statement, phase = .writing writer statement ∧ writer.publishes = false)) :
    store.UnderWay other := by
  by_cases hsame : other = operation
  · subst hsame
    simp only [UnderWay, Pending, Function.update_self] at h
    exact absurd h (hphase rfl)
  · simpa only [UnderWay, Pending, Function.update_of_ne hsame] using h

/-- While the promise holds, an operation is under way only if it was before. -/
theorem UnderWay.of_step (h : store.Held) {event : Event} {other : OperationId}
    (hguarded : (store.step event).guarded = true) (hstep : (store.step event).UnderWay other) :
    store.UnderWay other := by
  cases event with
  | ask operation writer =>
    simp only [Store.step] at hstep hguarded
    split at hstep
    · next hidle =>
      rw [if_pos hidle] at hguarded
      refine hstep.of_update fun _ => ?_
      have hwriter : writer ≠ .clearPublishedCertificate := by
        simpa using (Bool.and_eq_true_iff.mp hguarded).2
      simpa using hwriter
    · exact hstep
  | read operation =>
    simp only [Store.step] at hstep hguarded
    split at hstep
    · next writer hphase =>
      split at hstep
      · exact hstep.of_update (by simp)
      · next statement hsecond =>
        simp only [hphase, hsecond] at hguarded
        by_cases hclear : other = operation ∧ writer = .clearPublishedCertificate
        · obtain ⟨rfl, rfl⟩ := hclear
          exact .inl hphase
        · refine hstep.of_update fun hsame => ?_
          simp only [reduceCtorEq, Phase.writing.injEq, false_or]
          rintro ⟨_, _, ⟨rfl, rfl⟩, hpublish⟩
          -- A writer of ACME would have returned.
          have hreturns := h.read_returns hguarded hphase hpublish fun hwriter =>
            hclear ⟨hsame, hwriter⟩
          have hidle := congrArg (fun store => store.phase operation) hreturns
          simp [Store.step, hphase, hsecond, returns] at hidle
    · exact hstep
  | write operation =>
    simp only [Store.step] at hstep
    split at hstep
    · exact hstep.of_update (by simp)
    · exact hstep

theorem run_append (row : Option CertificateRow) (events : List Event) (event : Event) :
    run row (events ++ [event]) = (run row events).step event := by
  simp [run]

theorem decided_run (row : Option CertificateRow) (events : List Event) :
    (run row events).Decided := by
  induction events using List.reverseRecOn with
  | nil => exact decided_start row
  | append_singleton events event ih =>
    rw [run_append]
    exact ih.step event

/-- A promise in force began when a publish returned, and what is under way was so by then. -/
def Began (row : Option CertificateRow) (events : List Event) : Prop :=
  (run row events).guarded = true → ∃ earlier returned between,
    events = earlier ++ returned :: between ∧ (run row earlier).guarded = false ∧
    (∀ first rest, between = first ++ rest →
      (run row (earlier ++ returned :: first)).guarded = true) ∧
    ∀ operation, (run row events).UnderWay operation → (run row earlier).UnderWay operation

theorem Began.step {row : Option CertificateRow} {events : List Event} (h : Began row events)
    (hheld : (run row events).Held) (event : Event) : Began row (events ++ [event]) := by
  intro hguarded
  have hback : ∀ operation, (run row (events ++ [event])).UnderWay operation →
      (run row events).UnderWay operation := by
    intro operation hoperation
    rw [run_append] at hguarded hoperation
    exact hoperation.of_step hheld hguarded
  cases hbefore : (run row events).guarded with
  | false =>
    refine ⟨events, event, [], rfl, hbefore, fun first rest hnil => ?_, hback⟩
    obtain ⟨rfl, rfl⟩ := List.append_eq_nil_iff.mp hnil.symm
    exact hguarded
  | true =>
    obtain ⟨earlier, returned, between, rfl, hearlier, hbetween, hsince⟩ := h hbefore
    refine ⟨earlier, returned, between ++ [event], by simp, hearlier, fun first rest hsplit => ?_,
      fun operation hoperation => hsince operation (hback operation hoperation)⟩
    rcases List.eq_nil_or_concat rest with rfl | ⟨rest, last, rfl⟩
    · rw [List.append_nil] at hsplit
      rw [← hsplit]
      simpa using hguarded
    · rw [List.concat_eq_append, ← List.append_assoc] at hsplit
      exact hbetween first rest (List.append_inj' hsplit rfl).1

end Store

/-- For every row of a hostname and every interleaving of the statements of publishes, clears and
ACME's writers: once a publish has returned the row holds published material until a clear is asked
for, in every state of the interleaving, exactly if the publish overtakes no writer of ACME between
its read and its write, and no clear that was asked for before. -/
theorem published_row_kept_iff (row : Option CertificateRow) (events : List Event) :
    (∀ before after, events = before ++ after → (Store.run row before).Held) ↔
      ∀ earlier returned between operation later,
        events = earlier ++ returned :: between ++ .write operation :: later →
          ¬ Store.Overtakes row earlier returned between operation := by
  constructor
  · rintro h earlier returned between operation later rfl hovertakes
    have hheld := h (earlier ++ returned :: between ++ [.write operation]) later (by simp)
    rw [Store.run_append] at hheld
    exact hovertakes.pending.not_held (Store.decided_run row _)
      (hovertakes.promised between [] (by simp)) hheld
  · intro h before after hsplit
    suffices hboth : (Store.run row before).Held ∧ Store.Began row before from hboth.1
    induction before using List.reverseRecOn generalizing after with
    | nil =>
      constructor
      · intro hguarded
        cases hguarded
      · intro hguarded
        cases hguarded
    | append_singleton before event ih =>
      obtain ⟨hheld, hbegan⟩ := ih (event :: after) (by simpa using hsplit)
      refine ⟨?_, hbegan.step hheld event⟩
      rw [Store.run_append]
      refine hheld.step (Store.decided_run row before) ?_
      rintro operation rfl hguarded hpending
      obtain ⟨earlier, returned, between, rfl, hearlier, hpromised, hsince⟩ := hbegan hguarded
      exact h earlier returned between operation after (by simpa using hsplit)
        ⟨hearlier, hsince operation (.inr hpending), hpromised, hpending⟩

namespace Sample

def supplied : CertificateMaterial := ⟨"supplied chain", "supplied key"⟩

def challenge : CertificateChallenge := ⟨"token", "response"⟩

/-- ACME reads an empty row to put a challenge into it, material is published, and ACME goes on. -/
def lateChallenge : List Event :=
  [.ask 0 (.publishCertificateChallenge challenge), .read 0,
    .ask 1 (.publishCertificateMaterial supplied), .read 1, .write 1, .write 0]

/-- The publish has returned and no clear was asked for, and the row is ACME's. -/
theorem late_challenge_overwrites :
    let store := Store.run none lateChallenge
    store.guarded = true ∧ store.row = some (.acme none (some challenge) none) ∧
      ¬ store.Held := by
  refine ⟨by decide, by decide, fun hheld => ?_⟩
  obtain ⟨material, hmaterial⟩ := hheld (by decide)
  cases hmaterial

end Sample

end Ployz.Corrosion
