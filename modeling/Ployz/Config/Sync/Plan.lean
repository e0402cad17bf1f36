import Ployz.Config.Sync.Put

/-!
# The plan

What each row's sides hold, its verdict under a policy, and landing the picked rows.
`plan` compares three documents row by row; `Plan.apply` lands picks in the receiver and
advances what the two shared; `unapply` puts a landing back.
-/

namespace Ployz

open Keyed

/-- Each side's generated-address suffix, appended to managed hostname prefixes. -/
structure Hostnames where
  from_ : String
  into : String
deriving DecidableEq, Repr

/-- The three configurations of one move: changes flow from `from_` into `into`, judged
against what the two last shared. No `base` means nothing is shared yet. -/
structure Sides where
  base : Option SavedEnvironmentIntent
  from_ : SavedEnvironmentIntent
  into : SavedEnvironmentIntent
  hostnames : Hostnames

/-- How changes travel; see `Policy.verdict` for what each does. -/
inductive Way
  | sync
  | follow
  | copy
deriving DecidableEq, Repr

/-- The caller's context for a comparison: the rows each side marked Never sync, the
lineages `into` uses live, and the sender's own changes (`none` when every row is). -/
structure Policy where
  way : Way
  fromMarks : Std.TreeSet RowId
  intoMarks : Std.TreeSet RowId
  live : Std.TreeSet String
  own : Option (Std.TreeSet RowId)

inductive Why
  | live
  | leftOut
  | sizing
  | customDomain
  | generatedAddress
  | gitBranch
  | data
  | neverSynced
deriving DecidableEq, Repr

/-- How a moving row lands: with the sender's cell, or as a secret without its value
unless one is given. -/
inductive Arrives
  | asIs
  | needsValue
deriving DecidableEq, Repr

inductive Verdict
  | moves (conflict ticked : Bool) (arrives : Arrives)
  | differs (why : Why)
deriving DecidableEq, Repr

/-- One row that differs between the sides, and what a move does with it. -/
structure PlannedRow where
  id : RowId
  base : Cell
  from_ : Cell
  into : Cell
  requires : Option RowId
  verdict : Verdict
deriving DecidableEq

/-- The rows between two configurations, ready to apply. -/
structure Plan where
  rows : List PlannedRow
  base : Option SavedEnvironmentIntent
  from_ : SavedEnvironmentIntent
  into : SavedEnvironmentIntent
  hostnames : Hostnames
  live : Std.TreeSet String

/-- One landed row: what to put back to rewind the base or undo the landing. -/
structure Landed where
  row : RowId
  prior : Cell
  was : SealedCell
  value : Cell
deriving DecidableEq

/-- `into` after a plan's picks landed, and the base advanced by exactly them. -/
structure Applied where
  next : SavedEnvironmentIntent
  base : SavedEnvironmentIntent
  landed : List Landed
  waiting : List RowId

/-! ## Verdicts -/

/-- Settings each Environment owns: shown as meant to differ, never moved. -/
def owned : At → Option Why
  | .setting .replicas | .setting .cpuLimit | .setting .memLimit => some .sizing
  | .setting .routes => some .customDomain
  | .setting .managedHostnames => some .generatedAddress
  | .setting .branch => some .gitBranch
  | _ => none

namespace Policy

/-- `way` with no marks, nothing live, and every row its own. -/
def new (way : Way) : Policy := ⟨way, ∅, ∅, ∅, none⟩

def marked (policy : Policy) (row : RowId) : Bool :=
  match policy.way with
  | .sync => policy.fromMarks.contains row || policy.intoMarks.contains row
  | .follow => policy.intoMarks.contains row
  | .copy => false

/-- `verdict` for a setting no Environment owns. -/
def moved (policy : Policy) (row : RowId) (base from_ into : Cell) : Option Verdict :=
  if from_ = into ∨ from_ = base then none
  else
    let conflict : Bool := into != base
    let secret := from_.isSecret || into.isSecret
    let held := secret && into != .absent
    let arrives : Option (Bool × Arrives) := match policy.way with
      | .sync => if from_ = .absent ∨ held then none
        else if secret then some (conflict, .needsValue) else some (conflict, .asIs)
      | .follow => if held && into == .secretWithoutValue then some (false, .asIs)
        else if held && conflict then none else some (conflict, .asIs)
      | .copy => some (conflict, .asIs)
    arrives.map fun (conflict, arrives) =>
      if policy.marked row then .differs .neverSynced
      else .moves conflict (policy.own.all (·.contains row)) arrives

/-- The policy table, the only place that knows about secrets, removals and marks. -/
def verdict (policy : Policy) (row : RowId) (base from_ into : Cell) : Option Verdict :=
  match owned row.place with
  | some why => if from_ ≠ into then some (.differs why) else none
  | none => policy.moved row base from_ into

end Policy

/-- Whether `env` references a lineage it does not own, that is, uses it live. -/
def uses (env : SavedEnvironmentIntent) (lineage : String) : Bool :=
  (env.services.flatMap (·.vars)).any fun v => v.value.referencedLineages.contains lineage

/-! ## Comparing -/

namespace Sides

def baseHas (sides : Sides) (lineage : String) : Bool :=
  sides.base.any fun base => (nodes base).contains lineage

def baseCell (sides : Sides) (row : RowId) : Cell :=
  match sides.base with
  | none => .absent
  | some base => (Cells.of base sides.hostnames.into).at_ row

def fromCells (sides : Sides) : Cells := .of sides.from_ sides.hostnames.from_

def intoCells (sides : Sides) : Cells := .of sides.into sides.hostnames.into

def row (sides : Sides) (id : RowId) (verdict : Verdict) : PlannedRow :=
  ⟨id, sides.baseCell id, sides.fromCells.at_ id, sides.intoCells.at_ id, none, verdict⟩

end Sides

def planShared (sides : Sides) (policy : Policy) (lineage : String) (from_ into : NodeRef) :
    List PlannedRow :=
  let ids : Std.TreeSet RowId := .ofList
    ((sides.fromCells.places lineage ++ sides.intoCells.places lineage).map (·.1))
  let rows := ids.toList.filterMap fun id =>
    (policy.verdict id (sides.baseCell id) (sides.fromCells.at_ id) (sides.intoCells.at_ id)).map
      (sides.row id)
  match from_, into with
  | .volume _, .volume _ =>
    let node := sides.row (RowId.node lineage) (.differs .data)
    rows ++ [{ node with id := ⟨lineage, .data⟩ }]
  | _, _ => rows

/-- The rows of a node only `from_` has and neither shares nor has the receiver live. -/
def planNew (sides : Sides) (policy : Policy) (lineage : String) : List PlannedRow :=
  let id := RowId.node lineage
  let places := sides.fromCells.places lineage
  match policy.verdict id .absent (sides.fromCells.at_ id) .absent with
  | none => []
  | some verdict =>
    let verdict := if places.any fun (child, _) => child.place.needed && policy.marked child then
      .differs .neverSynced else verdict
    let judge := match policy.way with
      | .copy => policy.moved
      | _ => policy.verdict
    sides.row id verdict :: (places.filter fun (child, _) => !child.place.carried).filterMap
      fun (child, cell) => (judge child .absent cell .absent).map fun verdict =>
        ⟨child, .absent, cell, .absent, some id, verdict⟩

def planNode (sides : Sides) (policy : Policy) (lineage : String) : List PlannedRow :=
  match (nodes sides.from_)[lineage]?, (nodes sides.into)[lineage]? with
  | some from_, some into => planShared sides policy lineage from_ into
  | some _, none =>
    if !policy.live.contains lineage && !sides.baseHas lineage then planNew sides policy lineage
    else [sides.row (RowId.node lineage)
      (.differs (if policy.live.contains lineage then .live else .leftOut))]
  -- A node `from_` lacks never leaves `into`.
  | none, some _ =>
    if uses sides.from_ lineage || sides.baseHas lineage then
      [sides.row (RowId.node lineage)
        (.differs (if uses sides.from_ lineage then .live else .leftOut))]
    else []
  | none, none => []

/-- Compare `sides` under `policy`: every place either side holds, by lineage. -/
def plan (sides : Sides) (policy : Policy) : Plan :=
  let lineages : Std.TreeSet String := .ofList ((nodes sides.from_).keys ++ (nodes sides.into).keys)
  { rows := (lineages.toList.flatMap (planNode sides policy)).insertionSort fun a b => a.id ≤ b.id
    base := sides.base
    from_ := sides.from_
    into := sides.into
    hostnames := sides.hostnames
    live := policy.live }

/-! ## Landing -/

/-- What `uuid::Uuid::new_v4` answers, as text. -/
structure Uuid where
  text : String
  isUuid : isUuid text = true

/-- The fresh ids of a landing, by the row whose landing asks for one: for the node or
variable new to the receiver, and for a variable new to the base. -/
structure Draws where
  next : RowId → Uuid
  base : RowId → Uuid

/-- Where `row` lands in a landing: new Volumes before the Services that mount them,
nodes before their rows. `env` holds the node. -/
def landingOrder (env : SavedEnvironmentIntent) (row : RowId) : Nat :=
  match row.place with
  | .node => if (volume env row.lineage).isSome then 0 else 1
  | _ => 2

/-- A base that predates a node starts it from `into`'s. -/
def adoptNode (into : SavedEnvironmentIntent) (base : SavedEnvironmentIntent) (lineage : String) :
    SavedEnvironmentIntent :=
  if (nodes base).contains lineage then base
  else match volume into lineage with
    | some v => { base with volumes := base.volumes ++ [v] }
    | none => match service into lineage with
      | some s =>
        -- Mounts on Volumes the base lacks stay out until a mount row lands them.
        let attachments := s.volumeAttachments.filterMap fun attachment => do
          let mounted ← into.volumes.find? (·.resourceId == attachment.volumeResourceId)
          let held ← volume base mounted.resourceLineageId
          return ⟨held.resourceId, attachment.mountPath⟩
        { base with services := base.services ++ [{ s with volumeAttachments := attachments }] }
      | none => base

/-- A base that predates a row's node (or the Volume it mounts) starts it from `into`'s. -/
def adopt (base into : SavedEnvironmentIntent) (row : RowId) : SavedEnvironmentIntent :=
  let mounted := match row.place with
    | .mount volume => [volume]
    | _ => []
  (mounted ++ [row.lineage]).foldl (adoptNode into) base

namespace Plan

/-- `from_`'s Service as a new node needs it: fresh id, no custom domains, `into`'s
generated-address naming, its own credential, and every setting that arrives as a row of
its own at its default. -/
def serviceCopy (plan : Plan) (uuid : String) (source : SavedServiceIntent) : SavedServiceIntent :=
  let copy : SavedServiceIntent :=
    { id := uuid, lineageId := source.lineageId, slug := source.slug, config := source.config,
      vars := [], volumeAttachments := [] }
  let copy := (Setting.all.filter (!·.carried)).foldl
    (fun copy setting => (putSetting copy setting (defaultValue setting)).getD copy) copy
  let managedHostnames := copy.config.managedHostnames.map fun hostname =>
    { hostname with prefix_ :=
        (hostname.unsuffixed plan.hostnames.from_).prefix_ ++ plan.hostnames.into }
  let source := match copy.config.source with
    | .image version image (.configured _) => .image version image (.configured uuid)
    | source => source
  { copy with config := { copy.config with routes := [], managedHostnames, source } }

/-- Add `from_`'s node at `lineage` to `next` (and `base`) as it needs to exist. -/
def introduce (plan : Plan) (uuid : String) (next : SavedEnvironmentIntent)
    (base : Option SavedEnvironmentIntent) (lineage : String) :
    Except ConfigError (SavedEnvironmentIntent × Option SavedEnvironmentIntent) :=
  let clash : ConfigError := ⟨"picks", "Name or private address is already used"⟩
  match volume plan.from_ lineage with
  | some source =>
    if next.volumes.any (·.name == source.name) then throw clash
    else
      let copy := { source with resourceId := uuid }
      let push (env : SavedEnvironmentIntent) := { env with volumes := env.volumes ++ [copy] }
      pure (push next, base.map push)
  | none => match service plan.from_ lineage with
    | some source =>
      if next.services.any fun s =>
          s.slug == source.slug || s.config.privateDns == source.config.privateDns then throw clash
      else
        let copy := plan.serviceCopy uuid source
        let push (env : SavedEnvironmentIntent) := { env with services := env.services ++ [copy] }
        pure (push next, base.map push)
    -- Node rows are nodes `from_` has: the code panics here, and no plan gets here.
    | none => throw ⟨"picks", "node rows are nodes `from` has"⟩

/-- A variable new to `next` takes `from_`'s description and export. -/
def describe (plan : Plan) (next : SavedEnvironmentIntent) (lineage key : String) :
    SavedEnvironmentIntent :=
  match (service plan.from_ lineage).bind fun s => s.vars.find? (·.key == key) with
  | some source => next.modifyService lineage fun s => s.modifyVariable key fun target =>
      { target with description := source.description, exported := source.exported }
  | none => next

/-- What the landing loop carries. -/
structure Progress where
  next : SavedEnvironmentIntent
  base : Option SavedEnvironmentIntent
  landed : List Landed
  waiting : List RowId

/-- The picked rows that may land, with how each does. -/
def picked (plan : Plan) (picks : Std.TreeSet RowId) :
    Except ConfigError (List (PlannedRow × Arrives)) :=
  picks.toList.mapM fun pick =>
    match plan.rows.find? (·.id == pick) with
    | none => throw ⟨"picks", "Unknown change"⟩
    | some row => match row.verdict with
      | .differs _ => throw ⟨"picks", "Change is meant to differ"⟩
      | .moves _ _ arrives =>
        if row.requires.any fun node => !picks.contains node then
          throw ⟨"picks", "Pick the new node this change belongs to"⟩
        else pure (row, arrives)

def fromCells (plan : Plan) : Cells := .of plan.from_ plan.hostnames.from_

def intoCells (plan : Plan) : Cells := .of plan.into plan.hostnames.into

/-- What lands at a picked row; a row that needs a value and gets none waits. -/
def arriving (plan : Plan) (values : Std.TreeMap RowId SealedSecret) (id : RowId) :
    Arrives → SealedCell
  | .asIs => sealedCell plan.from_ plan.fromCells id
  | .needsValue => match values[id]? with
    | some secret => .secret secret
    | none => .cell .secretWithoutValue

/-- What `into` held at a row. Undo puts the receiver's git branch back with its source; a
Sync never moves one. -/
def was (plan : Plan) (id : RowId) : SealedCell :=
  match sealedCell plan.into plan.intoCells id, id.place with
  | .cell (.value (.source (.git version repository repositoryId access rootDir branch))),
      .setting .source =>
    match plan.intoCells.at_ ⟨id.lineage, .setting .branch⟩ with
    | .value (.branch own) =>
      .cell (.value (.source (.git version repository repositoryId access rootDir (some own))))
    | _ => .cell (.value (.source (.git version repository repositoryId access rootDir branch)))
  | was, _ => was

def landRow (plan : Plan) (draws : Draws) (values : Std.TreeMap RowId SealedSecret)
    (progress : Progress) (picked : PlannedRow × Arrives) : Except ConfigError Progress := do
  let (row, arrives) := picked
  let id := row.id
  let value := plan.arriving values id arrives
  let waiting := if arrives = .needsValue ∧ values[id]? = none then
    progress.waiting ++ [id] else progress.waiting
  let was := plan.was id
  let (next, base) ← if id.place = .node then
      plan.introduce (draws.next id).text progress.next progress.base id.lineage
    else do
      let next ← putSealed (draws.next id).text progress.next id value
      let next := match id.place, was with
        | .var key, .cell .absent => plan.describe next id.lineage key
        | _, _ => next
      let base ← match progress.base with
        | some base => some <$> putInto (draws.base id).text (adopt base plan.into id) id row.from_
        | none => pure none
      pure (next, base)
  return ⟨next, base, progress.landed ++ [⟨id, row.base, was, value.toRedacted⟩], waiting⟩

/-- Land `picks` in `into`, a new node first. A row that needs a value takes its secret
from `values`, or lands without one and waits; `values` for any other row are ignored. -/
def apply (plan : Plan) (draws : Draws) (picks : Std.TreeSet RowId)
    (values : Std.TreeMap RowId SealedSecret) : Except ConfigError Applied := do
  let landing ← plan.picked picks
  let landing := landing.insertionSort fun a b =>
    landingOrder plan.from_ a.1.id ≤ landingOrder plan.from_ b.1.id
  let progress ← landing.foldlM (plan.landRow draws values) ⟨plan.into, plan.base, [], []⟩
  let next ← parseEnvironmentIntent progress.next
  -- Creating, the base is `from_` minus what `into` uses live.
  let base := progress.base.getD
    { plan.from_ with
      services := plan.from_.services.filter fun service => !plan.live.contains service.lineageId }
  return ⟨next, redactEnvironmentIntent base, progress.landed, progress.waiting⟩

/-- The most of `picks` that `apply` takes with no values: each pick in landing order,
left out when it would fail, and with it the rows of its node. -/
def landable (plan : Plan) (draws : Draws) (picks : Std.TreeSet RowId) : Std.TreeSet RowId :=
  match plan.apply draws picks ∅ with
  | .ok _ => picks
  | .error _ =>
    let order := picks.toList.insertionSort fun a b =>
      landingOrder plan.from_ a ≤ landingOrder plan.from_ b
    order.foldl (fun landable pick => match plan.apply draws (landable.insert pick) ∅ with
      | .ok _ => landable.insert pick
      | .error _ => landable) ∅

end Plan

/-! ## Undoing a landing -/

/-- Why `unapply` refused: the row holds other than what landed, or it is a new node that
holds a row that didn't land with it; or what it puts back doesn't hold together. -/
inductive Unapplied
  | changed (row : RowId)
  | invalid (error : ConfigError)
deriving DecidableEq, Repr

/-- Refuse a landed row changed since it landed. -/
def checkLanded (cells : Cells) (landed : List Landed) (one : Landed) : Except Unapplied Unit :=
  if cells.at_ one.row ≠ one.value then throw (.changed one.row)
  else if one.row.place ≠ .node then pure ()
  else match (cells.places one.row.lineage).find? fun (child, _) =>
      !child.place.needed && !landed.any (·.row == child) with
    | some (child, _) => throw (.changed child)
    | none => pure ()

/-- Put back what each of `landed` held before it landed in `intent`, whose generated
addresses end in `suffix`: `Plan.apply` in reverse. A new node goes whole. -/
def unapply (draws : RowId → Uuid) (intent : SavedEnvironmentIntent) (suffix : String)
    (landed : List Landed) : Except Unapplied SavedEnvironmentIntent := do
  forM landed (checkLanded (.of intent suffix) landed)
  let order := landed.insertionSort fun a b =>
    landingOrder intent b.row ≤ landingOrder intent a.row
  order.foldlM (fun intent one =>
    (putSealed (draws one.row).text intent one.row one.was).mapError .invalid) intent

end Ployz
