import Ployz.Config.Sync.Arriving
import Ployz.Config.Sync.Moves

/-!
# Landing picks

`Plan.apply` lands its picks in two passes: the new nodes, then the other rows in row
order. `apply_run` takes a landing apart into these passes, `landRow_cases` a row's
landing into what it does to the receiver and to the base.
-/

namespace Ployz

open Keyed Run Table

/-! ## Taking a landing apart -/

/-- Everything landing one row does. -/
inductive RowLanded (plan : Plan) (draws : Draws) (value : SealedCell) (row : PlannedRow)
    (p p' : Plan.Progress) : Prop
  | node {node : NodeRef} (hplace : row.id.place = .node)
      (hnode : nodeAt plan.from_ row.id.lineage = some node) (hfree : node.Unclashing p.next)
      (hnext : p'.next = p.next.push (plan.copy (draws.next row.id).text node))
      (hbase : p'.base = p.base.map (·.push (plan.copy (draws.next row.id).text node)))
  | put {next : SavedEnvironmentIntent} (hplace : row.id.place ≠ .node)
      (hput : putSealed (draws.next row.id).text p.next row.id value = .ok next)
      (hnext : p'.next = next ∨
        ∃ key, row.id.place = .var key ∧ p'.next = plan.describe next row.id.lineage key)
      (hnone : p.base = none → p'.base = none)
      (hsome : ∀ base ∈ p.base, ∃ base', p'.base = some base' ∧
        putInto (draws.base row.id).text (adopt base plan.into row.id) row.id row.from_ = .ok base')

variable {p p' : Plan.Progress}

/-- What is put of a variable that was not there, described. -/
def Plan.described (plan : Plan) (id : RowId) (next : SavedEnvironmentIntent) :
    SavedEnvironmentIntent :=
  match id.place, plan.was id with
  | .var key, .cell .absent => plan.describe next id.lineage key
  | _, _ => next

variable {row : PlannedRow}

theorem landRow_cases {plan : Plan} {draws : Draws} {values : Std.TreeMap RowId SealedSecret}
    {arrives : Arrives} (h : plan.landRow draws values p (row, arrives) = .ok p') :
    RowLanded plan draws (plan.arriving values row.id arrives) row p p' ∧
      p'.landed = p.landed ++ [⟨row.id, row.base, plan.was row.id,
        (plan.arriving values row.id arrives).toRedacted⟩] ∧
      p'.waiting = if arrives = .needsValue ∧ values[row.id]? = none then p.waiting ++ [row.id]
        else p.waiting := by
  unfold Plan.landRow at h
  simp only at h
  split at h
  · next hplace =>
    simp only [bind_eq_ok, pure_eq_ok, Prod.exists] at h
    obtain ⟨next, base, hstep, rfl⟩ := h
    obtain ⟨node, hnode, hfree, rfl, rfl⟩ := introduce_cases hstep
    exact ⟨.node hplace hnode hfree rfl rfl, rfl, rfl⟩
  · next hplace =>
    obtain ⟨next, hput, h⟩ := bind_eq_ok.mp h
    have hdescribed : ∀ env, env = plan.described row.id next → env = next ∨
        ∃ key, row.id.place = .var key ∧ env = plan.describe next row.id.lineage key := by
      rintro env rfl
      unfold Plan.described
      split
      · next key hkey _ => exact .inr ⟨key, hkey, rfl⟩
      · exact .inl rfl
    split at h
    · next base hbase =>
      simp only [bind_eq_ok, pure_eq_ok, map_eq_ok] at h
      obtain ⟨_, ⟨base', hput', rfl⟩, _, rfl, rfl⟩ := h
      refine ⟨.put hplace hput (hdescribed _ rfl) (by simp [hbase]) fun b hb => ?_, rfl, rfl⟩
      cases hbase.symm.trans hb
      exact ⟨base', rfl, hput'⟩
    · next hbase =>
      simp only [bind_eq_ok, pure_eq_ok] at h
      obtain ⟨_, rfl, _, rfl, rfl⟩ := h
      exact ⟨.put hplace hput (hdescribed _ rfl) (fun _ => rfl) (by simp [hbase]), rfl, rfl⟩

/-- A picked row that lands: it moves, and its new node is picked with it. -/
structure Lands (sides : Sides) (policy : Policy) (picks : Std.TreeSet RowId) (row : PlannedRow)
    (arrives : Arrives) : Prop where
  moving : ∃ conflict ticked, Moving sides policy row conflict ticked arrives
  picked : row.id ∈ picks
  requires : ∀ node ∈ row.requires, node ∈ picks

variable {sides : Sides} {policy : Policy} {draws : Draws} {picks : Std.TreeSet RowId}
  {values : Std.TreeMap RowId SealedSecret} {applied : Applied}

def Plan.pick (plan : Plan) (picks : Std.TreeSet RowId) (id : RowId) :
    Except ConfigError (PlannedRow × Arrives) :=
  match plan.rows.find? (·.id == id) with
  | none => throw ⟨"picks", "Unknown change"⟩
  | some row => match row.verdict with
    | .differs _ => throw ⟨"picks", "Change is meant to differ"⟩
    | .moves _ _ arrives =>
      if row.requires.any fun node => !picks.contains node then
        throw ⟨"picks", "Pick the new node this change belongs to"⟩
      else pure (row, arrives)

theorem picked_eq_ok (hd : sides.Distinct) {landing : List (PlannedRow × Arrives)}
    (h : (plan sides policy).picked picks = .ok landing) :
    landing.map (·.1.id) = picks.toList ∧ ∀ p ∈ landing, Lands sides policy picks p.1 p.2 := by
  have hone : ∀ {id : RowId} {p : PlannedRow × Arrives}, id ∈ picks →
      (plan sides policy).pick picks id = .ok p →
      p.1.id = id ∧ Lands sides policy picks p.1 p.2 := by
    intro id p hid hp
    unfold Plan.pick at hp
    split at hp
    · cases hp
    · next row hfind =>
      split at hp
      · cases hp
      · next conflict ticked arrives hverdict =>
        split at hp
        · cases hp
        · next hrequires =>
          cases hp
          have hrow : row.id = id := by simpa using List.find?_some hfind
          refine ⟨hrow, ⟨conflict, ticked, ?_⟩, hrow ▸ hid, fun node hnode => ?_⟩
          · exact (moving_iff hd).mp ⟨List.mem_of_find?_eq_some hfind, hverdict⟩
          · have hsome : row.requires = some node := hnode
            simpa [hsome] using hrequires
  have hall := mapM_eq_ok.mp h
  have hmem : ∀ id ∈ picks.toList, id ∈ picks := fun id hid => Std.TreeSet.mem_toList.mp hid
  clear h
  generalize picks.toList = ids at hall hmem
  induction hall with
  | nil => simp
  | @cons id p ids landing hp hrest ih =>
    obtain ⟨hrow, hlands⟩ := hone (hmem id (by simp)) hp
    obtain ⟨hids, hrest⟩ := ih fun id hid => hmem id (by simp [hid])
    refine ⟨by rw [List.map_cons, hrow, hids], ?_⟩
    rintro q (_ | ⟨_, hq⟩)
    · exact hlands
    · exact hrest q hq

/-- A landing that went through: the new nodes, then the other rows in row order. -/
structure Landing (sides : Sides) (policy : Policy) (draws : Draws) (picks : Std.TreeSet RowId)
    (values : Std.TreeMap RowId SealedSecret) (applied : Applied) where
  nodes : List (PlannedRow × Arrives)
  rows : List (PlannedRow × Arrives)
  mid : Plan.Progress
  last : Plan.Progress
  place_nodes : ∀ p ∈ nodes, p.1.id.place = .node
  place_rows : ∀ p ∈ rows, p.1.id.place ≠ .node
  lands : ∀ p ∈ nodes ++ rows, Lands sides policy picks p.1 p.2
  mem_picks : ∀ id, id ∈ picks ↔ ∃ p ∈ nodes ++ rows, p.1.id = id
  nodup_nodes : (nodes.map (·.1.id)).Nodup
  ordered_rows : rows.Pairwise fun a b => a.1.id < b.1.id
  run_nodes : nodes.foldlM ((plan sides policy).landRow draws values)
    ⟨sides.into, sides.base, [], []⟩ = .ok mid
  run_rows : rows.foldlM ((plan sides policy).landRow draws values) mid = .ok last
  next : parseEnvironmentIntent last.next = .ok applied.next
  base : applied.base = redactEnvironmentIntent (last.base.getD { sides.from_ with
    services := sides.from_.services.filter fun s => !policy.live.contains s.lineageId })
  landed : applied.landed = last.landed
  waiting : applied.waiting = last.waiting

variable {env : SavedEnvironmentIntent} {value : SealedCell}

theorem landingOrder_of_ne {row : RowId} (h : row.place ≠ .node) :
    landingOrder env row = 2 := by
  unfold landingOrder
  split
  · contradiction
  · rfl

theorem landingOrder_node {row : RowId} (h : row.place = .node) :
    landingOrder env row < 2 := by
  rw [landingOrder, h]
  simp only
  split <;> decide

theorem apply_run (hd : sides.Distinct)
    (h : (plan sides policy).apply draws picks values = .ok applied) :
    Nonempty (Landing sides policy draws picks values applied) := by
  unfold Plan.apply at h
  simp only [bind_eq_ok, pure_eq_ok] at h
  obtain ⟨landing, hpicked, last, hrun, next, hnext, rfl⟩ := h
  obtain ⟨hids, hlands⟩ := picked_eq_ok hd hpicked
  obtain ⟨nodes, hnodes, hsort⟩ : ∃ nodes,
      nodes.Perm (landing.filter fun p => p.1.id.place = .node) ∧
      landing.insertionSort (fun a b =>
        landingOrder sides.from_ a.1.id ≤ landingOrder sides.from_ b.1.id) =
        nodes ++ landing.filter fun p => !decide (p.1.id.place = .node) := by
    refine insertionSort_rank _ _ (fun a b ha hb => ?_) (fun a b ha hb => ?_) landing
    · rw [landingOrder_of_ne (of_decide_eq_false hb)]
      exact landingOrder_node (of_decide_eq_true ha)
    · rw [landingOrder_of_ne (of_decide_eq_false ha), landingOrder_of_ne (of_decide_eq_false hb)]
  have hrun' : (nodes ++ landing.filter fun p => !decide (p.1.id.place = .node)).foldlM
      ((plan sides policy).landRow draws values) ⟨sides.into, sides.base, [], []⟩ = .ok last :=
    hsort ▸ hrun
  rw [List.foldlM_append, bind_eq_ok] at hrun'
  obtain ⟨mid, hmid, hlast⟩ := hrun'
  have hmem : ∀ p, p ∈ nodes ++ landing.filter (fun p => !decide (p.1.id.place = .node)) ↔
      p ∈ landing := fun p => by
    rw [List.mem_append, hnodes.mem_iff, List.mem_filter, List.mem_filter]
    by_cases hp : p.1.id.place = .node <;> simp [hp]
  have hordered : landing.Pairwise fun a b => a.1.id < b.1.id := by
    have := Std.TreeSet.ordered_toList (t := picks)
    rw [← hids, List.pairwise_map] at this
    exact this.imp fun h => compare_lt_iff_lt.mp h
  have hnodup : (landing.map (·.1.id)).Nodup := by
    rw [List.Nodup, List.pairwise_map]
    exact hordered.imp fun h => h.ne
  exact ⟨{
    nodes := nodes
    rows := landing.filter fun p => !decide (p.1.id.place = .node)
    mid := mid
    last := last
    place_nodes := fun p hp => by
      simpa using (List.mem_filter.mp (hnodes.mem_iff.mp hp)).2
    place_rows := fun p hp => by simpa using (List.mem_filter.mp hp).2
    lands := fun p hp => hlands p ((hmem p).mp hp)
    mem_picks := fun id => by
      rw [← Std.TreeSet.mem_toList, ← hids, List.mem_map]
      exact exists_congr fun p => and_congr_left' (hmem p).symm
    nodup_nodes := (hnodes.map _).nodup_iff.mpr (hnodup.sublist (List.filter_sublist.map _))
    ordered_rows := hordered.sublist List.filter_sublist
    run_nodes := hmid
    run_rows := hlast
    next := hnext
    base := rfl
    landed := rfl
    waiting := rfl }⟩

/-- What is recorded of a row that landed. -/
def Plan.record (plan : Plan) (values : Std.TreeMap RowId SealedSecret)
    (p : PlannedRow × Arrives) : Landed :=
  ⟨p.1.id, p.1.base, plan.was p.1.id, (plan.arriving values p.1.id p.2).toRedacted⟩

/-- Whether a row lands as a secret that waits for its value. -/
def waits (values : Std.TreeMap RowId SealedSecret) (p : PlannedRow × Arrives) : Bool :=
  p.2 = .needsValue ∧ values[p.1.id]? = none

theorem recorded {plan : Plan} {landing : List (PlannedRow × Arrives)} {last : Plan.Progress}
    (h : landing.foldlM (plan.landRow draws values) p = .ok last) :
    last.landed = p.landed ++ landing.map (plan.record values) ∧
      last.waiting = p.waiting ++ (landing.filter (waits values)).map (·.1.id) := by
  induction landing generalizing p with
  | nil =>
    simp only [List.foldlM_nil, pure_eq_ok] at h
    simp [h]
  | cons r rest ih =>
    simp only [List.foldlM_cons, bind_eq_ok] at h
    obtain ⟨q, hstep, hrest⟩ := h
    obtain ⟨hlanded, hwaiting⟩ := ih hrest
    obtain ⟨-, hlanded', hwaiting'⟩ := landRow_cases hstep
    refine ⟨by rw [hlanded, hlanded']; simp [Plan.record], ?_⟩
    rw [hwaiting, hwaiting', List.filter_cons]
    by_cases hw : r.2 = .needsValue ∧ values[r.1.id]? = none
    · have hwaits : waits values r = true := decide_eq_true hw
      rw [if_pos hw, if_pos hwaits]
      simp
    · have hwaits : ¬waits values r = true := by simpa only [waits, decide_eq_true_eq] using hw
      rw [if_neg hw, if_neg hwaits]

/-! ## What a described variable shows -/

/-- A Service's variable with another description and export. -/
abbrev SavedServiceIntent.describe (s : SavedServiceIntent) (key : String)
    (description : Option String) (exported : Bool) : SavedServiceIntent :=
  s.modifyVariable key fun v => { v with description := description, exported := exported }

theorem describe_keeps (key : String) (description : Option String) (exported : Bool) :
    Keeps (·.describe key description exported) := by
  constructor <;> intro s <;> rfl

theorem describe_cases (plan : Plan) (env : SavedEnvironmentIntent) (lineage key : String) :
    plan.describe env lineage key = env ∨ ∃ description exported, plan.describe env lineage key =
      env.modifyService lineage (·.describe key description exported) := by
  unfold Plan.describe
  split
  · next source _ => exact .inr ⟨source.description, source.exported, rfl⟩
  · exact .inl rfl

theorem held_describe (env : SavedEnvironmentIntent) (suffix : String) (s : SavedServiceIntent)
    (key : String) (description : Option String) (exported : Bool) (place : At) :
    held env suffix (s.describe key description exported) place = held env suffix s place := by
  cases place with
  | var k =>
    simp only [held, placeSealed, varSealed, SavedServiceIntent.describe]
    rw [find_modifyVariable s key k _ fun _ => by rfl]
    by_cases hk : k = key
    · rw [if_pos hk]
      cases s.vars.find? (·.key == k) <;> rfl
    · rw [if_neg hk]
  | _ => rfl

theorem view_describe (plan : Plan) (env : SavedEnvironmentIntent) (lineage key suffix : String) :
    view (plan.describe env lineage key) suffix = view env suffix := by
  rcases describe_cases plan env lineage key with h | ⟨description, exported, h⟩
  · rw [h]
  · rw [h]
    cases hservice : service env lineage with
    | none =>
      rw [SavedEnvironmentIntent.modifyService, modifyFirst_of_find_none hservice]
    | some s =>
      have hwrote : Wrote env suffix s (s.describe key description exported) .node
          (.cell .absent) := fun place => by
        rw [held_describe]
        by_cases hp : place = .node
        · subst hp; rfl
        · simp [hp]
      have hsame : serviceView (env.modifyService lineage (·.describe key description exported))
          suffix = serviceView env suffix := by
        rw [serviceView_modifyService hservice (describe_keeps ..) hwrote]
        refine View.write_absent ?_ (by simp)
        simp [serviceView, hservice, placeSealed, placeCell]
      rw [view_eq_over, volumeView_modifyService, hsame, ← view_eq_over]

theorem Sane.describe {plan : Plan} (h : Sane env) (lineage key : String) :
    Sane (plan.describe env lineage key) := by
  rcases describe_cases plan env lineage key with heq | ⟨description, exported, heq⟩
  · rwa [heq]
  · rw [heq]
    have hk := describe_keeps key description exported
    refine ⟨⟨?_, h.sound.volumes, h.sound.volumeIds, ?_, ?_⟩, ?_, ?_⟩
    · rw [map_modifyService env lineage _ hk.lineageId]
      exact h.sound.services
    · intro t ht
      rcases mem_modifyFirst ht with ht | ⟨x, hx, -, rfl⟩
      · exact h.sound.keys t ht
      · rw [SavedServiceIntent.describe, map_modifyVariable x key _ fun _ => by rfl]
        exact h.sound.keys x hx
    · intro t ht
      rcases mem_modifyFirst ht with ht | ⟨x, hx, -, rfl⟩
      · exact h.sound.attachments t ht
      · exact h.sound.attachments x hx
    · intro l
      refine (h.single l).imp_right fun hnone => ?_
      rw [service_modifyService hk.lineageId, hnone]
      split <;> rfl
    · intro t ht
      rcases mem_modifyFirst ht with ht | ⟨x, hx, -, rfl⟩
      · exact h.mounted t ht
      · exact h.mounted x hx

/-! ## The receiver, row by row -/

theorem Change.volumeIds {uuid : String} {env' : SavedEnvironmentIntent} {row : RowId}
    {cell : SealedCell} (h : Change uuid env row cell env') (hplace : row.place ≠ .node) :
    env'.volumes.map (·.resourceId) = env.volumes.map (·.resourceId) := by
  cases h with
  | leave h | stay h => exact absurd h hplace
  | lack | service => rfl
  | name | storage => exact map_modifyVolume env row.lineage _ fun _ => rfl

theorem describe_volumes (plan : Plan) (env : SavedEnvironmentIntent) (lineage key : String) :
    (plan.describe env lineage key).volumes = env.volumes := by
  rcases describe_cases plan env lineage key with h | ⟨_, _, h⟩ <;> rw [h]
  rfl

/-- Volumes only arrive. -/
theorem RowLanded.volumeIds {plan : Plan} {row : PlannedRow}
    (h : RowLanded plan draws value row p p') :
    p.next.volumes.map (·.resourceId) <+: p'.next.volumes.map (·.resourceId) := by
  cases h with
  | @node node _ _ _ hnext =>
    rw [hnext]
    cases node with
    | service s => exact List.prefix_rfl
    | volume v =>
      simp only [Plan.copy, SavedEnvironmentIntent.push, SavedEnvironmentIntent.pushVolume,
        List.map_append]
      exact List.prefix_append _ _
  | @put next hplace hput hnext =>
    have hids := (putSealed_cases hput).volumeIds hplace
    have heq : p'.next.volumes.map (·.resourceId) = p.next.volumes.map (·.resourceId) := by
      rcases hnext with hnext | ⟨key, -, hnext⟩
      · rw [hnext, hids]
      · rw [hnext, describe_volumes, hids]
    exact heq ▸ List.prefix_rfl

theorem volumeIds_kept {plan : Plan} {landing : List (PlannedRow × Arrives)}
    {last : Plan.Progress} (h : landing.foldlM (plan.landRow draws values) p = .ok last) :
    p.next.volumes.map (·.resourceId) <+: last.next.volumes.map (·.resourceId) := by
  refine foldlM_invariant (P := fun _ (q : Plan.Progress) =>
    p.next.volumes.map (·.resourceId) <+: q.next.volumes.map (·.resourceId)) ?_ List.prefix_rfl h
  intro _ _ q q' hq hstep _
  exact hq.trans (landRow_cases hstep).1.volumeIds

/-- A node that lands arrives with what it carries. -/
theorem RowLanded.arrives (h : RowLanded (plan sides policy) draws value row p p')
    (hplace : row.id.place = .node) (hs : Sane p.next)
    (hids : (p'.next.volumes.map (·.resourceId)).Nodup)
    (hnew : nodeAt p.next row.id.lineage = none) :
    Sane p'.next ∧ ∃ tag, sides.fromView.tag row.id.lineage = some tag ∧
      view p'.next sides.hostnames.into = (view p.next sides.hostnames.into).arrive row.id.lineage
        tag (sides.fromView.carried row.id.lineage) := by
  cases h with
  | put hne => exact absurd hplace hne
  | @node node _ hnode _ hnext =>
    have hlineage : ((plan sides policy).copy (draws.next row.id).text node).lineage =
        row.id.lineage := (copy_tag ..).2.trans (lineage_of_nodeAt hnode)
    have hjoins : ((plan sides policy).copy (draws.next row.id).text node).Joins p.next := by
      refine ⟨hlineage ▸ hnew, fun v hv => ?_, fun s hv => ?_, fun s hv => ?_, fun s hv => ?_⟩
      · rw [hnext, hv, SavedEnvironmentIntent.push, SavedEnvironmentIntent.pushVolume,
          List.map_append, List.nodup_append] at hids
        intro hmem
        exact hids.2.2 _ hmem _ (by simp) rfl
      all_goals
        cases node with
        | volume => cases hv
        | service source =>
          cases hv
          simp [Plan.serviceCopy_eq]
    refine ⟨hnext ▸ hs.push hjoins, node.tag, ?_, ?_⟩
    · exact (view_tag ..).trans (congrArg _ hnode)
    · rw [hnext]
      exact view_push_copy hnode hnew (hjoins.unmounted hs.mounted)

/-- Any other row that lands is written. -/
theorem RowLanded.writes (h : RowLanded (plan sides policy) draws value row p p')
    (hplace : row.id.place ≠ .node) (hs : Sane p.next) (hb : row.id.place ≠ .setting .branch)
    (hfit : Fits row.id.place value) :
    Sane p'.next ∧ view p'.next sides.hostnames.into =
      (view p.next sides.hostnames.into).write row.id value := by
  cases h with
  | node h => exact absurd h hplace
  | @put next _ hput hnext =>
    have hchange := putSealed_cases hput
    have hsane := hs.change hchange hplace
    have hview := view_change hchange hs.sound hplace hb hfit (hs.single row.id.lineage)
      sides.hostnames.into
    rcases hnext with hnext | ⟨key, -, hnext⟩
    · exact ⟨hnext ▸ hsane, hnext ▸ hview⟩
    · rw [hnext]
      exact ⟨hsane.describe _ _, (view_describe ..).trans hview⟩

/-! ## The receiver after a landing -/

/-- What lands at a picked row, in views. -/
def Sides.landing (sides : Sides) (values : Std.TreeMap RowId SealedSecret) (id : RowId) :
    Arrives → SealedCell
  | .asIs => sides.fromView.sealed id
  | .needsValue => match values[id]? with
    | some secret => .secret secret
    | none => .cell .secretWithoutValue

theorem arriving_eq (hd : sides.Distinct) (id : RowId) (arrives : Arrives) :
    (plan sides policy).arriving values id arrives = sides.landing values id arrives := by
  cases arrives with
  | asIs => exact sealedCell_view hd.from_ _ id
  | needsValue => rfl

/-- What a document holds at a row fits there. -/
theorem fits_sealed (env : SavedEnvironmentIntent) (suffix : String) (row : RowId) :
    Fits row.place ((view env suffix).sealed row) := by
  obtain ⟨lineage, place⟩ := row
  cases place with
  | setting setting =>
    simp only [View.sealed, view]
    cases nodeAt env lineage with
    | none => trivial
    | some node =>
      cases node with
      | volume v => trivial
      | service s =>
        simp only [placeSealed, placeCell, settingCell]
        split
        · trivial
        · next hset => exact ⟨by simpa using hset, fun _ => .inr ⟨s.config, suffix, rfl⟩⟩
  | _ => trivial

theorem fits_landing (sides : Sides) (values : Std.TreeMap RowId SealedSecret) (id : RowId)
    (arrives : Arrives) : Fits id.place (sides.landing values id arrives) := by
  have hsecret : ∀ {place : At} {secret : SealedSecret}, Fits place (.secret secret) := by
    intro place secret
    cases place <;> trivial
  have hwaiting : ∀ {place : At}, Fits place (.cell .secretWithoutValue) := by
    intro place
    cases place <;> trivial
  cases arrives with
  | asIs => exact fits_sealed sides.from_ sides.hostnames.from_ id
  | needsValue =>
    simp only [Sides.landing]
    split
    · exact hsecret
    · exact hwaiting

namespace Landing

def writes (run : Landing sides policy draws picks values applied) : List (RowId × SealedCell) :=
  run.rows.map fun p => (p.1.id, sides.landing values p.1.id p.2)

def lineages (run : Landing sides policy draws picks values applied) : List String :=
  run.nodes.map (·.1.id.lineage)

/-- The receiver's view once a landing is through. -/
def landedView (run : Landing sides policy draws picks values applied) : View :=
  (sides.intoView.arriveAll sides.fromView run.lineages).writeAll run.writes

/-- The invariant rule for a landing: what every row's landing keeps holds at its end. -/
theorem induct (run : Landing sides policy draws picks values applied)
    {P : Plan.Progress → Prop} (init : P ⟨sides.into, sides.base, [], []⟩)
    (step : ∀ p ∈ run.nodes ++ run.rows, ∀ q q', P q →
      (plan sides policy).landRow draws values q p = .ok q' → P q') : P run.last := by
  have hrun : (run.nodes ++ run.rows).foldlM ((plan sides policy).landRow draws values)
      ⟨sides.into, sides.base, [], []⟩ = .ok run.last := by
    rw [List.foldlM_append, bind_eq_ok]
    exact ⟨run.mid, run.run_nodes, run.run_rows⟩
  refine (foldlM_invariant (P := fun rest q => (∀ p ∈ rest, p ∈ run.nodes ++ run.rows) ∧ P q)
    ?_ ⟨fun _ hp => hp, init⟩ hrun).2
  rintro p rest q q' ⟨hmem, hq⟩ hstep -
  exact ⟨fun r hr => hmem r (by simp [hr]), step p (hmem p (by simp)) q q' hq hstep⟩

theorem recorded (run : Landing sides policy draws picks values applied) :
    applied.landed = (run.nodes ++ run.rows).map ((plan sides policy).record values) ∧
      applied.waiting = ((run.nodes ++ run.rows).filter (waits values)).map (·.1.id) := by
  obtain ⟨hlanded, hwaiting⟩ := Ployz.recorded run.run_nodes
  obtain ⟨hlanded', hwaiting'⟩ := Ployz.recorded run.run_rows
  rw [run.landed, run.waiting, hlanded', hwaiting', hlanded, hwaiting]
  simp

theorem nodup_writes (run : Landing sides policy draws picks values applied) :
    (run.writes.map (·.1)).Nodup := by
  rw [writes, List.map_map, List.Nodup, List.pairwise_map]
  exact run.ordered_rows.imp fun h => h.ne

theorem mem_writes (run : Landing sides policy draws picks values applied)
    {p : PlannedRow × Arrives} (hp : p ∈ run.rows) :
    (p.1.id, sides.landing values p.1.id p.2) ∈ run.writes :=
  List.mem_map.mpr ⟨p, hp, rfl⟩

theorem mem_writes_ids (run : Landing sides policy draws picks values applied) {id : RowId} :
    id ∈ run.writes.map (·.1) ↔ id ∈ picks ∧ id.place ≠ .node := by
  rw [run.mem_picks, writes, List.map_map, List.mem_map]
  constructor
  · rintro ⟨p, hp, rfl⟩
    exact ⟨⟨p, List.mem_append_right _ hp, rfl⟩, run.place_rows p hp⟩
  · rintro ⟨⟨p, hp, rfl⟩, hplace⟩
    rcases List.mem_append.mp hp with hp | hp
    · exact absurd (run.place_nodes p hp) hplace
    · exact ⟨p, hp, rfl⟩

theorem mem_lineages (run : Landing sides policy draws picks values applied) {lineage : String} :
    lineage ∈ run.lineages ↔ RowId.node lineage ∈ picks := by
  rw [run.mem_picks, lineages, List.mem_map]
  constructor
  · rintro ⟨p, hp, rfl⟩
    exact ⟨p, List.mem_append_left _ hp, by rw [RowId.node, ← run.place_nodes p hp]⟩
  · rintro ⟨p, hp, hid⟩
    rcases List.mem_append.mp hp with hp | hp
    · exact ⟨p, hp, by rw [hid]; rfl⟩
    · exact absurd (by rw [hid]; rfl) (run.place_rows p hp)

/-- No picked row is of a git branch, a generated address or custom domains. -/
theorem place_of_picked (run : Landing sides policy draws picks values applied) {id : RowId}
    (hid : id ∈ picks) : id.place ≠ .data ∧ id.place ≠ .setting .branch ∧
      id.place ≠ .setting .managedHostnames ∧ id.place ≠ .setting .routes := by
  obtain ⟨p, hp, rfl⟩ := (run.mem_picks id).mp hid
  obtain ⟨_, _, hmoving⟩ := (run.lands p hp).moving
  exact hmoving.place

theorem volumeIds_nodup (run : Landing sides policy draws picks values applied)
    (h : p.next.volumes.map (·.resourceId) <+: run.last.next.volumes.map (·.resourceId)) :
    (p.next.volumes.map (·.resourceId)).Nodup := by
  obtain ⟨hadmits, -⟩ := parseEnvironmentIntent_eq_ok.mp run.next
  exact hadmits.volumeIds.nodup.sublist h.sublist

theorem new_of_node (run : Landing sides policy draws picks values applied)
    {p : PlannedRow × Arrives} (hp : p ∈ run.nodes) : sides.New policy p.1.id.lineage := by
  obtain ⟨row, arrives⟩ := p
  obtain ⟨conflict, ticked, hmoving⟩ := (run.lands _ (List.mem_append_left _ hp)).moving
  have hplace : row.id.place = .node := run.place_nodes _ hp
  change Moving sides policy row conflict ticked arrives at hmoving
  cases hmoving with
  | shared _ _ hnode => exact absurd hplace hnode
  | node hnew => exact hnew
  | child _ hnode => exact absurd hplace hnode

theorem nodup_lineages (run : Landing sides policy draws picks values applied) :
    run.lineages.Nodup := by
  have hids : run.nodes.map (·.1.id) = run.lineages.map RowId.node := by
    rw [lineages, List.map_map]
    refine List.map_congr_left fun p hp => ?_
    rw [Function.comp_apply, RowId.node, ← run.place_nodes p hp]
  have hnodup := run.nodup_nodes
  rw [hids] at hnodup
  exact hnodup.of_map

/-- The receiver once the new nodes have landed. -/
theorem mid_view (run : Landing sides policy draws picks values applied) (hsane : Sane sides.into) :
    Sane run.mid.next ∧ view run.mid.next sides.hostnames.into =
      sides.intoView.arriveAll sides.fromView run.lineages := by
  -- What is left to arrive is not there yet, and completes the view.
  have hinv : Sane run.mid.next ∧ _ ∧ _ := foldlM_invariant
    (P := fun (rest : List (PlannedRow × Arrives)) (q : Plan.Progress) => Sane q.next ∧
      ((rest.map (·.1.id.lineage)).Nodup ∧ ∀ p ∈ rest, p.1.id.place = .node ∧
        nodeAt q.next p.1.id.lineage = none) ∧
      (view q.next sides.hostnames.into).arriveAll sides.fromView (rest.map (·.1.id.lineage)) =
        sides.intoView.arriveAll sides.fromView run.lineages) ?_ ?_ run.run_nodes
  · rw [List.map_nil, View.arriveAll_nil] at hinv
    exact ⟨hinv.1, hinv.2.2⟩
  · rintro ⟨row, arrives⟩ rest q q' ⟨hs, ⟨hnodup, hnew⟩, hview⟩ hstep hrest
    obtain ⟨hlanded, -⟩ := landRow_cases hstep
    obtain ⟨hplace, hnone⟩ := hnew (row, arrives) (by simp)
    have hids := run.volumeIds_nodup ((volumeIds_kept hrest).trans (volumeIds_kept run.run_rows))
    obtain ⟨hs', tag, htag, hview'⟩ := hlanded.arrives hplace hs hids hnone
    rw [List.map_cons] at hnodup hview
    obtain ⟨hnot, hnodup⟩ := List.nodup_cons.mp hnodup
    refine ⟨hs', ⟨hnodup, fun p hp => ⟨(hnew p (by simp [hp])).1, ?_⟩⟩, ?_⟩
    · have hne : p.1.id.lineage ≠ row.id.lineage := fun heq =>
        hnot (heq ▸ List.mem_map.mpr ⟨p, hp, rfl⟩)
      have htag' := congrArg (·.tag p.1.id.lineage) hview'
      simp only [View.arrive, hne, if_false] at htag'
      rw [← view_tag_eq_none, htag', view_tag_eq_none]
      exact (hnew p (by simp [hp])).2
    · rw [hview', View.arriveAll_cons _ htag, hview]
  · refine ⟨hsane, ⟨run.nodup_lineages, fun p hp => ⟨run.place_nodes p hp, ?_⟩⟩, rfl⟩
    exact view_tag_eq_none.mp (run.new_of_node hp).into

/-- A run over rows that move is a run of writes. -/
theorem last_view (run : Landing sides policy draws picks values applied) (hd : sides.Distinct)
    (hsane : Sane sides.into) : Sane run.last.next ∧
      view run.last.next sides.hostnames.into = run.landedView := by
  obtain ⟨hmid, hview⟩ := run.mid_view hsane
  have hinv : Sane run.last.next ∧ _ ∧ _ := foldlM_invariant
    (P := fun (rest : List (PlannedRow × Arrives)) (q : Plan.Progress) => Sane q.next ∧
      (∀ p ∈ rest, p ∈ run.rows) ∧ (view q.next sides.hostnames.into).writeAll
        (rest.map fun p => (p.1.id, sides.landing values p.1.id p.2)) = run.landedView)
    ?_ ?_ run.run_rows
  · exact ⟨hinv.1, hinv.2.2⟩
  · rintro ⟨row, arrives⟩ rest q q' ⟨hs, hmem, hview⟩ hstep -
    obtain ⟨hlanded, -⟩ := landRow_cases hstep
    have hrow := hmem (row, arrives) (by simp)
    obtain ⟨_, _, hmoving⟩ := (run.lands _ (List.mem_append_right _ hrow)).moving
    rw [arriving_eq hd] at hlanded
    obtain ⟨hs', hview'⟩ := hlanded.writes (run.place_rows _ hrow) hs hmoving.place.2.1
      (fits_landing sides values row.id arrives)
    refine ⟨hs', fun p hp => hmem p (by simp [hp]), ?_⟩
    rw [hview', ← hview, List.map_cons, View.writeAll_cons]
  · exact ⟨hmid, fun p hp => hp, by rw [hview]; rfl⟩

end Landing

end Ployz
