import Ployz.Config.Sync.Exact
import Ployz.Lib.Greedy

/-!
# What of a move can land

`landable` takes the picks if they land together, and else each pick in landing order that lands on
top of those before it (`Greedy.grow`). It is a set that lands, but not always the most that does:
two mounts that exchange their paths land together and neither lands alone.

Main theorem: `landable_takes_in_order`.
-/

namespace Ployz

open Run

namespace Plan

def order (plan : Plan) (picks : Std.TreeSet RowId) : List RowId :=
  picks.toList.insertionSort fun a b => landingOrder plan.from_ a ≤ landingOrder plan.from_ b

/-- Whether the picks land with no values. -/
def lands (plan : Plan) (draws : Draws) (picks : Std.TreeSet RowId) : Bool :=
  (plan.apply draws picks ∅).isOk

theorem landable_eq (plan : Plan) (draws : Draws) (picks : Std.TreeSet RowId) :
    plan.landable draws picks = if plan.lands draws picks then picks
      else Greedy.grow (plan.lands draws) ∅ (plan.order picks) := by
  unfold landable lands
  cases plan.apply draws picks ∅ with
  | ok applied => rfl
  | error error =>
    show List.foldl _ _ _ = List.foldl _ _ _
    congr 1
    funext set pick
    split
    · next hok => simp [hok, Except.isOk, Except.toBool]
    · next herror => simp [herror, Except.isOk, Except.toBool]

theorem mem_order (plan : Plan) {picks : Std.TreeSet RowId} {row : RowId} :
    row ∈ plan.order picks ↔ row ∈ picks := by
  rw [order, List.mem_insertionSort, Std.TreeSet.mem_toList]

end Plan

theorem lands_nothing {sides : Sides} (policy : Policy)
    (hinto : parseEnvironmentIntent sides.into = .ok sides.into) (draws : Draws) :
    (plan sides policy).lands draws ∅ = true := by
  have hpicked : (plan sides policy).picked ∅ = .ok [] := rfl
  unfold Plan.lands Plan.apply
  rw [hpicked, ok_bind]
  show (parseEnvironmentIntent sides.into >>= _).isOk = true
  rw [hinto]
  rfl

/-- What `landable` returns is picked and lands with no values, and a larger set of picks does not
land row by row: the rows of it that land no later than some row of it are refused. -/
theorem landable_takes_in_order {sides : Sides} (policy : Policy)
    (hinto : parseEnvironmentIntent sides.into = .ok sides.into) (draws : Draws)
    (picks : Std.TreeSet RowId) :
    (∀ row ∈ (plan sides policy).landable draws picks, row ∈ picks) ∧
      (plan sides policy).lands draws ((plan sides policy).landable draws picks) = true ∧
      ∀ larger : Std.TreeSet RowId, (∀ row ∈ larger, row ∈ picks) →
        (∀ row ∈ (plan sides policy).landable draws picks, row ∈ larger) →
        (∃ row ∈ larger, row ∉ (plan sides policy).landable draws picks) →
        ∃ before row after part, (plan sides policy).order picks = before ++ row :: after ∧
          row ∈ larger ∧ (∀ other, other ∈ part ↔ other ∈ larger ∧ other ∈ before ++ [row]) ∧
          (plan sides policy).lands draws part = false := by
  rw [Plan.landable_eq]
  split
  · next hall =>
    refine ⟨fun _ h => h, hall, ?_⟩
    rintro larger hwithin hgrown ⟨row, hrow, hnot⟩
    exact absurd (hwithin row hrow) hnot
  · have hempty (row : RowId) : row ∉ (∅ : Std.TreeSet RowId) := Std.TreeSet.not_mem_emptyc
    refine ⟨fun row h => ?_, Greedy.grow_accepts (lands_nothing policy hinto draws) _, ?_⟩
    · exact (Plan.mem_order _).mp ((Greedy.mem_of_mem_grow h).resolve_left (hempty row))
    · intro larger hwithin hgrown hmore
      obtain ⟨before, row, after, part, horder, hrow, hpart, hrefused⟩ :=
        Greedy.grow_refuses hgrown (fun row h => .inr ((Plan.mem_order _).mpr (hwithin row h)))
          hmore
      exact ⟨before, row, after, part, horder, hrow,
        fun other => (hpart other).trans (or_iff_right (hempty other)), hrefused⟩

theorem landable_takes_in_order_command :
    (plan (commandSides "run" []) (.new .sync)).lands ⟨fun _ => freshId, fun _ => freshId⟩
      ((plan (commandSides "run" []) (.new .sync)).landable ⟨fun _ => freshId, fun _ => freshId⟩
        (.ofList [commandRow])) = true :=
  (landable_takes_in_order _ (parsed_of_check (by decide +kernel)) _ _).2.1

/-! ## Two mounts that exchange their paths -/

def oneId : String := "d0000000000000000000000000000000"

def twoId : String := "e0000000000000000000000000000000"

/-- `web` with two Volumes at these paths, beside a Volume `logs` of its own. -/
def mounting (one two : String) (logsId : String) : SavedEnvironmentIntent :=
  .holding [{ webService none with volumeAttachments := [⟨oneId, one⟩, ⟨twoId, two⟩] }]
    [.docker oneId oneId "one", .docker twoId twoId "two", .docker logsId logsId "logs"]

/-- The paths of two mounts exchanged, and another Volume under a name that is taken. -/
def exchange : Sides where
  base := none
  from_ := mounting "/b" "/a" volumeId
  into := mounting "/a" "/b" freshId.text
  hostnames := ⟨"", ""⟩

def exchangedMounts : List RowId := [⟨serviceId, .mount oneId⟩, ⟨serviceId, .mount twoId⟩]

/-- `landable` leaves out both mounts, which land together. -/
theorem exchanged_mounts_left_out :
    parseEnvironmentIntent exchange.into = .ok exchange.into ∧
    (∀ id ∈ RowId.node volumeId :: exchangedMounts, ∃ row ∈ (plan exchange (.new .sync)).rows,
      row.id = id ∧ row.verdict = .moves (id ∈ exchangedMounts) true .asIs) ∧
    ((plan exchange (.new .sync)).landable ⟨fun _ => freshId, fun _ => freshId⟩
      (.ofList (RowId.node volumeId :: exchangedMounts))).isEmpty = true ∧
    (plan exchange (.new .sync)).lands ⟨fun _ => freshId, fun _ => freshId⟩
      (.ofList exchangedMounts) = true :=
  ⟨parsed_of_check (by decide +kernel), by decide +kernel⟩

end Ployz
