import Ployz.Config.Sync.Row

/-!
# Row ids as text

A row's address is stored and shown as `<lineage>:<place>`, where the place is a fixed word, the
dotted path of a setting, or a free key after `mounts.` or `variables.`. The parser takes the text
apart at its first colon and reads the place by its words first.

Main theorem: `row_ids_round_trip`. A text parses exactly to the named rows it renders
(`fromStr_eq_ok`).
-/

namespace Ployz

/-! ## Text -/

/-- The texts around the first such character: `str::split_once`. -/
def splitOnce (text : String) (separator : Char) : Option (String × String) :=
  match text.toList.dropWhile (· != separator) with
  | [] => none
  | _ :: rest =>
    some (String.ofList (text.toList.takeWhile (· != separator)), String.ofList rest)

/-- The text after another it starts with: `str::strip_prefix`. -/
def stripStart (text start : String) : Option String :=
  (text.toList.dropPrefix? start.toList).map String.ofList

theorem splitOnce_eq_some {text first second : String} {separator : Char} :
    splitOnce text separator = some (first, second) ↔
      separator ∉ first.toList ∧ text.toList = first.toList ++ separator :: second.toList := by
  unfold splitOnce
  constructor
  · intro h
    split at h
    · cases h
    · rename_i c rest hrest
      obtain ⟨rfl, rfl⟩ := Prod.mk.inj (Option.some.inj h)
      have hc : c = separator := by
        have := List.head?_dropWhile_not (· != separator) text.toList
        rw [hrest] at this
        simpa using this
      subst hc
      rw [String.toList_ofList, String.toList_ofList]
      refine ⟨fun hmem => ?_, ?_⟩
      · simpa using List.mem_takeWhile_imp hmem
      · rw [← hrest, List.takeWhile_append_dropWhile]
  · rintro ⟨hfirst, htext⟩
    have hne : ∀ c ∈ first.toList, (c != separator) = true := fun c hc =>
      bne_iff_ne.mpr (ne_of_mem_of_not_mem hc hfirst)
    have hdrop : text.toList.dropWhile (· != separator) = separator :: second.toList := by
      rw [htext, List.dropWhile_append_of_pos hne]
      simp
    have htake : text.toList.takeWhile (· != separator) = first.toList := by
      rw [htext, List.takeWhile_append_of_pos hne]
      simp
    rw [hdrop, htake, String.ofList_toList]
    dsimp only
    rw [String.ofList_toList]

theorem stripStart_eq_some {text start rest : String} :
    stripStart text start = some rest ↔ text = start ++ rest := by
  simp only [stripStart, Option.map_eq_some_iff, List.dropPrefix?_eq_some_iff, beq_iff_eq]
  constructor
  · rintro ⟨chars, ⟨before, htext, rfl⟩, rfl⟩
    rw [← String.toList_inj, htext, String.toList_append, String.toList_ofList]
  · rintro rfl
    exact ⟨rest.toList, ⟨start.toList, String.toList_append, rfl⟩, String.ofList_toList⟩

/-! ## Reading -/

namespace Setting

def ofPath (path : String) : Option Setting := all.find? (·.path == path)

theorem ofPath_eq_some {path : String} {setting : Setting} :
    ofPath path = some setting ↔ setting.path = path := by
  constructor
  · intro h
    simpa using List.find?_some h
  · rintro rfl
    cases setting <;> decide +kernel

end Setting

namespace At

/-- The place that the text after a lineage names. -/
def read (text : String) : Option At :=
  if text = "node" then some .node
  else if text = "data" then some .data
  else if text = "name" then some .name
  else if text = "storage" then some .storage
  else
    match (stripStart text "mounts.").filter (· != ""),
      (stripStart text "variables.").filter (· != "") with
    | some volume, _ => some (.mount volume)
    | none, some key => some (.var key)
    | none, none => (Setting.ofPath text).map .setting

/-- A place whose key, if it has one, is not empty. -/
def Keyed : At → Prop
  | mount key | var key => key ≠ ""
  | node | data | name | storage | setting _ => True

theorem filter_stripStart {text start rest : String} :
    (stripStart text start).filter (· != "") = some rest ↔ text = start ++ rest ∧ rest ≠ "" := by
  simp [Option.filter_eq_some_iff, stripStart_eq_some]

/-- A text is read as the place it renders. -/
theorem read_eq_some {text : String} {place : At} :
    read text = some place ↔ place.Keyed ∧ place.toString = text := by
  constructor
  · intro h
    unfold read at h
    split_ifs at h with hnode hdata hname hstorage
    iterate 4
      · obtain rfl := Option.some.inj h
        exact ⟨trivial, by simp [toString, *]⟩
    split at h
    · rename_i volume _ hvolume
      obtain rfl := Option.some.inj h
      obtain ⟨htext, hne⟩ := filter_stripStart.mp hvolume
      exact ⟨hne, htext.symm⟩
    · rename_i key _ hkey
      obtain rfl := Option.some.inj h
      obtain ⟨htext, hne⟩ := filter_stripStart.mp hkey
      exact ⟨hne, htext.symm⟩
    · obtain ⟨setting, hsetting, rfl⟩ := Option.map_eq_some_iff.mp h
      exact ⟨trivial, Setting.ofPath_eq_some.mp hsetting⟩
  · rintro ⟨hkeyed, rfl⟩
    cases place with
    | node | data | name | storage => decide +kernel
    | setting setting => cases setting <;> decide +kernel
    | mount volume =>
      have hword : ∀ word : String, word.toList.head? ≠ some 'm' →
          toString (.mount volume) ≠ word := by
        rintro word hword rfl
        simp [toString] at hword
      have hvolume : (stripStart (toString (.mount volume)) "mounts.").filter (· != "") =
          some volume := filter_stripStart.mpr ⟨rfl, hkeyed⟩
      unfold read
      rw [if_neg (hword _ (by decide)), if_neg (hword _ (by decide)), if_neg (hword _ (by decide)),
        if_neg (hword _ (by decide)), hvolume]
    | var key =>
      have hword : ∀ word : String, word.toList.head? ≠ some 'v' → toString (.var key) ≠ word := by
        rintro word hword rfl
        simp [toString] at hword
      have hmounts : (stripStart (toString (.var key)) "mounts.").filter (· != "") = none := by
        rw [Option.eq_none_iff_forall_ne_some]
        intro volume hvolume
        exact hword _ (by simp) (filter_stripStart.mp hvolume).1
      have hkey : (stripStart (toString (.var key)) "variables.").filter (· != "") = some key :=
        filter_stripStart.mpr ⟨rfl, hkeyed⟩
      unfold read
      rw [if_neg (hword _ (by decide)), if_neg (hword _ (by decide)), if_neg (hword _ (by decide)),
        if_neg (hword _ (by decide)), hmounts, hkey]

end At

namespace RowId

def unknown : ConfigError := ⟨"row", "Unknown change"⟩

def fromStr (row : String) : Except ConfigError RowId :=
  match splitOnce row ':' with
  | none => .error unknown
  | some (lineage, text) =>
    match At.read text with
    | none => .error unknown
    | some place => if lineage = "" then .error unknown else .ok ⟨lineage, place⟩

/-- A row with a lineage that is no empty text and holds no colon, and with a key where its place
takes one. -/
structure Named (row : RowId) : Prop where
  lineage_ne : row.lineage ≠ ""
  no_colon : ':' ∉ row.lineage.toList
  keyed : row.place.Keyed

/-- A text parses to the named row it renders. -/
theorem fromStr_eq_ok {text : String} {row : RowId} :
    fromStr text = .ok row ↔ row.Named ∧ row.toString = text := by
  have hrendered : row.toString.toList = row.lineage.toList ++ ':' ::
      row.place.toString.toList := by
    simp [toString]
  constructor
  · intro h
    unfold fromStr at h
    split at h
    · cases h
    · rename_i lineage rest hsplit
      split at h
      · cases h
      · rename_i place hplace
        split_ifs at h with hlineage
        obtain rfl := Except.ok.inj h
        obtain ⟨hcolon, htext⟩ := splitOnce_eq_some.mp hsplit
        obtain ⟨hkeyed, hread⟩ := At.read_eq_some.mp hplace
        refine ⟨⟨hlineage, hcolon, hkeyed⟩, ?_⟩
        rw [← String.toList_inj, htext, hrendered, hread]
  · rintro ⟨hnamed, rfl⟩
    unfold fromStr
    rw [splitOnce_eq_some.mpr ⟨hnamed.no_colon, hrendered⟩]
    dsimp only
    rw [At.read_eq_some.mpr ⟨hnamed.keyed, rfl⟩]
    dsimp only
    rw [if_neg hnamed.lineage_ne]

/-- A named row is read back from its text, a text that is read is the one its row renders, and no
two named rows share a text. -/
theorem row_ids_round_trip (row other : RowId) (text : String) :
    (row.Named → fromStr row.toString = .ok row) ∧
    (fromStr text = .ok row → row.toString = text) ∧
    (row.Named → other.Named → row.toString = other.toString → row = other) := by
  refine ⟨fun hrow => fromStr_eq_ok.mpr ⟨hrow, rfl⟩, fun h => (fromStr_eq_ok.mp h).2, ?_⟩
  intro hrow hother hsame
  have hread : fromStr row.toString = .ok row := fromStr_eq_ok.mpr ⟨hrow, rfl⟩
  have hagain : fromStr row.toString = .ok other := fromStr_eq_ok.mpr ⟨hother, hsame.symm⟩
  exact Except.ok.inj (hread.symm.trans hagain)

end RowId

end Ployz
